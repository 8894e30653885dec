import DocQuery.Expr.Parse
import DocQuery.Expr.Render
import DocQuery.Trace.Recover

/-! # Sources

An expression of a request is given as a text or as an instruction trace.

* `Source`: an expression as it is given; `Source.expr` reads it.
* `SortKey`: an expression to sort by, with its direction; `SortKey.ofText` reads both.
* `Projection`, `Request`: a whole request.
-/

set_option autoImplicit false

namespace DocQuery

/-- An expression as it is given. -/
inductive Source where
  | text (text : String)
  | trace (trace : Trace)
deriving Repr

namespace Source

def toText : Source → Except Error String
  | text t => .ok t
  | trace t => t.text

/-- The body of an anonymous function without parameters, and any other expression as it is. -/
def bodyOf : Expr → Except Error Expr
  | .lambda params rest named body =>
    if params.isEmpty ∧ rest.isNone ∧ named.isNone then .ok body
    else .error (.parameterized ("lambda " ++ Expr.paramsText params rest named ++ ": ..."))
  | e => .ok e

def expr (s : Source) : Except Error Expr := do
  bodyOf (← Expr.parse (← s.toText))

end Source

/-- An expression to sort by. -/
structure SortKey where
  source : Source
  descending : Bool
deriving Repr

/-- The ordering of a text, which is descending if a minus sign comes first. -/
def SortKey.ofText (text : String) : SortKey :=
  match Text.trimStart text.toList with
  | '-' :: rest => ⟨.text (String.ofList (Text.trimStart rest)), true⟩
  | _ => ⟨.text text, false⟩

/-- What a request selects. -/
inductive Projection where
  /-- The whole document. -/
  | document
  | one (source : Source)
  | many (sources : List Source)
deriving Repr

/-- What is to be selected from a table, under which condition and in which order. -/
structure Request where
  table : String
  what : Projection
  condition : Option Source
  order : List SortKey
deriving Repr

/-- The request for all documents of a table. -/
def Request.all (table : String) : Request := ⟨table, .document, none, []⟩

end DocQuery
