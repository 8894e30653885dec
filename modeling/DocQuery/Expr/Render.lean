import DocQuery.Expr.Basic
import DocQuery.Text.Quoted
import DocQuery.Decimal.Text

/-! # Canonical text of expressions

Every compound expression is written inside parentheses, so its text can be read back without any
thought of precedence.

* `Literal.render`, `Expr.render`: the canonical texts.
* `paramsText`: the parameter list of an anonymous function.
-/

set_option autoImplicit false

namespace DocQuery

/-- The items of a list, separated by a comma and a space. -/
def commaJoined (items : List String) : String := ", ".intercalate items

/-- The canonical text of a literal. -/
def Literal.render : Literal → String
  | .none => "None"
  | .bool true => "True"
  | .bool false => "False"
  | .int n => toString n
  | .float x => Decimal.positional x
  | .str s => Text.quoted s

namespace UnaryOp

/-- What stands in front of the operand. -/
def mark : UnaryOp → String
  | not => "not "
  | neg => "-"
  | pos => "+"
  | invert => "~"

end UnaryOp

namespace Expr

/-- A number needs parentheses in front of an attribute, where a point would continue it. -/
def isNumber : Expr → Bool
  | literal l => l.isNumber
  | _ => false

/-- The variadic parameters of an anonymous function. -/
def variadicTexts (rest named : Option String) : List String :=
  (rest.map ("*" ++ ·)).toList ++ (named.map ("**" ++ ·)).toList

mutual

/-- The canonical text of an expression. -/
def render : Expr → String
  | lambda params rest named body =>
    match renderParams params ++ variadicTexts rest named with
    | [] => "(lambda: " ++ render body ++ ")"
    | texts => "(lambda " ++ commaJoined texts ++ ": " ++ render body ++ ")"
  | literal l => l.render
  | name id => id
  | attr value label =>
    (if value.isNumber then "(" ++ render value ++ ")" else render value) ++ "." ++ label
  | binary left op right => "(" ++ render left ++ " " ++ op.symbol ++ " " ++ render right ++ ")"
  | unary op operand => "(" ++ op.mark ++ render operand ++ ")"
  | compare left ops operands => "(" ++ render left ++ renderLinks ops operands ++ ")"
  | boolean op operands =>
    "(" ++ (" " ++ op.keyword ++ " ").intercalate (renderAll operands) ++ ")"
  | conditional test body otherwise =>
    "(" ++ render body ++ " if " ++ render test ++ " else " ++ render otherwise ++ ")"
  | call callee args keywords =>
    render callee ++ "(" ++ commaJoined (renderAll args ++ renderKeywords keywords) ++ ")"
  | starred value => "*" ++ render value
  | subscript value (tuple (first :: others)) =>
    render value ++ "[" ++ commaJoined (render first :: renderAll others) ++
      (if others.isEmpty then "," else "") ++ "]"
  | subscript value index => render value ++ "[" ++ render index ++ "]"
  | slice lower upper step =>
    renderOption lower ++ ":" ++ renderOption upper ++
      (match step with
        | none => ""
        | some e => ":" ++ render e)
  | list items => "[" ++ commaJoined (renderAll items) ++ "]"
  | tuple [item] => "(" ++ render item ++ ",)"
  | tuple items => "(" ++ commaJoined (renderAll items) ++ ")"
  | listComp element clauses => "[" ++ render element ++ renderClauses clauses ++ "]"
  | generator element clauses => "(" ++ render element ++ renderClauses clauses ++ ")"
  | display kind => "<" ++ kind ++ ">"
termination_by structural e => e

def renderAll : List Expr → List String
  | [] => []
  | e :: es => render e :: renderAll es
termination_by structural es => es

/-- The text of an expression that may be missing. -/
def renderOption : Option Expr → String
  | none => ""
  | some e => render e
termination_by structural e => e

/-- The links of a comparison chain; an operator without an operand, or an operand without an
operator, is left out. -/
def renderLinks : List CmpOp → List Expr → String
  | op :: ops, e :: es => " " ++ op.symbol ++ " " ++ render e ++ renderLinks ops es
  | _, _ => ""
termination_by structural _ es => es

def renderParams : List (Param Expr) → List String
  | [] => []
  | ⟨id, default⟩ :: ps =>
    (match default with
      | none => id
      | some e => id ++ "=" ++ render e) :: renderParams ps
termination_by structural ps => ps

def renderKeywords : List (Keyword Expr) → List String
  | [] => []
  | ⟨label, value⟩ :: ks =>
    (match label with
      | none => "**" ++ render value
      | some l => l ++ "=" ++ render value) :: renderKeywords ks
termination_by structural ks => ks

/-- The clauses of a comprehension, each after a space. -/
def renderClauses : List (Clause Expr) → String
  | [] => ""
  | ⟨target, source, conditions⟩ :: cs =>
    " for " ++ target ++ " in " ++ render source ++ renderConditions conditions ++ renderClauses cs
termination_by structural cs => cs

/-- The conditions of a clause, each after a space. -/
def renderConditions : List Expr → String
  | [] => ""
  | e :: es => " if " ++ render e ++ renderConditions es
termination_by structural es => es

end

/-- The parameter list of an anonymous function. -/
def paramsText (params : List (Param Expr)) (rest named : Option String) : String :=
  commaJoined (renderParams params ++ variadicTexts rest named)

end Expr

end DocQuery
