import DocQuery.Error
import DocQuery.Expr.Nodes
import DocQuery.Expr.Render

/-! # Comprehensions

* `ArrayComprehension`: one value for each element of an array, as a list comprehension or a
  generator describes it; `Expr.comprehension?` recognizes it.
* `Quantifier`: the question whether some element of an array meets a condition, asked by
  `any(… for v in array if …)`; `Expr.quantifier?` recognizes it.
-/

set_option autoImplicit false

namespace DocQuery

/-- The values `element` for each `target` in `array` that meets the condition. -/
structure ArrayComprehension where
  target : String
  array : Expr
  element : Expr
  condition : Option Expr
deriving Repr

/-- The question whether some `target` in `array` meets the conditions, or whether none does. -/
structure Quantifier where
  target : String
  array : Expr
  conditions : List Expr
  negated : Bool
deriving Repr

namespace Expr

/-- The element and the clauses of a comprehension. -/
def comprehensionParts? : Expr → Option (Expr × List (Clause Expr))
  | listComp element clauses => some (element, clauses)
  | generator element clauses => some (element, clauses)
  | _ => none

theorem comprehensionParts_cases {e element : Expr} {clauses : List (Clause Expr)}
    (h : e.comprehensionParts? = some (element, clauses)) :
    e = listComp element clauses ∨ e = generator element clauses := by
  cases e with
  | listComp =>
    cases h
    exact .inl rfl
  | generator =>
    cases h
    exact .inr rfl
  | _ => cases h

/-- The comprehension that an expression is. It must have one clause, over an array that is the part
of a document. -/
def comprehension? (e : Expr) : Except Error (Option ArrayComprehension) :=
  match e.comprehensionParts? with
  | none => .ok none
  | some (element, [⟨target, array, conditions⟩]) =>
    if array.chain?.isSome then
      .ok (some ⟨target, array, element, ofOperands? .and conditions⟩)
    else .error (.mismatch array.render .notPathSource)
  | some _ => .error (.unsupported e.render .severalClauses)

/-- The variable of the first clause of a comprehension. -/
def iterationTarget? (e : Expr) : Option String :=
  (e.comprehensionParts?.bind (·.2.head?)).map (·.target)

/-- The name of the function that asks whether some element meets a condition. -/
def quantifierName : String := "any"

/-- The conditions on an element: its own value, unless that is the element itself, and those of the
clause. -/
def elementConditions (target : String) (element : Expr) (conditions : List Expr) : List Expr :=
  if element.asName? = some target then conditions else element :: conditions

/-- The quantifier whose call an expression is. -/
def quantifierCall? : Expr → Option Quantifier
  | call (name id) [argument] [] =>
    match argument.comprehensionParts? with
    | some (element, [⟨target, array, conditions⟩]) =>
      if id = quantifierName ∧ array.chain?.isSome then
        some ⟨target, array, elementConditions target element conditions, false⟩
      else none
    | _ => none
  | _ => none

/-- The quantifier that an expression is: a call, or the negation of one. -/
def quantifier? : Expr → Option Quantifier
  | unary .not operand => (quantifierCall? operand).map fun q => { q with negated := true }
  | e => quantifierCall? e

end Expr

end DocQuery
