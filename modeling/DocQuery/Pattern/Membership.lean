import DocQuery.Expr.Nodes
import DocQuery.Scope.Basic

/-! # Membership tests

The condition `v in base.array`, for a name `v` that stands for nothing else, holds for the elements
of an array that is expanded beside the base table.

* `Membership`: such a condition; `Membership.isTest` recognizes it in an expression.
* `Expr.membership?`: the first one at the top of an expression or among the operands of
  connectives.
* `Membership.split?`: the disjuncts without and with the condition.
-/

set_option autoImplicit false

namespace DocQuery

/-- The condition that `target` is an element of `array`. -/
structure Membership where
  target : String
  array : Expr
deriving Repr

namespace Expr

/-- The name and the array of a test `name in root.a.b`. -/
def membershipParts? : Expr → Option (String × Expr)
  | compare (name id) [.elemOf] (array :: _) =>
    if array.chain?.isSome then some (id, array) else none
  | _ => none

/-- The membership test that an expression is: its array belongs to the base table and its name
stands for nothing. -/
def asMembership? (base : String) (scope : Scope) (e : Expr) : Option Membership :=
  match e.membershipParts? with
  | some (id, array) =>
    if array.chain?.any (·.1 == base) && (scope.resolve id).isUnbound then some ⟨id, array⟩
    else none
  | none => none

mutual

/-- The first membership test at the top of an expression or among the operands of connectives. -/
def membership? (base : String) (scope : Scope) : Expr → Option Membership
  | boolean _ operands => membershipAmong? base scope operands
  | e => asMembership? base scope e
termination_by structural e => e

/-- The first membership test in a list of operands. -/
def membershipAmong? (base : String) (scope : Scope) : List Expr → Option Membership
  | [] => none
  | e :: es => membership? base scope e <|> membershipAmong? base scope es
termination_by structural es => es

end

end Expr

namespace Membership

/-- Whether an expression is this membership test. -/
def isTest (m : Membership) (e : Expr) : Bool :=
  match e.membershipParts? with
  | some (id, array) => id == m.target && array == m.array
  | none => false

/-- Whether this membership test occurs in an expression. -/
def occursIn (m : Membership) (e : Expr) : Bool := e.nodes.any m.isTest

/-- The disjuncts of an expression without and with this membership test, if there are some of
both. -/
def split? (m : Membership) : Expr → Option (Expr × Expr)
  | .boolean .or operands => do
    let without ← Expr.ofOperands? .or (operands.filter (!m.occursIn ·))
    let within ← Expr.ofOperands? .or (operands.filter m.occursIn)
    return (without, within)
  | _ => none

end Membership

end DocQuery
