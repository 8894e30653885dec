/-! # JSON values

* `Json`: the values. An integer stands for itself if it fits 64 bits, with or without a sign;
  every other number is a double. The members of an object are listed in increasing order of the
  keys when it was read from a text.
* `Json.natural?`: the value as an unsigned integer.
-/

set_option autoImplicit false

namespace DocQuery

/-- A JSON value. -/
inductive Json where
  | null
  | bool (value : Bool)
  | int (value : Int)
  | float (value : Float)
  | str (value : String)
  | arr (items : List Json)
  | obj (members : List (String × Json))
deriving Repr, Inhabited

namespace Json

def natural? : Json → Option Nat
  | int n => if 0 ≤ n then some n.toNat else none
  | _ => none

/-- A double as a number, and `null` for an infinity or a NaN, which no number stands for. -/
def ofFloat (x : Float) : Json :=
  if x.isFinite then float x else null

/-- An optional text, where nothing is `null`. -/
def ofText? : Option String → Json
  | some s => str s
  | none => null

end Json

end DocQuery
