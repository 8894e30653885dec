import DocQuery.Decimal.Shortest

/-! # Decimal texts of a double

* `positional`: all digits written out, with at least one place after the point and never an
  exponent. This is the text of a number in expressions and in SQL. Of two equally near decimals
  it is the larger.
* `scientific`: the text of a number in a data document, where numbers from `10 ^ 16` on and below
  `10 ^ -5` carry an exponent. Of two equally near decimals it is the one that ends in an even
  digit.
-/

set_option autoImplicit false

namespace DocQuery.Decimal

def zeros (n : Nat) : String := String.ofList (List.replicate n '0')

/-- A decimal written out with a point and at least one place after it. -/
def Digits.positional (d : Digits) : String :=
  let ds := Nat.toDigits 10 d.digits
  if 0 ≤ d.exponent then String.ofList ds ++ zeros d.exponent.toNat ++ ".0"
  else
    let places := (-d.exponent).toNat
    if places < ds.length then
      String.ofList (ds.take (ds.length - places)) ++ "." ++
        String.ofList (ds.drop (ds.length - places))
    else "0." ++ zeros (places - ds.length) ++ String.ofList ds

/-- The positional text of a double: the shortest decimal that reads back. -/
def positional (x : Float) : String :=
  match Binary64.ofFloat x with
  | .notANumber => "NaN"
  | .infinite negative => if negative then "-inf" else "inf"
  | .finite negative m e =>
    (if negative then "-" else "") ++ (if m = 0 then "0.0" else (shortest .up m e).positional)

/-- A decimal as one digit, the other digits after a point, and an exponent with its sign. -/
def Digits.scientific (d : Digits) : String :=
  let ds := Nat.toDigits 10 d.digits
  let top : Int := d.exponent + ds.length - 1
  let lead := String.ofList (ds.take 1)
  let tail := if ds.length = 1 then "" else "." ++ String.ofList (ds.drop 1)
  lead ++ tail ++ "e" ++ (if top < 0 then "-" else "+") ++ toString top.natAbs

/-- The text of a double in a data document; there is none for an infinity. -/
def scientific (x : Float) : Option String :=
  match Binary64.ofFloat x with
  | .finite negative m e =>
    let sign := if negative then "-" else ""
    if m = 0 then some (sign ++ "0.0")
    else
      let d := shortest .toEven m e
      let top : Int := d.exponent + (Nat.toDigits 10 d.digits).length
      some (sign ++ if -5 < top && top ≤ 16 then d.positional else d.scientific)
  | _ => none

end DocQuery.Decimal
