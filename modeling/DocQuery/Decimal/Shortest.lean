import DocQuery.Decimal.Binary64

/-! # The shortest decimal that reads back

Among the decimals that a reader would round to a given double, the ones with the fewest digits are
wanted, and of those the one nearest to the double. Which of two equally near ones is taken is a
choice of the format. The search tries one digit, then two, and so on up to seventeen: on each grid
only the two neighbours of the double can be nearest.

* `Digits`: a decimal `digits * 10 ^ exponent`.
* `Tie`: which of two equally near decimals is taken.
* `shortest`: the decimal chosen for a positive double.
-/

set_option autoImplicit false

namespace DocQuery.Decimal

/-- The decimal `digits * 10 ^ exponent`. -/
structure Digits where
  digits : Nat
  exponent : Int
deriving DecidableEq, Repr

/-- Which of two equally near neighbours on a grid is taken: the larger one, or the one whose last
digit is even. -/
inductive Tie where
  | up
  | toEven
deriving DecidableEq, Repr

/-- The choice between `floor` and the next number, which are equally near. -/
def Tie.choose (tie : Tie) (floor : Nat) : Nat :=
  match tie with
  | up => floor + 1
  | toEven => if floor % 2 = 0 then floor else floor + 1

/-- A positive double with the interval that is rounded to it, over one denominator. -/
structure Interval where
  low : Nat
  value : Nat
  high : Nat
  den : Nat
  /-- Whether the two ends are rounded to the double as well. -/
  closed : Bool

/-- The interval of `significand * 2 ^ exponent`. Below a power of two the neighbours are twice as
dense. -/
def Interval.of (significand : Nat) (exponent : Int) : Interval :=
  let below := if significand = pow2 52 && -1074 < exponent then 1 else 2
  let e := exponent - 2
  let up := pow2 e.toNat
  { low := (4 * significand - below) * up
    value := 4 * significand * up
    high := (4 * significand + 2) * up
    den := pow2 (-e).toNat
    closed := significand % 2 == 0 }

/-- Whether `n * 10 ^ exponent` is rounded to the double of the interval. -/
def Interval.holds (i : Interval) (n : Nat) (exponent : Int) : Bool :=
  let x := n * pow10 exponent.toNat * i.den
  let s := pow10 (-exponent).toNat
  if i.closed then i.low * s ≤ x && x ≤ i.high * s else i.low * s < x && x < i.high * s

/-- How many places `num / den` has to move to the left to reach one, at most `fuel`. -/
def placesBelowOne : Nat → Nat → Nat → Nat
  | 0, _, _ => 0
  | fuel + 1, num, den => if den ≤ num then 0 else placesBelowOne fuel (10 * num) den + 1

/-- The power of ten of the first digit of `num / den`, plus one. -/
def magnitude (num den : Nat) : Int :=
  if den ≤ num then (Nat.toDigits 10 (num / den)).length
  else 1 - placesBelowOne 400 num den

/-- The neighbour of the double on the grid `10 ^ exponent`, if it is rounded to the double: of the
two candidates that are, the nearer one, and as `tie` says if they are equally near. -/
def Interval.onGrid (i : Interval) (tie : Tie) (exponent : Int) : Option Digits :=
  let num := i.value * pow10 (-exponent).toNat
  let den := i.den * pow10 exponent.toNat
  let floor := num / den
  match i.holds floor exponent, i.holds (floor + 1) exponent with
  | true, true =>
    let twice := 2 * (num % den)
    some ⟨if twice < den then floor else if twice = den then tie.choose floor else floor + 1,
      exponent⟩
  | true, false => some ⟨floor, exponent⟩
  | false, true => some ⟨floor + 1, exponent⟩
  | false, false => none

/-- The first grid, from `places` digits on, that has a decimal for the double. -/
def Interval.search (i : Interval) (tie : Tie) (top : Int) : Nat → Nat → Digits
  | 0, places =>
    ⟨i.value * pow10 (places - top).toNat / (i.den * pow10 (top - places).toNat), top - places⟩
  | fuel + 1, places => (i.onGrid tie (top - places)).getD (i.search tie top fuel (places + 1))

/-- A decimal without trailing zeros in its digits. -/
def Digits.stripped : Nat → Digits → Digits
  | 0, d => d
  | fuel + 1, d =>
    if d.digits % 10 = 0 && d.digits ≠ 0 then Digits.stripped fuel ⟨d.digits / 10, d.exponent + 1⟩
    else d

/-- The shortest decimal of the double `significand * 2 ^ exponent`. -/
def shortest (tie : Tie) (significand : Nat) (exponent : Int) : Digits :=
  let i := Interval.of significand exponent
  (i.search tie (magnitude i.value i.den) 17 1).stripped 20

end DocQuery.Decimal
