/-! # Double-precision numbers as exact fractions

A double is read off its bits as a sign, a significand and a power of two, so that its decimal text
can be found in exact arithmetic; a decimal is turned into the nearest double the same way.

* `Binary64`: the cases of a double; `Binary64.ofFloat` decodes one.
* `nearest`: the double nearest to a fraction, ties to the even significand.
* `ofDecimal`: the double nearest to `digits * 10 ^ exponent`.
-/

set_option autoImplicit false

namespace DocQuery.Decimal

def pow2 (n : Nat) : Nat := Nat.pow 2 n

def pow10 (n : Nat) : Nat := Nat.pow 10 n

/-- A double: not a number, an infinity, or `± significand * 2 ^ exponent`. -/
inductive Binary64 where
  | notANumber
  | infinite (negative : Bool)
  | finite (negative : Bool) (significand : Nat) (exponent : Int)
deriving DecidableEq, Repr

/-- The exponent field of a bit pattern. -/
def exponentField (bits : Nat) : Nat := bits / pow2 52 % pow2 11

/-- The fraction field of a bit pattern. -/
def fractionField (bits : Nat) : Nat := bits % pow2 52

/-- The number that a bit pattern stands for. -/
def Binary64.ofBits (bits : Nat) : Binary64 :=
  let negative := bits / pow2 63 % 2 == 1
  let e := exponentField bits
  let f := fractionField bits
  if e = 2047 then if f = 0 then .infinite negative else .notANumber
  else if e = 0 then .finite negative f (-1074)
  else .finite negative (f + pow2 52) ((e : Int) - 1075)

/-- The number that a double stands for. -/
def Binary64.ofFloat (x : Float) : Binary64 := .ofBits x.toBits.toNat

/-- `num / den` rounded to a whole number, ties to the even one. -/
def roundHalfEven (num den : Nat) : Nat :=
  let q := num / den
  let r := num % den
  if 2 * r < den then q else if 2 * r > den then q + 1 else if q % 2 = 0 then q else q + 1

/-- The bits of the double nearest to `num / den`, for a positive `num`. -/
def nearestBits (num den : Nat) : Nat :=
  let scale : Int := max ((num.log2 : Int) - den.log2 - 53) (-1074)
  let significand (q : Int) : Nat :=
    if 0 ≤ q then roundHalfEven num (den * pow2 q.toNat)
    else roundHalfEven (num * pow2 (-q).toNat) den
  let fitted :=
    let m := significand scale
    if m < pow2 53 then (m, scale)
    else (significand (scale + 1), scale + 1)
  let (m, q) := if fitted.1 < pow2 53 then fitted else (fitted.1 / 2, fitted.2 + 1)
  if m < pow2 52 then m
  else if 971 < q then 2047 * pow2 52
  else (q + 1075).toNat * pow2 52 + (m - pow2 52)

/-- The double nearest to `num / den`, ties to the even significand. -/
def nearest (num den : Nat) : Float :=
  Float.ofBits (UInt64.ofNat (if num = 0 then 0 else nearestBits num den))

/-- The double nearest to `digits * 10 ^ exponent`. Far outside the range of doubles the answer is
known without computing the power. -/
def ofDecimal (digits : Nat) (exponent : Int) : Float :=
  let size : Int := (Nat.toDigits 10 digits).length + exponent
  if digits = 0 || size < -400 then nearest 0 1
  else if 400 < size then nearest (pow2 1100) 1
  else if 0 ≤ exponent then nearest (digits * pow10 exponent.toNat) 1
  else nearest digits (pow10 (-exponent).toNat)

end DocQuery.Decimal
