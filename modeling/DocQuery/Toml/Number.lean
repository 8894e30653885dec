import DocQuery.Toml.Parser
import DocQuery.Decimal.Binary64
import DocQuery.Text.Hex
import DocQuery.Data.Width

/-! # Numbers of TOML

* `integer`: integers of 64 bits in four bases.
* `float`: floating-point numbers, infinities and what is no number.
-/

set_option autoImplicit false

namespace DocQuery.Toml

open DocQuery.Toml.Parser

/-! ## Digits -/

/-- Further digits of a number, where an underscore may stand between two digits. -/
def moreDigits (isDigit : Char → Bool) : Parser (List Char) :=
  many (satisfy isDigit <|> (do char '_'; expecting "digit" (commit (satisfy isDigit))))

/-- One or more digits of a number. -/
def digits (isDigit : Char → Bool) : Parser (List Char) := do
  let d ← satisfy isDigit
  return d :: (← moreDigits isDigit)

/-- The sign of a number: whether it is a minus. -/
def sign : Parser Bool := do
  return (← opt (satisfy fun c => c == '+' || c == '-')) == some '-'

/-- The digits of a decimal number with its sign. They start with a zero only if that is all. -/
def decimalDigits : Parser (Bool × List Char) :=
  within "integer" do
    let negative ← sign
    let d ← satisfy Char.isDigit
    if d = '0' then return (negative, [d])
    else return (negative, d :: (← moreDigits Char.isDigit))

/-! ## Integers -/

/-- An integer of 64 bits with a sign. -/
def toSigned64 (n : Int) : Except Blame Int :=
  if n < -Width.signed64 then .error (.because .tooSmall)
  else if n < Width.signed64 then .ok n
  else .error (.because .tooLarge)

/-- The value of digits below a base. -/
def baseValue (base : Nat) (ds : List Char) : Nat :=
  ds.foldl (fun n c => n * base + (Text.hexValue? c).getD 0) 0

/-- An integer in a base, with its mark. -/
def baseInteger (base : Nat) (mark subject : String) : Parser Int :=
  let numeral : Parser (List Char) := within subject do
    word mark
    commit (digits fun c => (Text.hexValue? c).any (· < base))
  enforced numeral fun ds => toSigned64 (baseValue base ds)

/-- An integer in base ten. -/
def decimalInteger : Parser Int :=
  enforced decimalDigits fun (negative, ds) =>
    let n : Int := Nat.ofDigitChars 10 ds 0
    toSigned64 (if negative then -n else n)

/-- An integer of 64 bits with a sign. -/
def integer : Parser Int :=
  baseInteger 16 "0x" "hexadecimal integer" <|> baseInteger 8 "0o" "octal integer" <|>
    baseInteger 2 "0b" "binary integer" <|> decimalInteger

/-! ## Floating-point numbers -/

def exponent : Parser Int := do
  let _ ← satisfy fun c => c == 'e' || c == 'E'
  let negative ← sign
  let n : Int := Nat.ofDigitChars 10 (← commit (digits Char.isDigit)) 0
  return if negative then -n else n

/-- The places of a number after its point. -/
def places : Parser (List Char) := do
  char '.'
  expecting "digit" (commit (digits Char.isDigit))

/-- A number with a sign. -/
def withSign (negative : Bool) (x : Float) : Float := if negative then -x else x

/-- A number with a point, an exponent or both. -/
def decimalFloat : Parser Float := do
  let (negative, whole) ← decimalDigits
  let (fraction, power) ←
    (do return ([], ← exponent)) <|> (do return (← places, (← opt exponent).getD 0))
  return withSign negative
    (Decimal.ofDecimal (Nat.ofDigitChars 10 (whole ++ fraction) 0) (power - fraction.length))

/-- An infinity or what is no number, by its name. -/
def namedFloat : Parser Float := do
  let negative ← sign
  (do word "inf"; return withSign negative (1.0 / 0.0)) <|>
    (do word "nan"; return withSign negative (0.0 / 0.0))

/-- A floating-point number. A positive number that is too large for a double is refused. -/
def float : Parser Float :=
  within "floating-point number"
    (enforced decimalFloat (fun x => if x == 1.0 / 0.0 then .error .silent else .ok x) <|>
      namedFloat)

end DocQuery.Toml
