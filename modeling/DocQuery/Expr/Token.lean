import DocQuery.Parsing.Parser
import DocQuery.Text.Blank
import DocQuery.Text.Letter
import DocQuery.Text.Quoted
import DocQuery.Decimal.Binary64
import DocQuery.Expr.Basic
import DocQuery.Data.Width

/-! # Tokens of the expression language

Every token may be preceded by a gap. A symbol can be told apart from a longer one by the characters
that must not follow it; a reserved word ends where no identifier character follows.

* `Token.symbol`, `Token.operator`, `Token.keyword`: fixed tokens.
* `Token.identifier`, `Token.name`: identifiers, and those that are not reserved.
* `Token.number`: integers up to `2 ^ 63 - 1` and floating-point numbers.
* `Token.stringPiece`, `Token.stringLiteral`: string literals; adjacent pieces are one string.
-/

set_option autoImplicit false

namespace DocQuery.Token

open DocQuery.Parser

/-- The characters that an identifier may start with. -/
def isIdentStart (c : Char) : Bool := Text.isLetter c || c == '_'

/-- The characters that an identifier may go on with. -/
def isIdentChar (c : Char) : Bool := Text.isLetter c || Text.isNumeral c || c == '_'

/-- The words that are no names. -/
def reserved : List String :=
  ["and", "or", "not", "in", "is", "if", "else", "for", "lambda", "None", "True", "False"]

/-- The gap in front of a token. -/
def gap : Parser Unit := fun s => .ok () (Text.skipGap s)

/-! ## Fixed tokens -/

/-- Whether a text starts with one of the characters `cs`. -/
def startsWithAny (cs : List Char) : List Char → Bool
  | c :: _ => cs.contains c
  | [] => false

/-- A symbol that none of the characters `others` follows. -/
def operator (w : String) (others : List Char) : Parser Unit :=
  refine (do gap; word w) fun _ rest => if startsWithAny others rest then none else some ()

/-- A symbol, whatever follows it. -/
def symbol (w : String) : Parser Unit := operator w []

def keyword (w : String) : Parser Unit := do
  gap
  word w
  notNext isIdentChar

/-! ## Names -/

/-- An identifier, reserved or not. -/
def identifier : Parser String := do
  gap
  let first ← satisfy isIdentStart
  let others ← takeWhile isIdentChar
  return String.ofList (first :: others)

/-- An identifier that is not reserved. -/
def name : Parser String :=
  refine identifier fun id _ => if reserved.contains id then none else some id

/-! ## Numbers -/

/-- The parts of a number as it is written. -/
structure Numeral where
  whole : List Char
  fraction : Option (List Char)
  exponent : Option Int

def digitsValue (ds : List Char) : Nat := Nat.ofDigitChars 10 ds 0

/-- The digits of a number, with or without a point. -/
def mantissa : Parser (List Char × Option (List Char)) :=
  (do
    let whole ← takeWhile1 Char.isDigit
    let fraction ← opt (do
      let _ ← satisfy (· == '.')
      takeWhile Char.isDigit)
    return (whole, fraction)) <|>
  (do
    let _ ← satisfy (· == '.')
    let fraction ← takeWhile1 Char.isDigit
    return ([], some fraction))

def exponent : Parser Int := do
  let _ ← satisfy fun c => c == 'e' || c == 'E'
  let sign ← opt (satisfy fun c => c == '+' || c == '-')
  let digits ← takeWhile1 Char.isDigit
  return if sign = some '-' then -(digitsValue digits : Int) else digitsValue digits

/-- A number as it is written. -/
def numeral : Parser Numeral := do
  gap
  let (whole, fraction) ← mantissa
  let power ← opt exponent
  return ⟨whole, fraction, power⟩

/-- The literal of a number. Without point and exponent it is an integer, which has to be less than
`2 ^ 63`. -/
def Numeral.literal? (n : Numeral) : Option Literal :=
  match n.fraction, n.exponent with
  | none, none =>
    let value := digitsValue n.whole
    if value < Width.signed64 then some (.int value) else none
  | fraction, power =>
    -- All digits are read as one integer, and the exponent moves the point back.
    let places := fraction.getD []
    some (.float (Decimal.ofDecimal (digitsValue (n.whole ++ places))
      (power.getD 0 - places.length)))

/-- A number that no identifier follows. -/
def number : Parser Literal :=
  refine numeral fun n rest =>
    match rest with
    | c :: _ => if isIdentStart c then none else n.literal?
    | [] => n.literal?

/-! ## Strings -/

/-- What stands between the quotes, and the rest after the closing one. A string ends on its line.
In a raw string a backslash and the character after it both stand for themselves. -/
def stringBody (quote : Char) (raw : Bool) : List Char → Option (List Char × List Char)
  | [] => none
  | c :: rest =>
    if c = quote then some ([], rest)
    else if c = '\n' then none
    else if c = '\\' then
      match rest with
      | [] => none
      | d :: rest' =>
        let here := if raw then ['\\', d] else
          match Text.unescape? d with
          | some e => [e]
          -- An escape that is not known stands for itself.
          | none => ['\\', d]
        (stringBody quote raw rest').map fun (cs, r) => (here ++ cs, r)
    else (stringBody quote raw rest).map fun (cs, r) => (c :: cs, r)

/-- One piece of a string literal. -/
def stringPiece : Parser String := do
  gap
  let mark ← opt (satisfy fun c => c == 'r' || c == 'R' || c == 'u' || c == 'U')
  let raw := mark = some 'r' || mark = some 'R'
  fun s => match s with
    | quote :: body =>
      if quote == '\'' || quote == '"' then
        match stringBody quote raw body with
        | some (cs, rest) => .ok (String.ofList cs) rest
        | none => .error s
      else .error s
    | [] => .error s

/-- A string literal: one or more pieces. -/
def stringLiteral : Parser String := do
  let pieces ← many1 stringPiece
  return String.join pieces

end DocQuery.Token
