import DocQuery.Json.Basic
import DocQuery.Data.Dictionary
import DocQuery.Decimal.Binary64
import DocQuery.Text.Blank
import DocQuery.Text.Hex
import DocQuery.Data.Width

/-! # Reading JSON

A JSON text is read with a limit on nesting: a value may stand inside at most 127 arrays and
objects. A number with a point, an exponent or more digits than 64 bits hold becomes a double: the
leading digits that fit 64 bits are scaled by one power of ten.

* `Json.Fault`: what is wrong with a text and where; `Json.Fault.message` says it.
* `Json.parse`: reads a whole text.
-/

set_option autoImplicit false

namespace DocQuery.Json

/-- What may be wrong with a text. -/
inductive Cause where
  | endInList | endInObject | endInString | endInValue
  | expectedColon | expectedListEnd | expectedObjectEnd | expectedWord | expectedValue
  | invalidEscape | invalidNumber | outOfRange | controlCharacter | keyNotString
  | loneSurrogate | hexEscapeEnd | trailingComma | trailingCharacters | tooDeep
deriving DecidableEq, Repr

def Cause.text : Cause → String
  | endInList => "EOF while parsing a list"
  | endInObject => "EOF while parsing an object"
  | endInString => "EOF while parsing a string"
  | endInValue => "EOF while parsing a value"
  | expectedColon => "expected `:`"
  | expectedListEnd => "expected `,` or `]`"
  | expectedObjectEnd => "expected `,` or `\x7d`"
  | expectedWord => "expected ident"
  | expectedValue => "expected value"
  | invalidEscape => "invalid escape"
  | invalidNumber => "invalid number"
  | outOfRange => "number out of range"
  | controlCharacter => "control character (\\u0000-\\u001F) found while parsing a string"
  | keyNotString => "key must be a string"
  | loneSurrogate => "lone leading surrogate in hex escape"
  | hexEscapeEnd => "unexpected end of hex escape"
  | trailingComma => "trailing comma"
  | trailingCharacters => "trailing characters"
  | tooDeep => "recursion limit exceeded"

/-- A cause, the rest of the text where it was met, and how many bytes of that rest are to blame
as well. -/
structure Fault where
  cause : Cause
  rest : List Char
  ahead : Nat
deriving DecidableEq, Repr

/-- A fault at the characters taken so far. -/
def faultAt {α : Type} (cause : Cause) (rest : List Char) : Except Fault α :=
  .error ⟨cause, rest, 0⟩

/-- A fault at the next character, of which the first byte tells. -/
def faultAhead {α : Type} (cause : Cause) (rest : List Char) : Except Fault α :=
  .error ⟨cause, rest, 1⟩

/-- The number of bytes of some characters. -/
def byteLength (cs : List Char) : Nat := (String.ofList cs).utf8ByteSize

/-- The text without the blanks at its start. -/
def skip (s : List Char) : List Char := s.dropWhile Text.isGap

/-- The rest after the word `w`, whose first character has been taken. -/
def wordRest : List Char → List Char → Except Fault (List Char)
  | [], s => .ok s
  | _ :: _, [] => faultAt .endInValue []
  | c :: w, d :: s => if c = d then wordRest w s else faultAhead .expectedWord (d :: s)

/-! ## Numbers -/

/-- Takes up decimal digits as long as the value fits 64 bits. Answers with the value and the number
of digits left over. -/
def absorb (value : Nat) : List Char → Nat × Nat
  | [] => (value, 0)
  | c :: cs =>
    let value' := value * 10 + (c.toNat - '0'.toNat)
    if value' < Width.unsigned64 then absorb value' cs else (value, (c :: cs).length)

/-- The power `10 ^ n` as a double. -/
def powerOfTen (n : Nat) : Float := Decimal.ofDecimal 1 n

/-- The double `f * 10 ^ exponent`, or none if it is too large. Far below one, the power is applied
in steps. -/
def scaled : Nat → Float → Int → Option Float
  | 0, f, _ => some f
  | fuel + 1, f, exponent =>
    if exponent.natAbs ≤ 308 then
      if 0 ≤ exponent then
        let x := f * powerOfTen exponent.natAbs
        if x.isInf then none else some x
      else some (f / powerOfTen exponent.natAbs)
    else if f == 0 then some f
    else if 0 ≤ exponent then none
    else scaled fuel (f / powerOfTen 308) (exponent + 308)

/-- The double with a sign, the digits `significand` and a power of ten. -/
def scaledDouble? (negative : Bool) (significand : Nat) (exponent : Int) : Option Json :=
  (scaled 20 (UInt64.ofNat significand).toFloat exponent).map fun x =>
    float (if negative then -x else x)

/-- The number with the given digits before the point. A negative zero is a double. -/
def integer (negative : Bool) (value : Nat) : Json :=
  if !negative then int value
  else if value = 0 || Width.signed64 < value then float (-(UInt64.ofNat value).toFloat)
  else int (-value)

/-- The digits of the exponent of a number, after its letter, and whether its sign is a minus. -/
def exponentPart (s : List Char) : Except Fault ((Bool × List Char) × List Char) :=
  let (negative, s) := match s with
    | '+' :: r => (false, r)
    | '-' :: r => (true, r)
    | s => (false, s)
  match s with
  | [] => faultAt .endInValue []
  | c :: r =>
    if !c.isDigit then faultAhead .invalidNumber (c :: r)
    else .ok ((negative, s.takeWhile Char.isDigit), s.dropWhile Char.isDigit)

/-- The digits that are left when the number of those taken first no longer fits 32 bits with a
sign. -/
def leftOver? (value : Nat) : List Char → Option (List Char)
  | [] => none
  | c :: cs =>
    let value' := value * 10 + (c.toNat - '0'.toNat)
    if value' < Width.signed32 then leftOver? value' cs else some cs

/-- The end of a number with a point or an exponent. An exponent that does not fit 32 bits with a
sign makes a number too large as soon as it does not fit, or makes it zero. -/
def finish (negative : Bool) (significand : Nat) (exponent : Int) (s : List Char) :
    Except Fault (Json × List Char) :=
  let answer (e : Int) (rest : List Char) : Except Fault (Json × List Char) :=
    match scaledDouble? negative significand e with
    | some x => .ok (x, rest)
    | none => faultAt .outOfRange rest
  match s with
  | c :: r =>
    if c == 'e' || c == 'E' then do
      let ((down, digits), rest) ← exponentPart r
      match leftOver? 0 digits with
      | none =>
        let p := Nat.ofDigitChars 10 digits 0
        answer (if down then exponent - p else exponent + p) rest
      | some left =>
        if significand ≠ 0 && !down then faultAt .outOfRange (left ++ rest)
        else .ok (float (if negative then -0.0 else 0.0), rest)
    else answer exponent s
  | [] => answer exponent s

/-- A number, after its sign. -/
def number (negative : Bool) (s : List Char) : Except Fault (Json × List Char) :=
  match s with
  | [] => faultAt .endInValue []
  | c :: r =>
    if !c.isDigit then faultAhead .invalidNumber (c :: r)
    else
      let whole := if c = '0' then ['0'] else s.takeWhile Char.isDigit
      let s := s.drop whole.length
      if c = '0' && (s.head?.any Char.isDigit) then faultAhead .invalidNumber s
      else
        let (significand, left) := absorb 0 whole
        match s with
        | '.' :: r =>
          let places := r.takeWhile Char.isDigit
          let rest := r.dropWhile Char.isDigit
          if places.isEmpty then
            faultAhead (if rest.isEmpty then .endInValue else .invalidNumber) rest
          else
            let (significand', dropped) := absorb significand places
            finish negative significand' ((left : Int) - (places.length - dropped)) rest
        | s =>
          if left = 0 && !(s.head?.any fun d => d == 'e' || d == 'E') then
            .ok (integer negative significand, s)
          else finish negative significand left s

/-! ## Strings -/

/-- Four hexadecimal digits. Any other four bytes are to blame together. -/
def hexFour (s : List Char) : Except Fault (Nat × List Char) :=
  if byteLength s < 4 then faultAt .endInString []
  else match s with
    | a :: b :: c :: d :: rest =>
      match Text.hexNumber? [a, b, c, d] with
      | some n => .ok (n, rest)
      | none => .error ⟨.invalidEscape, s, 4⟩
    | _ => .error ⟨.invalidEscape, s, 4⟩

/-- The character of an escape by number, which takes two numbers beyond the first 65536. -/
def unicodeEscape (s : List Char) : Except Fault (Char × List Char) := do
  let (high, rest) ← hexFour s
  if 0xdc00 ≤ high && high ≤ 0xdfff then faultAt .loneSurrogate rest
  else if high < 0xd800 || 0xdfff < high then .ok (Char.ofNat high, rest)
  else match rest with
    | '\\' :: 'u' :: rest' => do
      let (low, rest'') ← hexFour rest'
      if 0xdc00 ≤ low && low ≤ 0xdfff then
        .ok (Char.ofNat (0x10000 + (high - 0xd800) * 0x400 + (low - 0xdc00)), rest'')
      else faultAt .loneSurrogate rest''
    | [] => faultAt .endInString []
    | ['\\'] => faultAt .endInString []
    | '\\' :: rest' => faultAhead .hexEscapeEnd rest'
    | rest' => faultAhead .hexEscapeEnd rest'

/-- The character of an escape, after the backslash. -/
def escapeSequence (s : List Char) : Except Fault (Char × List Char) :=
  match s with
  | [] => faultAt .endInString []
  | c :: rest =>
    if c = '"' || c = '\\' || c = '/' then .ok (c, rest)
    else if c = 'b' then .ok (Char.ofNat 8, rest)
    else if c = 'f' then .ok (Char.ofNat 12, rest)
    else if c = 'n' then .ok ('\n', rest)
    else if c = 'r' then .ok ('\r', rest)
    else if c = 't' then .ok ('\t', rest)
    else if c = 'u' then unicodeEscape rest
    else faultAhead .invalidEscape s

/-- The characters of a string up to its closing quote, at most `fuel` of them. -/
def stringChars : Nat → List Char → Except Fault (List Char × List Char)
  | 0, s => faultAt .endInString s
  | _ + 1, [] => faultAt .endInString []
  | fuel + 1, c :: rest =>
    if c = '"' then .ok ([], rest)
    else if c = '\\' then do
      let (d, rest') ← escapeSequence rest
      let (ds, rest'') ← stringChars fuel rest'
      .ok (d :: ds, rest'')
    else if c.toNat < 32 then faultAt .controlCharacter rest
    else do
      let (cs, rest') ← stringChars fuel rest
      .ok (c :: cs, rest')

/-- A string, after its opening quote. -/
def string (s : List Char) : Except Fault (String × List Char) := do
  let (cs, rest) ← stringChars (s.length + 1) s
  .ok (String.ofList cs, rest)

/-! ## Values -/

/-- The items of an array up to its closing bracket; each item is read by `item`. -/
def items (item : List Char → Except Fault (Json × List Char)) :
    Nat → Bool → List Char → Except Fault (List Json × List Char)
  | 0, _, s => faultAt .endInList s
  | fuel + 1, first, s =>
    let more (s : List Char) : Except Fault (List Json × List Char) := do
      let (j, rest) ← item s
      let (js, rest') ← items item fuel false rest
      .ok (j :: js, rest')
    match skip s with
    | [] => faultAhead .endInList []
    | ']' :: rest => .ok ([], rest)
    | c :: rest =>
      if first then more (c :: rest)
      else if c = ',' then
        match skip rest with
        | [] => faultAhead .endInValue []
        | ']' :: rest' => faultAhead .trailingComma (']' :: rest')
        | rest' => more rest'
      else faultAhead .expectedListEnd (c :: rest)

/-- A member of an object, after the opening quote of its key. -/
def member (item : List Char → Except Fault (Json × List Char)) (s : List Char) :
    Except Fault ((String × Json) × List Char) := do
  let (key, rest) ← string s
  match skip rest with
  | [] => faultAhead .endInObject []
  | ':' :: rest' => do
    let (j, rest'') ← item rest'
    .ok ((key, j), rest'')
  | rest' => faultAhead .expectedColon rest'

/-- The members of an object up to its closing brace. -/
def members (item : List Char → Except Fault (Json × List Char)) :
    Nat → Bool → List Char → Except Fault (List (String × Json) × List Char)
  | 0, _, s => faultAt .endInObject s
  | fuel + 1, first, s =>
    let more (s : List Char) : Except Fault (List (String × Json) × List Char) := do
      let (m, rest) ← member item s
      let (ms, rest') ← members item fuel false rest
      .ok (m :: ms, rest')
    match skip s with
    | [] => faultAhead .endInObject []
    | '\x7d' :: rest => .ok ([], rest)
    | c :: rest =>
      if first then
        if c = '"' then more rest else faultAhead .keyNotString (c :: rest)
      else if c = ',' then
        match skip rest with
        | [] => faultAhead .endInValue []
        | '"' :: rest' => more rest'
        | '\x7d' :: rest' => faultAhead .trailingComma ('\x7d' :: rest')
        | rest' => faultAhead .keyNotString rest'
      else faultAhead .expectedObjectEnd (c :: rest)

/-- A value that may stand inside `depth` more arrays and objects. -/
def value : Nat → List Char → Except Fault (Json × List Char)
  | 0, s => faultAt .tooDeep s
  | depth + 1, s =>
    match skip s with
    | [] => faultAhead .endInValue []
    | c :: rest =>
      if c = 'n' then do return (null, ← wordRest "ull".toList rest)
      else if c = 't' then do return (bool true, ← wordRest "rue".toList rest)
      else if c = 'f' then do return (bool false, ← wordRest "alse".toList rest)
      else if c = '-' then number true rest
      else if c.isDigit then number false (c :: rest)
      else if c = '"' then do
        let (t, rest') ← string rest
        .ok (str t, rest')
      else if c = '[' then
        if depth = 0 then faultAhead .tooDeep (c :: rest)
        else do
          let (js, rest') ← items (value depth) rest.length true rest
          .ok (arr js, rest')
      else if c = '\x7b' then
        if depth = 0 then faultAhead .tooDeep (c :: rest)
        else do
          let (ms, rest') ← members (value depth) rest.length true rest
          .ok (obj (OrderedMap.ofList ms).entries, rest')
      else faultAhead .expectedValue (c :: rest)

/-- Reads a JSON text as a whole. -/
def parse (text : String) : Except Fault Json := do
  let (j, rest) ← value 128 text.toList
  match skip rest with
  | [] => .ok j
  | rest' => faultAhead .trailingCharacters rest'

/-! ## Messages -/

/-- What is wrong with `text`, and at which line and column. Columns count bytes. -/
def Fault.message (f : Fault) (text : String) : String :=
  let bytes := text.toUTF8.toList
  let taken := bytes.take (bytes.length - byteLength f.rest + f.ahead)
  let line := taken.count 10 + 1
  let column := (taken.reverse.takeWhile (· != 10)).length
  f.cause.text ++ " at line " ++ toString line ++ " column " ++ toString column

end DocQuery.Json
