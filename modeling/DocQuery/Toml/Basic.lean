import DocQuery.Toml.Datetime

/-! # TOML values

* `Toml.Value`: the values of a TOML document.
* `Toml.Span`: the place of a value in the text.
* `Toml.Blame`: what there is to say about a text that cannot be read.
* `Toml.Fault`: what is wrong at a place; `Toml.Fault.report` shows it with the line of the text.
-/

set_option autoImplicit false

namespace DocQuery.Toml

/-- A stretch of a text, by the numbers of characters that remain at its two ends. -/
structure Span where
  start : Nat
  stop : Nat
deriving DecidableEq, Repr

/-- A value with the places of the values inside it. An entry of a table without a place of its own
has the place of its key. -/
inductive Value where
  | string (s : String)
  | integer (n : Int)
  | float (x : Float)
  | boolean (b : Bool)
  | datetime (d : Datetime)
  | array (items : List (Span × Value))
  | table (entries : List (String × Span × Value))
deriving Repr, Inhabited

/-- The name of the type of a value. -/
def Value.typeName : Value → String
  | string _ => "string"
  | integer _ => "integer"
  | float _ => "float"
  | boolean _ => "boolean"
  | datetime _ => "datetime"
  | array _ => "array"
  | table _ => "inline table"

/-! ## What can be wrong -/

/-- Why something that can be read is refused. -/
inductive Cause where
  | tooDeep
  | tooLarge
  | tooSmall
  | outOfRange
  /-- A key that is there already. -/
  | duplicate (key : String)
  /-- A key that is there already in the table at `path`. -/
  | duplicateIn (path : List String) (key : String)
  /-- The value at `path` is no table and cannot be extended. -/
  | notTable (path : List String) (typeName : String)
deriving DecidableEq, Repr

def Cause.message : Cause → String
  | tooDeep => "recursion limit exceeded"
  | tooLarge => "number too large to fit in target type"
  | tooSmall => "number too small to fit in target type"
  | outOfRange => "value is out of range"
  | duplicate key => "duplicate key `" ++ key ++ "`"
  | duplicateIn path key =>
    "duplicate key `" ++ key ++ "` in " ++
      if path.isEmpty then "document root" else "table `" ++ ".".intercalate path ++ "`"
  | notTable path typeName =>
    "dotted key `" ++ ".".intercalate path ++ "` attempted to extend non-table type (" ++
      typeName ++ ")"

/-- What a failed attempt says: what was being read, what would have been accepted, and why
something is refused. Any of these may be left open. -/
structure Blame where
  subject : Option String
  expected : List String
  cause : Option Cause
deriving DecidableEq, Repr

namespace Blame

/-- Nothing is said. -/
def silent : Blame := ⟨none, [], none⟩

/-- A refusal for a cause. -/
def because (cause : Cause) : Blame := ⟨none, [], some cause⟩

/-- Says what was being read, if nothing smaller is named yet. -/
def within (b : Blame) (subject : String) : Blame :=
  { b with subject := b.subject <|> some subject }

/-- Says what would have been accepted as well. -/
def expecting (b : Blame) (what : String) : Blame := { b with expected := b.expected ++ [what] }

/-- The wording: a line for each part that is known. -/
def message (b : Blame) : String :=
  "\n".intercalate
    ((b.subject.map ("invalid " ++ ·)).toList ++
      (if b.expected.isEmpty then [] else ["expected " ++ ", ".intercalate b.expected]) ++
      (b.cause.map Cause.message).toList)

end Blame

/-! ## Reports -/

/-- What is wrong, and where. -/
structure Fault where
  span : Span
  reason : String
deriving DecidableEq, Repr

/-- A fault at the next character. -/
def Fault.ahead (rest : List Char) (blame : Blame) : Fault :=
  ⟨⟨rest.length, rest.length - 1⟩, blame.message⟩

def copies (n : Nat) (c : Char) : String := String.ofList (List.replicate n c)

/-- The number of bytes of some characters. -/
def byteLength (cs : List Char) : Nat := (String.ofList cs).utf8ByteSize

/-- A report of a fault in a text, with the line where it is and a mark below the place. Behind the
last character, the place counts as one more column of the last line. Columns count characters, but
in front of a character of several bytes they count bytes; the width of the mark counts bytes. -/
def Fault.report (f : Fault) (text : String) : String :=
  let s := text.toList
  let index := s.length - f.span.start
  let before := s.take (min index (s.length - 1))
  let line := before.count '\n' + 1
  let onLine := (before.reverse.takeWhile (· != '\n')).reverse
  let wide := (s.drop index).head?.any fun c => 128 ≤ c.toNat
  let column := (if wide then byteLength onLine else onLine.length) + (index - before.length)
  let content := (s.drop (before.length - onLine.length)).takeWhile (· != '\n')
  let width := min (byteLength ((s.drop index).take (f.span.start - f.span.stop)))
    (byteLength content - column)
  let gutter := copies ((toString line).length + 1) ' '
  "TOML parse error at line " ++ toString line ++ ", column " ++ toString (column + 1) ++ "\n" ++
    gutter ++ "|\n" ++
    toString line ++ " | " ++ String.ofList content ++ "\n" ++
    gutter ++ "|" ++ copies (column + 1) ' ' ++ copies (max 1 width) '^' ++ "\n" ++
    f.reason ++ "\n"

end DocQuery.Toml
