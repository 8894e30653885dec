import DocQuery.Toml.Parser
import DocQuery.Text.Hex

/-! # Blanks, strings and keys of TOML

* `blanks`, `gap`: what may stand between tokens, on one line or on several.
* `string`: strings of four kinds.
* `key`: keys, whose parts stand between points.
-/

set_option autoImplicit false

namespace DocQuery.Toml

open DocQuery.Toml.Parser

/-! ## Blanks and comments -/

/-- A space or a tab. -/
def isBlank (c : Char) : Bool := c == ' ' || c == '\t'

def blanks : Parser Unit := do let _ ← takeWhile isBlank

/-- The characters that may stand in a comment or a string: no control characters but the tab. -/
def isPlain (c : Char) : Bool := c == '\t' || (32 ≤ c.toNat && c.toNat != 127)

/-- A line break. Its failures are behind the byte that was looked at. -/
def lineBreak : Parser Unit
  | '\n' :: rest => .ok () rest
  | '\r' :: '\n' :: rest => .ok () rest
  | s => .error false (pastByte s) .silent

/-- A comment, up to the end of its line. -/
def comment : Parser Unit := do
  char '#'
  let _ ← takeWhile isPlain

/-- Blanks, comments and line breaks, at most `fuel` lines. -/
def gapLines : Nat → Parser Unit
  | 0 => pure ()
  | fuel + 1 => do
    blanks
    match ← next with
    | some '#' => do comment; lineBreak; gapLines fuel
    | some '\n' => do lineBreak; gapLines fuel
    | some '\r' => do lineBreak; gapLines fuel
    | _ => pure ()

/-- Blanks, comments and line breaks. A comment ends in a line break. -/
def gap : Parser Unit := fun s => gapLines (s.length + 1) s

/-- The end of a line: a line break, or the end of the text. -/
def lineClose : Parser Unit := lineBreak <|> finish

/-- The rest of a line on which there may only be a comment. -/
def lineEnd : Parser Unit := do
  blanks
  let _ ← opt comment
  lineClose

/-! ## Escapes -/

/-- The character with a given number. -/
def charOf? (n : Nat) : Option Char := if n.isValidChar then some (Char.ofNat n) else none

/-- The character of an escape by number, with a given count of digits. -/
def numberedEscape (count : Nat) : Parser Char :=
  commit (within ("unicode " ++ toString count ++ "-digit hex code")
    (checked (exactly count fun c => (Text.hexValue? c).isSome) fun digits =>
      match (Text.hexNumber? digits).bind charOf? with
      | some c => .ok c
      | none => .error (.because .outOfRange)))

/-- The characters that a backslash and a letter stand for. -/
def letterEscape? (c : Char) : Option Char :=
  if c = 'b' then some (Char.ofNat 8)
  else if c = 'f' then some (Char.ofNat 12)
  else if c = 'n' then some '\n'
  else if c = 'r' then some '\r'
  else if c = 't' then some '\t'
  else if c = '\\' || c = '"' then some c
  else none

/-- What is said about an escape that is not known. -/
def unknownEscape : Blame :=
  ⟨some "escape sequence", ["`b`", "`f`", "`n`", "`r`", "`t`", "`u`", "`U`", "`\\`", "`\"`"], none⟩

/-- The character of an escape, after the backslash. -/
def escapeCode : Parser Char
  | [] => .error false [] .silent
  | c :: rest =>
    if c = 'u' then numberedEscape 4 rest
    else if c = 'U' then numberedEscape 8 rest
    else match letterEscape? c with
      | some d => .ok d rest
      | none => .error true (pastByte (c :: rest)) unknownEscape

def escapeSequence : Parser Char := do char '\\'; escapeCode

/-! ## Strings -/

/-- A character of a string in double quotes. -/
def basicChar : Parser Char :=
  satisfy (fun c => isPlain c && c != '"' && c != '\\') <|> escapeSequence

/-- A string of one line in double quotes. -/
def basicString : Parser String := do
  char '"'
  let cs ← many basicChar
  commit (within "basic string" (char '"'))
  return String.ofList cs

/-- A string of one line in single quotes, without escapes. -/
def literalString : Parser String := do
  char '\''
  let cs ← takeWhile fun c => isPlain c && c != '\''
  commit (within "literal string" (char '\''))
  return String.ofList cs

/-- The text without the blanks and line breaks at its start. -/
def afterLines : List Char → List Char
  | '\r' :: '\n' :: rest => afterLines rest
  | c :: rest => if isBlank c || c == '\n' then afterLines rest else c :: rest
  | [] => []

/-- Blanks and line breaks. -/
def emptyLines : Parser Unit := fun s => .ok () (afterLines s)

/-- A backslash at the end of a line, with the line break and all blanks and line breaks after
it. -/
def joinedLine : Parser Unit := do
  char '\\'
  blanks
  lineBreak
  emptyLines

/-- Some text of a string of several lines, without its quotes. -/
def basicPiece : Parser (List Char) :=
  (do joinedLine; return []) <|> (do return [← basicChar]) <|> (do lineBreak; return ['\n'])

/-- Some text of a string of several lines without escapes, without its quotes. -/
def literalPiece : Parser (List Char) :=
  (do return [← satisfy fun c => isPlain c && c != '\'']) <|> (do lineBreak; return ['\n'])

/-- One or two quotes in front of what `p` reads. -/
def afterQuotes (quote : Char) (p : Parser (List Char)) : Parser (List Char) :=
  (do char quote; char quote; return quote :: quote :: (← p)) <|>
    (do char quote; return quote :: (← p))

/-- A string of several lines between three quotes. One or two quotes may stand anywhere in it. A
line break right after the opening quotes is no part of it. -/
def multiline (quote : Char) (subject : String) (piece : Parser (List Char)) : Parser String :=
  let fence : Parser Unit := word (copies 3 quote)
  within subject do
    fence
    let _ ← opt lineBreak
    let pieces ← many (piece <|> afterQuotes quote piece)
    let quotes ← opt (afterQuotes quote (do ahead fence; return []))
    commit fence
    return String.ofList (pieces.flatten ++ quotes.getD [])

/-- A string, of one line or of several. -/
def string : Parser String :=
  multiline '"' "multiline basic string" basicPiece <|> basicString <|>
    multiline '\'' "multiline literal string" literalPiece <|> literalString

/-! ## Keys -/

/-- One part of a key, with its place. -/
structure Key where
  name : String
  span : Span
deriving DecidableEq, Repr

/-- The characters of a key without quotes. -/
def isKeyChar (c : Char) : Bool := c.isAlphanum || c == '_' || c == '-'

/-- How a character is written in a key between double quotes. -/
def Key.escaped (c : Char) : List Char :=
  if c = '"' || c = '\\' then ['\\', c]
  else if c.toNat = 8 then ['\\', 'b']
  else if c = '\t' then ['\\', 't']
  else if c = '\n' then ['\\', 'n']
  else if c.toNat = 12 then ['\\', 'f']
  else if c = '\r' then ['\\', 'r']
  else if c.toNat < 32 || c.toNat = 127 then
    let digits := (Nat.toDigits 16 c.toNat).map Char.toUpper
    ['\\', 'u'] ++ List.replicate (4 - digits.length) '0' ++ digits
  else [c]

/-- The written form of a key: bare if it can be, else between double quotes, or between single
quotes if those save escapes. -/
def Key.text (k : Key) : String :=
  let cs := k.name.toList
  let control := cs.any fun c => c != '\t' && (c.toNat < 32 || c.toNat == 127)
  let plain := !control && !cs.contains '\\'
  if !cs.isEmpty && cs.all isKeyChar then k.name
  else if plain && !cs.contains '"' then "\"" ++ k.name ++ "\""
  else if !control && !cs.contains '\'' then "'" ++ k.name ++ "'"
  else "\"" ++ String.ofList (cs.flatMap Key.escaped) ++ "\""

/-- One part of a key. -/
def simpleKey : Parser Key := do
  let (span, name) ← spanned do
    match ← next with
    | some '"' => basicString
    | some '\'' => literalString
    | _ => do return String.ofList (← takeWhile1 isKeyChar)
  return ⟨name, span⟩

/-- How many arrays and inline tables may stand in each other, and how many parts a key may have. -/
def nestingLimit : Nat := 79

/-- A key: its parts, of which there is at least one. -/
def key : Parser (List Key) :=
  checked (within "key" (sepBy1 (do blanks; let k ← simpleKey; blanks; return k) (char '.')))
    fun parts =>
      if parts.length ≤ nestingLimit then .ok parts else .error (.because .tooDeep)

end DocQuery.Toml
