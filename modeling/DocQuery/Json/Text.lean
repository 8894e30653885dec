import DocQuery.Json.Basic
import DocQuery.Decimal.Text

/-! # JSON texts

* `Json.compact`: the text without any spaces.
* `Json.pretty`: the text on several lines, indented by two spaces a level.
-/

set_option autoImplicit false

namespace DocQuery.Json

/-- The hexadecimal digit of a number below sixteen. -/
def hexDigit (n : Nat) : Char := Char.ofNat (if n < 10 then 48 + n else 87 + n)

/-- How a character is written inside a string. -/
def escapedChar (c : Char) : List Char :=
  if c = '"' then ['\\', '"']
  else if c = '\\' then ['\\', '\\']
  else if c = '\n' then ['\\', 'n']
  else if c = '\r' then ['\\', 'r']
  else if c = '\t' then ['\\', 't']
  else if c.toNat = 8 then ['\\', 'b']
  else if c.toNat = 12 then ['\\', 'f']
  else if c.toNat < 32 then
    ['\\', 'u', '0', '0', hexDigit (c.toNat / 16), hexDigit (c.toNat % 16)]
  else [c]

/-- A string in double quotes. -/
def quotedText (s : String) : String :=
  "\"" ++ String.ofList (s.toList.flatMap escapedChar) ++ "\""

/-- The text of a number; an infinity is `null`. -/
def floatText (x : Float) : String := (Decimal.scientific x).getD "null"

mutual

/-- The text without any spaces. -/
def compact : Json → String
  | null => "null"
  | bool b => if b then "true" else "false"
  | int n => toString n
  | float x => floatText x
  | str s => quotedText s
  | arr items => "[" ++ ",".intercalate (compactItems items) ++ "]"
  | obj members => "\x7b" ++ ",".intercalate (compactMembers members) ++ "\x7d"
termination_by structural j => j

/-- The texts of the items of an array. -/
def compactItems : List Json → List String
  | [] => []
  | j :: js => compact j :: compactItems js
termination_by structural js => js

/-- The texts of the members of an object. -/
def compactMembers : List (String × Json) → List String
  | [] => []
  | (k, j) :: ms => (quotedText k ++ ":" ++ compact j) :: compactMembers ms
termination_by structural ms => ms

end

/-- The start of a line at a level. -/
def indentation (level : Nat) : String := String.ofList (List.replicate (2 * level) ' ')

/-- Items on lines of their own between two brackets; nothing stands between them if there are no
items. -/
def block (level : Nat) (opening closing : String) (items : List String) : String :=
  if items.isEmpty then opening ++ closing
  else
    opening ++ "\n" ++ ",\n".intercalate (items.map (indentation (level + 1) ++ ·)) ++ "\n" ++
      indentation level ++ closing

mutual

/-- The text at an indentation level. -/
def prettyAt (level : Nat) : Json → String
  | null => "null"
  | bool b => if b then "true" else "false"
  | int n => toString n
  | float x => floatText x
  | str s => quotedText s
  | arr items => block level "[" "]" (prettyItems (level + 1) items)
  | obj members => block level "\x7b" "\x7d" (prettyMembers (level + 1) members)
termination_by structural j => j

/-- The texts of the items of an array. -/
def prettyItems (level : Nat) : List Json → List String
  | [] => []
  | j :: js => prettyAt level j :: prettyItems level js
termination_by structural js => js

/-- The texts of the members of an object. -/
def prettyMembers (level : Nat) : List (String × Json) → List String
  | [] => []
  | (k, j) :: ms => (quotedText k ++ ": " ++ prettyAt level j) :: prettyMembers level ms
termination_by structural ms => ms

end

/-- The text on several lines. -/
def pretty (j : Json) : String := prettyAt 0 j

end DocQuery.Json
