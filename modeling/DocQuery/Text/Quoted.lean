/-! # Quoted strings of expressions

A string literal is written between single quotes. A backslash, a single quote, line feed, tab,
carriage return and NUL are written as a backslash and one character; everything else stands for
itself.

* `escape`: how one character is written inside the quotes.
* `quoted`: the literal of a string.
* `unescape?`: the character that a backslash and the given character stand for.
* `unescape?_escape`: what is written with a backslash is read back.
-/

set_option autoImplicit false

namespace DocQuery.Text

/-- How a character is written inside a string literal. -/
def escape (c : Char) : List Char :=
  if c = '\\' then ['\\', '\\']
  else if c = '\'' then ['\\', '\'']
  else if c = '\n' then ['\\', 'n']
  else if c = '\t' then ['\\', 't']
  else if c = '\r' then ['\\', 'r']
  else if c = '\x00' then ['\\', '0']
  else [c]

/-- The string literal of a text. -/
def quoted (s : String) : String :=
  "'" ++ String.ofList (s.toList.flatMap escape) ++ "'"

/-- The character that a backslash and `c` stand for; after a backslash any other character is kept
together with the backslash. -/
def unescape? (c : Char) : Option Char :=
  if c = 'n' then some '\n'
  else if c = 't' then some '\t'
  else if c = 'r' then some '\r'
  else if c = '0' then some '\x00'
  else if c = '\\' || c = '\'' || c = '"' then some c
  else none

/-- A character is written as itself or as a backslash and a character that stands for it. -/
theorem unescape?_escape (c : Char) :
    escape c = [c] ∧ c ≠ '\\' ∧ c ≠ '\'' ∧ c ≠ '\n' ∨
      ∃ d, escape c = ['\\', d] ∧ unescape? d = some c := by
  unfold escape
  repeat' split
  all_goals first
    | (subst_vars; exact .inr ⟨_, rfl, by decide⟩)
    | (refine .inl ⟨rfl, ?_, ?_, ?_⟩ <;> assumption)

end DocQuery.Text
