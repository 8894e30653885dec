import DocQuery.Toml.Basic

/-! # Parsers with committed failures

A parser takes a prefix off a text, or fails at a place with something to say. Most failures leave
room for another attempt: choice goes on with the next alternative, and optional and repeated parts
give back the text. A committed failure is final: nothing else is tried.

* `Reply`, `Parser`: the types.
* `commit`: makes every failure final.
* `orElse`, `opt`, `many`, `sepBy1`, `sepBy`: the combinators.
* `within`, `expecting`: what a failure says.
* `checked`, `enforced`: a last check on a value, which fails at the start of the text.
-/

set_option autoImplicit false

namespace DocQuery.Toml

/-- The answer of a parser: a value and the rest of the text, or a failure with its place, which may
be final. -/
inductive Reply (α : Type) where
  | ok (value : α) (rest : List Char)
  | error (final : Bool) (place : List Char) (blame : Blame)
deriving DecidableEq, Repr

/-- A parser of values of type `α`. -/
def Parser (α : Type) : Type := List Char → Reply α

namespace Parser

variable {α β : Type}

/-- Takes nothing and answers `a`. -/
protected def pure (a : α) : Parser α := fun s => .ok a s

/-- Reads with `p`, then with what `f` makes of the value. -/
protected def bind (p : Parser α) (f : α → Parser β) : Parser β := fun s =>
  match p s with
  | .ok a rest => f a rest
  | .error final place blame => .error final place blame

instance : Monad Parser where
  pure := Parser.pure
  bind := Parser.bind

/-! ## Failures -/

/-- Fails where it stands and says nothing. -/
def fail : Parser α := fun s => .error false s .silent

/-- Fails where it stands, for a reason that is final. -/
def refuse (blame : Blame) : Parser α := fun s => .error true s blame

/-- Reads with `p`, whose failures are final. -/
def commit (p : Parser α) : Parser α := fun s =>
  match p s with
  | .ok a rest => .ok a rest
  | .error _ place blame => .error true place blame

/-- Reads with `p`, whose failures say that `subject` was being read. -/
def within (subject : String) (p : Parser α) : Parser α := fun s =>
  match p s with
  | .ok a rest => .ok a rest
  | .error final place blame => .error final place (blame.within subject)

/-- Reads with `p`, whose failures say that `what` was expected. -/
def expecting (what : String) (p : Parser α) : Parser α := fun s =>
  match p s with
  | .ok a rest => .ok a rest
  | .error final place blame => .error final place (blame.expecting what)

/-- Reads with `p` and keeps what `check` makes of the value. A value that does not pass is a
failure at the start of the text. -/
def checked (p : Parser α) (check : α → Except Blame β) : Parser β := fun s =>
  match p s with
  | .ok a rest =>
    match check a with
    | .ok b => .ok b rest
    | .error blame => .error false s blame
  | .error final place blame => .error final place blame

/-- Like `checked`, but the failure of the check is final. -/
def enforced (p : Parser α) (check : α → Except Blame β) : Parser β := fun s =>
  match p s with
  | .ok a rest =>
    match check a with
    | .ok b => .ok b rest
    | .error blame => .error true s blame
  | .error final place blame => .error final place blame

/-! ## Choice and repetition -/

/-- Reads with `p`, or else with `q`, from the same place. -/
def orElse (p q : Parser α) : Parser α := fun s =>
  match p s with
  | .error false _ _ => q s
  | reply => reply

instance : OrElse (Parser α) := ⟨fun p q => orElse p (q ())⟩

/-- Reads with `p` if that is possible. -/
def opt (p : Parser α) : Parser (Option α) := fun s =>
  match p s with
  | .ok a rest => .ok (some a) rest
  | .error false _ _ => .ok none s
  | .error true place blame => .error true place blame

/-- Reads with `p` as often as possible, at most `fuel` times. -/
def repeated (p : Parser α) : Nat → Parser (List α)
  | 0, s => .ok [] s
  | fuel + 1, s =>
    match p s with
    | .ok a rest =>
      match repeated p fuel rest with
      | .ok as rest' => .ok (a :: as) rest'
      | .error final place blame => .error final place blame
    | .error false _ _ => .ok [] s
    | .error true place blame => .error true place blame

/-- Reads with `p` as often as possible. A parser that takes at least one character each time cannot
read more values than there are characters. -/
def many (p : Parser α) : Parser (List α) := fun s => repeated p s.length s

/-- Reads at least one item, and further items after separators. A separator that no item follows is
given back. -/
def sepBy1 (item : Parser α) (sep : Parser β) : Parser (List α) := do
  let a ← item
  let as ← many (do let _ ← sep; item)
  return a :: as

/-- Reads items between separators, or none at all. -/
def sepBy (item : Parser α) (sep : Parser β) : Parser (List α) := do
  return (← opt (sepBy1 item sep)).getD []

/-- Reads with `p` and gives the text back. -/
def ahead (p : Parser α) : Parser α := fun s =>
  match p s with
  | .ok a _ => .ok a s
  | .error final _ blame => .error final s blame

/-- Reads with `p`, together with the place of what is read. -/
def spanned (p : Parser α) : Parser (Span × α) := fun s =>
  match p s with
  | .ok a rest => .ok (⟨s.length, rest.length⟩, a) rest
  | .error final place blame => .error final place blame

/-! ## Characters -/

/-- One character of a class. -/
def satisfy (class' : Char → Bool) : Parser Char
  | c :: rest => if class' c then .ok c rest else .error false (c :: rest) .silent
  | [] => .error false [] .silent

/-- The character `c`. -/
def char (c : Char) : Parser Unit := do let _ ← satisfy (· == c)

/-- The end of the text. -/
def finish : Parser Unit
  | [] => .ok () []
  | s => .error false s .silent

/-- The next character, which is not taken. -/
def next : Parser (Option Char) := fun s => .ok s.head? s

/-- The longest run of characters of a class, which may be empty. -/
def takeWhile (class' : Char → Bool) : Parser (List Char) := fun s =>
  .ok (s.takeWhile class') (s.dropWhile class')

/-- A run of characters of a class that is not empty. -/
def takeWhile1 (class' : Char → Bool) : Parser (List Char) := fun s =>
  if (s.takeWhile class').isEmpty then .error false s .silent
  else .ok (s.takeWhile class') (s.dropWhile class')

/-- A given number of characters of a class. -/
def exactly (count : Nat) (class' : Char → Bool) : Parser (List Char) := fun s =>
  let cs := s.take count
  if cs.length = count && cs.all class' then .ok cs (s.drop count) else .error false s .silent

/-- All characters of `w`. -/
def word (w : String) : Parser Unit := fun s =>
  if w.toList.isPrefixOf s then .ok () (s.drop w.toList.length) else .error false s .silent

/-- The place behind the first byte of a text, if that is where a character ends. -/
def pastByte : List Char → List Char
  | c :: rest => if c.toNat < 128 then rest else c :: rest
  | [] => []

end Parser

end DocQuery.Toml
