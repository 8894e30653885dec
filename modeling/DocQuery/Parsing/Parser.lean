import DocQuery.Text.Affix

/-! # Parsers

A parser takes a prefix off a text, given as a list of characters, and answers with a value and the
rest, or with the place where it could not go on. Choice tries its alternatives in order and reports
the place of the last one. Optional and repeated parts never fail: where the part cannot be read,
the text is given back untouched.

* `Reply`, `Parser`: the types.
* `Parser.orElse`, `Parser.opt`, `Parser.many`, `Parser.many1`, `Parser.sepBy`: the combinators.
* `Parser.refine`: a last check on a value, which fails at the start of the text.
* `Parser.bind_ok`, `Parser.bind_error`: what a sequence answers.
-/

set_option autoImplicit false

namespace DocQuery

/-- The answer of a parser: a value and the rest of the text, or the place of the failure. -/
inductive Reply (α : Type) where
  | ok (value : α) (rest : List Char)
  | error (place : List Char)
deriving DecidableEq, Repr

/-- A parser of values of type `α`. -/
def Parser (α : Type) : Type := List Char → Reply α

namespace Parser

variable {α β : Type}

/-- Takes nothing and answers `a`. -/
def pure (a : α) : Parser α := fun s => .ok a s

/-- Reads with `p`, then with what `f` makes of the value. -/
def bind (p : Parser α) (f : α → Parser β) : Parser β := fun s =>
  match p s with
  | .ok a rest => f a rest
  | .error place => .error place

instance : Monad Parser where
  pure := Parser.pure
  bind := Parser.bind

/-- Fails where it stands. -/
def fail : Parser α := fun s => .error s

/-- Reads with `p`, or else with `q`, from the same place. -/
def orElse (p q : Parser α) : Parser α := fun s =>
  match p s with
  | .ok a rest => .ok a rest
  | .error _ => q s

instance : OrElse (Parser α) := ⟨fun p q => orElse p (q ())⟩

/-- Reads with `p` if that is possible. -/
def opt (p : Parser α) : Parser (Option α) := fun s =>
  match p s with
  | .ok a rest => .ok (some a) rest
  | .error _ => .ok none s

/-- Reads with `p` as often as possible, at most `fuel` times. -/
def repeated (p : Parser α) : Nat → Parser (List α)
  | 0, s => .ok [] s
  | fuel + 1, s =>
    match p s with
    | .ok a rest =>
      match repeated p fuel rest with
      | .ok as rest' => .ok (a :: as) rest'
      | .error _ => .ok [a] rest
    | .error _ => .ok [] s

/-- Reads with `p` as often as possible. A parser that takes at least one character each time cannot
read more values than there are characters. -/
def many (p : Parser α) : Parser (List α) := fun s => repeated p s.length s

/-- Reads with `p` at least once, then as often as possible. -/
def many1 (p : Parser α) : Parser (List α) := do
  let a ← p
  let as ← many p
  return a :: as

/-- Reads at least one item, and further items after separators. A separator that no item follows is
given back. -/
def sepBy1 (item : Parser α) (sep : Parser β) : Parser (List α) := do
  let a ← item
  let as ← many (do let _ ← sep; item)
  return a :: as

/-- Reads items between separators, or none at all. -/
def sepBy (item : Parser α) (sep : Parser β) : Parser (List α) := do
  let items ← opt (sepBy1 item sep)
  return items.getD []

/-- Reads with `p` and keeps what `check` makes of the value and the rest; a value that does not
pass is a failure at the start of the text. -/
def refine (p : Parser α) (check : α → List Char → Option β) : Parser β := fun s =>
  match p s with
  | .ok a rest =>
    match check a rest with
    | some b => .ok b rest
    | none => .error s
  | .error place => .error place

/-- One character of a class. -/
def satisfy (class' : Char → Bool) : Parser Char
  | c :: rest => if class' c then .ok c rest else .error (c :: rest)
  | [] => .error []

/-- The longest run of characters of a class, which may be empty. -/
def takeWhile (class' : Char → Bool) : Parser (List Char) := fun s =>
  .ok (s.takeWhile class') (s.dropWhile class')

/-- A run of characters of a class that is not empty. -/
def takeWhile1 (class' : Char → Bool) : Parser (List Char) := fun s =>
  if (s.takeWhile class').isEmpty then .error s
  else .ok (s.takeWhile class') (s.dropWhile class')

/-- The characters of `w`, one by one. -/
def word (w : String) : Parser Unit := fun s =>
  match Text.after? w.toList s with
  | some rest => .ok () rest
  | none => .error s

/-- Takes nothing, and fails if a character of the class comes next. -/
def notNext (class' : Char → Bool) : Parser Unit
  | c :: rest => if class' c then .error (c :: rest) else .ok () (c :: rest)
  | [] => .ok () []

/-! ## Equations -/

@[simp] theorem pure_apply (a : α) (s : List Char) : (Pure.pure a : Parser α) s = .ok a s := rfl

theorem bind_apply (p : Parser α) (f : α → Parser β) (s : List Char) :
    (p >>= f) s = match p s with
      | .ok a rest => f a rest
      | .error place => .error place := rfl

theorem bind_ok {p : Parser α} {s rest : List Char} {a : α} (h : p s = .ok a rest)
    (f : α → Parser β) : (p >>= f) s = f a rest := by
  rw [bind_apply, h]

theorem bind_error {p : Parser α} {s place : List Char} (h : p s = .error place)
    (f : α → Parser β) : (p >>= f) s = .error place := by
  rw [bind_apply, h]

end Parser

end DocQuery
