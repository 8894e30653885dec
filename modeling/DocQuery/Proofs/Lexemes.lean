import Mathlib
import DocQuery.Sql.Text

/-! # Reading SQL texts

What a reader of SQL makes of a text, as far as strings, parentheses, comments and the ends of
statements go. A string starts and ends with a quote; inside it, two quotes stand for one.

* `Lexeme`, `lexemes?`: the strings of a text and the characters outside strings.
* `IsStatement`: one statement and nothing else, with its parentheses in pairs and no comment.
* `Scan`: a reader that keeps only the depth of the parentheses and what a comment could start with,
  so that it can go on from a text to the next. `isStatement_of_run` says that what it lets pass,
  with a semicolon after it, is a statement.
-/

set_option autoImplicit false

namespace DocQuery.Sql

/-! ## Statements -/

/-- A string with its content, or one character outside strings. -/
inductive Lexeme where
  | string (content : List Char)
  | mark (c : Char)
deriving DecidableEq, Repr

/-- Where a reader stands. A quote inside a string ends it, unless another quote follows. -/
inductive Place where
  | outside
  | inside (content : List Char)
  | quote (content : List Char)

/-- The lexemes of a text from a place on; there are none if a string does not end. -/
def lexemesFrom? : Place → List Char → Option (List Lexeme)
  | .outside, [] => some []
  | .outside, c :: cs =>
    if c = '\'' then lexemesFrom? (.inside []) cs else (.mark c :: ·) <$> lexemesFrom? .outside cs
  | .inside _, [] => none
  | .inside content, c :: cs =>
    if c = '\'' then lexemesFrom? (.quote content) cs
    else lexemesFrom? (.inside (content ++ [c])) cs
  | .quote content, [] => some [.string content]
  | .quote content, c :: cs =>
    if c = '\'' then lexemesFrom? (.inside (content ++ [c])) cs
    else ([.string content, .mark c] ++ ·) <$> lexemesFrom? .outside cs

/-- The lexemes of a text. -/
def lexemes? (text : String) : Option (List Lexeme) := lexemesFrom? .outside text.toList

/-- One statement: a semicolon ends it and stands nowhere else, its parentheses are in pairs, and no
comment starts in it. -/
structure IsStatement (ls : List Lexeme) : Prop where
  terminated : ∃ body, ls = body ++ [.mark ';'] ∧ .mark ';' ∉ body
  paired : ls.count (.mark '(') = ls.count (.mark ')')
  nested : ∀ p, p <+: ls → p.count (.mark ')') ≤ p.count (.mark '(')
  no_line_comment : ¬[.mark '-', .mark '-'] <:+: ls
  no_block_comment : ¬[.mark '/', .mark '*'] <:+: ls

/-! ## Scanning -/

/-- What a reader has to know of the characters before. -/
inductive Mode where
  | plain | minus | slash | string
deriving DecidableEq, Repr

/-- How many parentheses are open, and what came last. -/
structure Scan where
  depth : Nat
  mode : Mode
deriving DecidableEq, Repr

namespace Scan

/-- Goes on over a character outside strings, unless it closes a parenthesis that is not open, ends
the statement or starts a comment. -/
def mark (s : Scan) (c : Char) : Option Scan :=
  if c = ';' then none
  else if c = '(' then some ⟨s.depth + 1, .plain⟩
  else if c = ')' then if s.depth = 0 then none else some ⟨s.depth - 1, .plain⟩
  else if c = '-' then if s.mode = .minus then none else some ⟨s.depth, .minus⟩
  else if c = '/' then some ⟨s.depth, .slash⟩
  else if c = '*' ∧ s.mode = .slash then none
  else some ⟨s.depth, .plain⟩

/-- Goes on over a character. -/
def step (s : Scan) (c : Char) : Option Scan :=
  if s.mode = .string then some ⟨s.depth, if c = '\'' then .plain else .string⟩
  else if c = '\'' then some ⟨s.depth, .string⟩
  else s.mark c

/-- Goes on over a text. -/
def run : Scan → List Char → Option Scan
  | s, [] => some s
  | s, c :: cs => (s.step c).bind fun s' => run s' cs

theorem run_append (s : Scan) (cs ds : List Char) :
    s.run (cs ++ ds) = (s.run cs).bind fun s' => s'.run ds := by
  induction cs generalizing s with
  | nil => rfl
  | cons c cs ih =>
    rw [List.cons_append, run, run, Option.bind_assoc]
    congr 1
    funext s'
    exact ih s'

/-- Goes on over a lexeme. -/
def pass (s : Scan) : Lexeme → Option Scan
  | .string _ => some ⟨s.depth, .plain⟩
  | .mark c => s.mark c

/-- Goes on over lexemes. -/
def passAll : Scan → List Lexeme → Option Scan
  | s, [] => some s
  | s, l :: ls => (s.pass l).bind fun s' => passAll s' ls

variable {s s' : Scan}

/-- All that can happen at a character outside strings. -/
theorem mark_cases {c : Char} (h : s.mark c = some s') :
    (c = '(' ∧ s' = ⟨s.depth + 1, .plain⟩) ∨
    (c = ')' ∧ 0 < s.depth ∧ s' = ⟨s.depth - 1, .plain⟩) ∨
    (c = '-' ∧ s.mode ≠ .minus ∧ s' = ⟨s.depth, .minus⟩) ∨
    (c = '/' ∧ s' = ⟨s.depth, .slash⟩) ∨
    (c ∉ [';', '(', ')', '-', '/'] ∧ ¬(c = '*' ∧ s.mode = .slash) ∧ s' = ⟨s.depth, .plain⟩) := by
  unfold mark at h
  split at h
  · cases h
  split at h
  · cases h
    exact .inl ⟨‹_›, rfl⟩
  split at h
  · split at h
    · cases h
    · cases h
      exact .inr (.inl ⟨‹_›, by omega, rfl⟩)
  split at h
  · split at h
    · cases h
    · cases h
      exact .inr (.inr (.inl ⟨‹_›, ‹_›, rfl⟩))
  split at h
  · cases h
    exact .inr (.inr (.inr (.inl ⟨‹_›, rfl⟩)))
  split at h
  · cases h
  · cases h
    exact .inr (.inr (.inr (.inr ⟨by simp [*], ‹_›, rfl⟩)))

theorem mode_mark {c : Char} (h : s.mark c = some s') : s'.mode ≠ .string := by
  obtain ⟨-, rfl⟩ | ⟨-, -, rfl⟩ | ⟨-, -, rfl⟩ | ⟨-, rfl⟩ | ⟨-, -, rfl⟩ := mark_cases h <;> simp

/-! ### From characters to lexemes -/

/-- A scan that ends outside strings sees the lexemes of the text. The three parts are for the three
places where it can start; inside a string, the rest of the string comes first. -/
theorem lexemes_of_run {cs : List Char} (h : s.run cs = some s') (hend : s'.mode ≠ .string) :
    (s.mode ≠ .string → ∃ ls, lexemesFrom? .outside (cs ++ [';']) = some (ls ++ [.mark ';']) ∧
      s.passAll ls = some s') ∧
    (s.mode = .string → ∀ content, ∃ content' ls,
      lexemesFrom? (.inside content) (cs ++ [';']) = some (.string content' :: (ls ++ [.mark ';'])) ∧
      passAll ⟨s.depth, .plain⟩ ls = some s') ∧
    (s.mode = .plain → ∀ content, ∃ content' ls,
      lexemesFrom? (.quote content) (cs ++ [';']) = some (.string content' :: (ls ++ [.mark ';'])) ∧
      s.passAll ls = some s') := by
  induction cs generalizing s with
  | nil =>
    cases h
    exact ⟨fun _ => ⟨[], rfl, rfl⟩, fun hs => absurd hs hend, fun _ content => ⟨content, [], rfl, rfl⟩⟩
  | cons c cs ih =>
    obtain ⟨t, hstep, hrun⟩ := Option.bind_eq_some_iff.1 h
    obtain ⟨ihOutside, ihInside, ihQuote⟩ := ih hrun
    -- The reader is outside of strings, inside of one, or behind a quote that may end it.
    refine ⟨fun hs => ?_, fun hs content => ?_, fun hs content => ?_⟩
    · rw [step, if_neg hs] at hstep
      by_cases hc : c = '\''
      · rw [if_pos hc] at hstep
        cases hstep
        obtain ⟨content, ls, hls, hpass⟩ := ihInside rfl []
        exact ⟨.string content :: ls, by simp [lexemesFrom?, hc, hls], hpass⟩
      · rw [if_neg hc] at hstep
        obtain ⟨ls, hls, hpass⟩ := ihOutside (mode_mark hstep)
        exact ⟨.mark c :: ls, by simp [lexemesFrom?, hc, hls], by simp [passAll, pass, hstep, hpass]⟩
    · rw [step, if_pos hs] at hstep
      cases hstep
      by_cases hc : c = '\''
      · obtain ⟨content', ls, hls, hpass⟩ := ihQuote (if_pos hc) content
        exact ⟨content', ls, by simp [lexemesFrom?, hc, hls], by simpa [hc] using hpass⟩
      · obtain ⟨content', ls, hls, hpass⟩ := ihInside (if_neg hc) (content ++ [c])
        exact ⟨content', ls, by simp [lexemesFrom?, hc, hls], hpass⟩
    · have hs' : s.mode ≠ .string := by simp [hs]
      rw [step, if_neg hs'] at hstep
      by_cases hc : c = '\''
      · rw [if_pos hc] at hstep
        cases hstep
        obtain ⟨content', ls, hls, hpass⟩ := ihInside rfl (content ++ [c])
        refine ⟨content', ls, by simp [lexemesFrom?, hc, ← hls], ?_⟩
        obtain ⟨depth, mode⟩ := s
        cases hs
        exact hpass
      · rw [if_neg hc] at hstep
        obtain ⟨ls, hls, hpass⟩ := ihOutside (mode_mark hstep)
        exact ⟨content, .mark c :: ls, by simp [lexemesFrom?, hc, hls],
          by simp [passAll, pass, hstep, hpass]⟩

/-! ### What the scan rules out -/

variable {ls : List Lexeme}

theorem passAll_cons {l : Lexeme} (h : s.passAll (l :: ls) = some s') :
    ∃ t, s.pass l = some t ∧ t.passAll ls = some s' := Option.bind_eq_some_iff.1 h

theorem semicolon_not_mem (h : s.passAll ls = some s') : .mark ';' ∉ ls := by
  induction ls generalizing s with
  | nil => simp
  | cons l ls ih =>
    obtain ⟨t, hpass, hrest⟩ := passAll_cons h
    rw [List.mem_cons, not_or]
    refine ⟨?_, ih hrest⟩
    rintro rfl
    simp [pass, mark] at hpass

/-- The depth counts the parentheses that are open. -/
theorem depth_pass {l : Lexeme} (h : s.pass l = some s') :
    s.depth + [l].count (.mark '(') = s'.depth + [l].count (.mark ')') := by
  cases l with
  | string content =>
    cases h
    simp
  | mark c =>
    obtain ⟨rfl, rfl⟩ | ⟨rfl, hpos, rfl⟩ | ⟨rfl, -, rfl⟩ | ⟨rfl, rfl⟩ | ⟨hc, -, rfl⟩ := mark_cases h
    · simp
    · simp
      omega
    · simp
    · simp
    · simp only [List.mem_cons, List.not_mem_nil, or_false, not_or] at hc
      simp [hc]

theorem depth_passAll (h : s.passAll ls = some s') :
    s.depth + ls.count (.mark '(') = s'.depth + ls.count (.mark ')') := by
  induction ls generalizing s with
  | nil =>
    cases h
    rfl
  | cons l ls ih =>
    obtain ⟨t, hpass, hrest⟩ := passAll_cons h
    have hl := depth_pass hpass
    have hls := ih hrest
    rw [← List.singleton_append, List.count_append, List.count_append]
    omega

theorem passAll_of_prefix {p : List Lexeme} (hp : p <+: ls) (h : s.passAll ls = some s') :
    ∃ t, s.passAll p = some t := by
  induction p generalizing s ls with
  | nil => exact ⟨s, rfl⟩
  | cons l p ih =>
    obtain ⟨rest, rfl⟩ := hp
    obtain ⟨t, hpass, hrest⟩ := passAll_cons h
    obtain ⟨u, hu⟩ := ih ⟨rest, rfl⟩ hrest
    exact ⟨u, by rw [passAll, hpass]; exact hu⟩

/-- Two marks do not follow each other, if after the first the scan does not go over the second. -/
theorem not_infix_of_pass {a b : Char} (hab : ∀ t u : Scan, t.mark a = some u → u.mark b = none)
    (h : s.passAll ls = some s') : ¬[.mark a, .mark b] <:+: ls := by
  induction ls generalizing s with
  | nil => simp
  | cons l ls ih =>
    obtain ⟨t, hpass, hrest⟩ := passAll_cons h
    rw [List.infix_cons_iff, not_or]
    refine ⟨?_, ih hrest⟩
    rintro ⟨rest, heq⟩
    cases heq
    obtain ⟨u, hu, -⟩ := passAll_cons hrest
    rw [pass, hab _ _ hpass] at hu
    cases hu

theorem not_infix_concat {a b c : Char} (h : ¬[.mark a, .mark b] <:+: ls) (hbc : b ≠ c) :
    ¬[.mark a, .mark b] <:+: ls ++ [.mark c] := by
  rw [List.infix_concat_iff, not_or]
  refine ⟨?_, h⟩
  rintro ⟨t, heq⟩
  have hlast := congrArg List.getLast? heq
  simp at hlast
  exact hbc hlast

/-- What the scan lets pass is one statement, once a semicolon stands after it. -/
theorem isStatement_of_run {text : String} (h : run ⟨0, .plain⟩ text.toList = some ⟨0, .plain⟩) :
    ∃ ls, lexemes? (text ++ ";") = some ls ∧ IsStatement ls := by
  obtain ⟨ls, hls, hpass⟩ := (lexemes_of_run h (by decide)).1 (by decide)
  have hdepth := depth_passAll hpass
  have hnot := semicolon_not_mem hpass
  refine ⟨ls ++ [.mark ';'], by simpa [lexemes?] using hls, ⟨ls, rfl, hnot⟩, ?_, ?_, ?_, ?_⟩
  · simpa using hdepth
  · intro p hp
    obtain rfl | hp := List.prefix_concat_iff.1 hp
    · simpa using Nat.le_of_eq hdepth.symm
    · obtain ⟨t, ht⟩ := passAll_of_prefix hp hpass
      have := depth_passAll ht
      simp only at this
      omega
  · refine not_infix_concat (not_infix_of_pass (fun t u hu => ?_) hpass) (by decide)
    obtain ⟨hc, -⟩ | ⟨hc, -⟩ | ⟨-, -, rfl⟩ | ⟨hc, -⟩ | ⟨hc, -⟩ := mark_cases hu
    case inr.inr.inl => rfl
    all_goals simp at hc
  · refine not_infix_concat (not_infix_of_pass (fun t u hu => ?_) hpass) (by decide)
    obtain ⟨hc, -⟩ | ⟨hc, -⟩ | ⟨hc, -⟩ | ⟨-, rfl⟩ | ⟨hc, -⟩ := mark_cases hu
    case inr.inr.inr.inl => rfl
    all_goals simp at hc

end Scan

end DocQuery.Sql
