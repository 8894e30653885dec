import DocQuery.Proofs.Composition
import DocQuery.Expr.Parse

/-! # What parsers take off a text

A parser leaves an end of its text, and so does one that fails: the place of the failure is an end
of the text too. Every phrase of the grammar takes at least one character, a list of parameters apart,
so that a repetition always comes to an end by itself, and closes all parentheses that it opens.

* `Text.rise`: how many more parentheses a text opens than it closes.
* `Parser.Takes m k`: the parser takes at least `m` characters and closes `k` parentheses.
* `Built.takes`, `inner_grammar`: what the phrases of the grammar take.
* `advances_grammar`: every phrase goes ahead, no repetition stalls, and a failure is reported with
  the rest of the text at its place.
-/

set_option autoImplicit false

namespace DocQuery

namespace Text

/-! ## Depth -/

/-- Where a character stands: outside of strings, in a string with the given quote, or behind a
backslash there. -/
inductive Region where
  | outside
  | string (quote : Char)
  | escape (quote : Char)

/-- The number of parentheses that a text opens outside of strings, less those that it closes. -/
def rise : Region → List Char → Int
  | _, [] => 0
  | .outside, c :: s =>
    if c = '(' then rise .outside s + 1
    else if c = ')' then rise .outside s - 1
    else if c = '\'' ∨ c = '"' then rise (.string c) s
    else rise .outside s
  | .string quote, c :: s =>
    if c = quote then rise .outside s
    else if c = '\\' then rise (.escape quote) s
    else rise (.string quote) s
  | .escape quote, _ :: s => rise (.string quote) s

theorem rise_cons {c : Char} (h : c ∉ marks) (s : List Char) :
    rise .outside (c :: s) = rise .outside s := by
  simp only [marks, List.mem_cons, List.not_mem_nil, or_false, not_or] at h
  simp [rise, h]

theorem rise_append {w : List Char} (h : ∀ c ∈ w, c ∉ marks) (s : List Char) :
    rise .outside (w ++ s) = rise .outside s := by
  induction w with
  | nil => rfl
  | cons c w ih =>
    obtain ⟨hc, hw⟩ := List.forall_mem_cons.1 h
    rw [List.cons_append, rise_cons hc, ih hw]

/-- The characters of a class without marks are no marks. -/
theorem not_mem_marks {class' : Char → Bool} (hclass : ∀ c ∈ marks, class' c = false) {c : Char}
    (h : class' c = true) : c ∉ marks := by
  intro hc
  rw [hclass c hc] at h
  cases h

theorem rise_dropWhile {class' : Char → Bool} (hclass : ∀ c ∈ marks, class' c = false)
    (s : List Char) : rise .outside (s.dropWhile class') = rise .outside s := by
  conv_rhs => rw [← List.takeWhile_append_dropWhile (p := class') (l := s)]
  exact (rise_append (fun c hc => not_mem_marks hclass (List.mem_takeWhile_imp hc)) _).symm

theorem rise_skipGap (s : List Char) : rise .outside (skipGap s) = rise .outside s :=
  rise_dropWhile (by decide) s

end Text

open Text Token

namespace Parser

variable {α β : Type} {p q : Parser α} {m n j k : Nat} {s r t : List Char}

/-! ## What is taken -/

/-- The text `r` is left of `s`: at least `m` characters are taken off, and `k` more parentheses are
closed than opened in them. -/
structure Taken (m k : Nat) (s r : List Char) : Prop where
  suffix : r <:+ s
  length : r.length + m ≤ s.length
  rise : rise .outside s + k = rise .outside r

theorem Taken.refl (s : List Char) : Taken 0 0 s s := ⟨List.suffix_rfl, by simp, by simp⟩

theorem Taken.trans (h : Taken m j s r) (h' : Taken n k r t) : Taken (m + n) (j + k) s t where
  suffix := h'.suffix.trans h.suffix
  length := by
    have := h.length
    have := h'.length
    omega
  rise := by
    have := h.rise
    have := h'.rise
    push_cast
    omega

theorem Taken.any (h : Taken m k s r) : Taken 0 k s r := ⟨h.suffix, h.suffix.length_le, h.rise⟩

/-- Where the parser succeeds, it takes at least `m` characters and closes `k` more parentheses than
it opens. Where it fails, it does so somewhere in the text. -/
structure Takes (m k : Nat) (p : Parser α) : Prop where
  ok : ∀ ⦃s a r⦄, p s = .ok a r → Taken m k s r
  error : ∀ ⦃s place⦄, p s = .error place → place <:+ s

theorem takes_pure (a : α) : Takes 0 0 (Pure.pure a : Parser α) where
  ok s b r h := by
    cases h
    exact .refl s
  error s place h := by cases h

theorem takes_fail (m k : Nat) : Takes m k (fail : Parser α) where
  ok s a r h := by cases h
  error s place h := by
    cases h
    exact List.suffix_rfl

/-- That something is taken need not be said. -/
theorem Takes.any (h : Takes m k p) : Takes 0 k p :=
  ⟨fun _ _ _ hs => (h.ok hs).any, h.error⟩

/-- Parsers one after the other take what both take. -/
theorem Takes.append {f : α → Parser β} (h : Takes m j p) (hf : ∀ a, Takes n k (f a)) :
    Takes (m + n) (j + k) (p >>= f) := by
  constructor
  · intro s b t hs
    rw [bind_apply] at hs
    split at hs
    · rename_i a r ha
      exact (h.ok ha).trans ((hf a).ok hs)
    · cases hs
  · intro s place hs
    rw [bind_apply] at hs
    split at hs
    · rename_i a r ha
      exact ((hf a).error hs).trans (h.ok ha).suffix
    · cases hs
      exact h.error ‹_›

theorem Takes.bind {f : α → Parser β} (h : Takes m 0 p) (hf : ∀ a, Takes 0 k (f a)) :
    Takes m k (p >>= f) := by
  simpa using h.append hf

theorem Takes.after {f : α → Parser β} (h : Takes 0 0 p) (hf : ∀ a, Takes m k (f a)) :
    Takes m k (p >>= f) := by
  simpa using h.append hf

theorem Takes.orElse (hp : Takes m k p) (hq : Takes m k q) : Takes m k (p <|> q) := by
  constructor
  · intro s a r hs
    change Parser.orElse p q s = _ at hs
    rw [Parser.orElse] at hs
    split at hs
    · cases hs
      exact hp.ok ‹_›
    · exact hq.ok hs
  · intro s place hs
    change Parser.orElse p q s = _ at hs
    rw [Parser.orElse] at hs
    split at hs
    · cases hs
    · exact hq.error hs

theorem Takes.opt (h : Takes m 0 p) : Takes 0 0 (opt p) := by
  constructor
  · intro s o r hs
    rw [Parser.opt] at hs
    split at hs
    · cases hs
      exact (h.ok ‹_›).any
    · cases hs
      exact .refl s
  · intro s place hs
    rw [Parser.opt] at hs
    split at hs <;> cases hs

/-- An optional part counts where what follows counts on it. -/
theorem Takes.optBind {f : Option α → Parser β} (h : Takes m 0 p)
    (hsome : ∀ a, Takes 0 k (f (some a))) (hnone : Takes m k (f none)) :
    Takes m k (Parser.opt p >>= f) := by
  constructor
  · intro s b r hs
    rw [bind_apply, Parser.opt] at hs
    split at hs
    · rename_i o r' ho
      split at ho
      · rename_i a t ha
        cases ho
        have htaken := (h.ok ha).trans ((hsome a).ok hs)
        simpa using htaken
      · cases ho
        exact hnone.ok hs
    · rename_i ho
      split at ho <;> cases ho
  · intro s place hs
    rw [bind_apply, Parser.opt] at hs
    split at hs
    · rename_i o r' ho
      split at ho
      · rename_i a t ha
        cases ho
        exact ((hsome a).error hs).trans (h.ok ha).suffix
      · cases ho
        exact hnone.error hs
    · rename_i ho
      split at ho <;> cases ho

theorem Takes.repeated (h : Takes m 0 p) (fuel : Nat) : Takes 0 0 (repeated p fuel) := by
  induction fuel with
  | zero =>
    constructor
    · intro s as r hs
      cases hs
      exact .refl s
    · intro s place hs
      cases hs
  | succ fuel ih =>
    constructor
    · intro s as r hs
      rw [Parser.repeated] at hs
      split at hs
      · rename_i a r' ha
        have hfirst := (h.ok ha).any
        split at hs
        · cases hs
          exact hfirst.trans (ih.ok ‹_›)
        · cases hs
          exact hfirst
      · cases hs
        exact .refl s
    · intro s place hs
      rw [Parser.repeated] at hs
      split at hs
      · split at hs <;> cases hs
      · cases hs

theorem Takes.many (h : Takes m 0 p) : Takes 0 0 (many p) :=
  ⟨fun s _ _ hs => (h.repeated s.length).ok hs, fun s _ hs => (h.repeated s.length).error hs⟩

theorem Takes.refine {check : α → List Char → Option β} (h : Takes m k p) :
    Takes m k (refine p check) := by
  constructor
  · intro s b r hs
    rw [Parser.refine] at hs
    split at hs
    · split at hs
      · cases hs
        exact h.ok ‹_›
      · cases hs
    · cases hs
  · intro s place hs
    rw [Parser.refine] at hs
    split at hs
    · split at hs
      · cases hs
      · cases hs
        exact List.suffix_rfl
    · cases hs
      exact h.error ‹_›

/-! ## Characters and words -/

section Classes

variable {class' : Char → Bool} (hclass : ∀ c ∈ marks, class' c = false)
include hclass

theorem takes_satisfy : Takes 1 0 (satisfy class') := by
  constructor
  · intro s c r hs
    rw [satisfy.eq_def] at hs
    split at hs
    · split at hs
      · rename_i c' rest hc
        cases hs
        exact ⟨List.suffix_cons _ _, by simp, by simp [rise_cons (not_mem_marks hclass hc)]⟩
      · cases hs
    · cases hs
  · intro s place hs
    rw [satisfy.eq_def] at hs
    split at hs
    · split at hs <;> cases hs
      exact List.suffix_rfl
    · cases hs
      exact List.suffix_rfl

theorem takes_takeWhile : Takes 0 0 (takeWhile class') := by
  constructor
  · intro s cs r hs
    cases hs
    have hsuffix := List.dropWhile_suffix (l := s) class'
    exact ⟨hsuffix, hsuffix.length_le, by simp [rise_dropWhile hclass]⟩
  · intro s place hs
    cases hs

theorem takes_takeWhile1 : Takes 1 0 (takeWhile1 class') := by
  constructor
  · intro s cs r hs
    rw [takeWhile1] at hs
    split at hs
    · cases hs
    · rename_i hne
      cases hs
      refine ⟨List.dropWhile_suffix class', ?_, by simp [rise_dropWhile hclass]⟩
      have hlength : (s.takeWhile class').length + (s.dropWhile class').length = s.length := by
        rw [← List.length_append, List.takeWhile_append_dropWhile]
      have hpos : 0 < (s.takeWhile class').length := List.length_pos_iff.2 (by simpa using hne)
      omega
  · intro s place hs
    rw [takeWhile1] at hs
    split at hs <;> cases hs
    exact List.suffix_rfl

end Classes

theorem takes_notNext (class' : Char → Bool) : Takes 0 0 (notNext class') := by
  constructor
  · intro s u r hs
    rw [notNext.eq_def] at hs
    split at hs
    · split at hs <;> cases hs
      exact .refl _
    · cases hs
      exact .refl _
  · intro s place hs
    rw [notNext.eq_def] at hs
    split at hs
    · split at hs <;> cases hs
      exact List.suffix_rfl
    · cases hs

end Parser

open DocQuery.Parser

namespace Token

variable {w : String} {others s r : List Char}

theorem takes_gap : Takes 0 0 gap := by
  constructor
  · intro s u r hs
    cases hs
    have hsuffix : skipGap s <:+ s := List.dropWhile_suffix _
    exact ⟨hsuffix, hsuffix.length_le, by simp [rise_skipGap]⟩
  · intro s place hs
    cases hs

theorem ne_nil_of_isUnmarked (hw : isUnmarked w = true) : w.toList ≠ [] := by
  rw [isUnmarked, Bool.and_eq_true] at hw
  simpa using hw.1

theorem not_mem_marks_of_isUnmarked (hw : isUnmarked w = true) : ∀ c ∈ w.toList, c ∉ marks := by
  rw [isUnmarked, Bool.and_eq_true, List.all_eq_true] at hw
  intro c hc
  simpa using hw.2 c hc

theorem takes_word (hw : isUnmarked w = true) : Takes 1 0 (word w) := by
  constructor
  · intro s u r hs
    rw [word] at hs
    split at hs
    · rename_i rest hrest
      cases hs
      cases eq_append_of_after? hrest
      have hpos : 0 < w.toList.length := List.length_pos_iff.2 (ne_nil_of_isUnmarked hw)
      refine ⟨List.suffix_append _ _, ?_, ?_⟩
      · rw [List.length_append]
        omega
      · simp [rise_append (not_mem_marks_of_isUnmarked hw)]
    · cases hs
  · intro s place hs
    rw [word] at hs
    split at hs <;> cases hs
    exact List.suffix_rfl

theorem takes_keyword (hw : isUnmarked w = true) : Takes 1 0 (keyword w) :=
  takes_gap.after fun _ => (takes_word hw).bind fun _ => takes_notNext _

theorem takes_operator (hw : isUnmarked w = true) : Takes 1 0 (operator w others) :=
  (takes_gap.after fun _ => takes_word hw).refine

theorem takes_identifier : Takes 1 0 identifier :=
  takes_gap.after fun _ => (takes_satisfy (by decide)).bind fun _ =>
    (takes_takeWhile (by decide)).bind fun _ => takes_pure _

theorem takes_name : Takes 1 0 name := takes_identifier.refine

theorem takes_mantissa : Takes 1 0 mantissa := by
  have hdigits : Takes 1 0 (takeWhile1 Char.isDigit) := takes_takeWhile1 (by decide)
  have hmore : Takes 0 0 (takeWhile Char.isDigit) := takes_takeWhile (by decide)
  have hpoint : Takes 1 0 (satisfy (· == '.')) := takes_satisfy (by decide)
  refine .orElse ?_ ?_
  · exact hdigits.bind fun _ => (hpoint.bind fun _ => hmore).opt.bind fun _ => takes_pure _
  · exact hpoint.bind fun _ => hdigits.any.bind fun _ => takes_pure _

theorem takes_exponent : Takes 1 0 exponent :=
  (takes_satisfy (by decide)).bind fun _ => (takes_satisfy (by decide)).opt.bind fun _ =>
    (takes_takeWhile1 (by decide)).any.bind fun _ => takes_pure _

theorem takes_number : Takes 1 0 number :=
  (takes_gap.after fun _ => takes_mantissa.bind fun _ =>
    takes_exponent.opt.bind fun _ => takes_pure _).refine

/-- The body of a string ends behind its quote, whatever is in it. -/
theorem taken_stringBody {quote : Char} {raw : Bool} {cs : List Char}
    (h : stringBody quote raw s = some (cs, r)) :
    r <:+ s ∧ r.length < s.length ∧ rise (.string quote) s = rise .outside r := by
  induction hn : s.length using Nat.strong_induction_on generalizing s cs with
  | _ n ih =>
    subst hn
    cases s with
    | nil => cases h
    | cons c s =>
      rw [stringBody.eq_def] at h
      dsimp only at h
      split at h
      · rename_i hc
        cases h
        exact ⟨List.suffix_cons _ _, by simp, by simp [rise, hc]⟩
      rename_i hc
      split at h
      · cases h
      split at h
      · rename_i hback
        cases s with
        | nil => cases h
        | cons d s =>
          obtain ⟨x, hx, hr⟩ := Option.map_eq_some_iff.1 h
          cases hr
          obtain ⟨hsuffix, hlength, hrise⟩ := ih s.length (by simp) hx rfl
          refine ⟨hsuffix.trans ((List.suffix_cons d s).trans (List.suffix_cons c _)), ?_, ?_⟩
          · simp only [List.length_cons]
            omega
          · subst hback
            simp [rise, hc, hrise]
      · rename_i hback
        obtain ⟨x, hx, hr⟩ := Option.map_eq_some_iff.1 h
        cases hr
        obtain ⟨hsuffix, hlength, hrise⟩ := ih s.length (by simp) hx rfl
        refine ⟨hsuffix.trans (List.suffix_cons c s), ?_, ?_⟩
        · simp only [List.length_cons]
          omega
        · simp [rise, hc, hback, hrise]

/-- A string from its quote on. -/
def quotedBody (raw : Bool) : Parser String
  | [] => .error []
  | quote :: body =>
    if quote == '\'' || quote == '"' then
      match stringBody quote raw body with
      | some found => .ok (String.ofList found.1) found.2
      | none => .error (quote :: body)
    else .error (quote :: body)

/-- Whether a character may stand in front of the quote of a string. -/
def isStringMark (c : Char) : Bool := c == 'r' || c == 'R' || c == 'u' || c == 'U'

theorem stringPiece_eq : stringPiece = (do
    gap
    let mark ← opt (satisfy isStringMark)
    quotedBody (mark = some 'r' || mark = some 'R')) := by
  unfold stringPiece
  congr 1
  funext _
  congr 1
  funext mark s
  cases s with
  | nil => rfl
  | cons quote body =>
    dsimp only [quotedBody]
    cases stringBody quote (mark = some 'r' || mark = some 'R') body <;> rfl

theorem takes_quotedBody (raw : Bool) : Takes 1 0 (quotedBody raw) := by
  constructor
  · intro s v r hs
    cases s with
    | nil => cases hs
    | cons quote body =>
      rw [quotedBody] at hs
      split at hs
      · rename_i hquote
        split at hs
        · rename_i found hbody
          cases hs
          obtain ⟨hsuffix, hlength, hrise⟩ := taken_stringBody hbody
          refine ⟨hsuffix.trans (List.suffix_cons _ _), by simpa using hlength.le, ?_⟩
          rw [← hrise]
          simp only [Bool.or_eq_true, beq_iff_eq] at hquote
          rcases hquote with rfl | rfl <;> simp [rise]
        · cases hs
      · cases hs
  · intro s place hs
    cases s with
    | nil =>
      cases hs
      exact List.suffix_rfl
    | cons quote body =>
      rw [quotedBody] at hs
      split at hs
      · split at hs <;> cases hs
        exact List.suffix_rfl
      · cases hs
        exact List.suffix_rfl

theorem takes_stringPiece : Takes 1 0 stringPiece := by
  rw [stringPiece_eq]
  exact takes_gap.after fun _ => (takes_satisfy (by decide)).opt.after fun _ => takes_quotedBody _

/-! ## Parentheses -/

theorem skipGap_of_symbol {u : Unit} (h : symbol w s = .ok u r) : skipGap s = w.toList ++ r := by
  rw [symbol, operator_apply] at h
  split at h
  · split at h <;> cases h
    exact eq_append_of_after? ‹_›
  · cases h

theorem suffix_of_symbol_error {place : List Char} (h : symbol w s = .error place) :
    place <:+ s := by
  rw [symbol, operator_apply] at h
  split at h
  · split at h <;> cases h
    exact List.suffix_rfl
  · cases h
    exact List.dropWhile_suffix _

theorem takes_close : Takes 1 1 (symbol ")") := by
  refine ⟨fun s u r hs => ?_, fun s place => suffix_of_symbol_error⟩
  have hskip : skipGap s = ')' :: r := skipGap_of_symbol hs
  have hsuffix : ')' :: r <:+ s := hskip ▸ List.dropWhile_suffix _
  refine ⟨(List.suffix_cons _ _).trans hsuffix, hsuffix.length_le, ?_⟩
  rw [← rise_skipGap s, hskip]
  simp [rise]

theorem taken_open {u : Unit} (h : symbol "(" s = .ok u r) :
    '(' :: r <:+ s ∧ rise .outside s = rise .outside r + 1 := by
  have hskip : skipGap s = '(' :: r := skipGap_of_symbol h
  refine ⟨hskip ▸ List.dropWhile_suffix _, ?_⟩
  rw [← rise_skipGap s, hskip]
  simp [rise]

/-- What closes one parenthesis more than it opens, behind an opening one. -/
theorem takes_open {α : Type} {f : Unit → Parser α} (hf : ∀ u, Takes 0 1 (f u)) :
    Takes 1 0 (symbol "(" >>= f) := by
  constructor
  · intro s a t hs
    rw [bind_apply] at hs
    split at hs
    · rename_i u r hu
      obtain ⟨hsuffix, hrise⟩ := taken_open hu
      have htaken := (hf u).ok hs
      have hlength := hsuffix.length_le
      refine ⟨htaken.suffix.trans ((List.suffix_cons _ _).trans hsuffix), ?_, ?_⟩
      · have := htaken.length
        simp only [List.length_cons] at hlength
        omega
      · have := htaken.rise
        push_cast at this ⊢
        omega
    · cases hs
  · intro s place hs
    rw [bind_apply] at hs
    split at hs
    · rename_i u r hu
      exact ((hf u).error hs).trans ((List.suffix_cons _ _).trans (taken_open hu).1)
    · cases hs
      exact suffix_of_symbol_error ‹_›

end Token

/-! ## Phrases -/

/-- The inner parsers of a grammar take at least one character, and close what they open. -/
structure Grammar.Inner (g : Grammar) : Prop where
  expression : Takes 1 0 g.expression
  orTest : Takes 1 0 g.orTest
  notTest : Takes 1 0 g.notTest
  factor : Takes 1 0 g.factor

/-- What is put together takes what its shape says. -/
theorem Built.takes {g : Grammar} (hg : g.Inner) {i : Bool} {m k : Nat} {α : Type}
    {P : Grammar → Parser α} (h : Built i m k P) : Takes m k (P g) := by
  induction h with
  | pure a => exact takes_pure _
  | fail => exact takes_fail _ _
  | name => exact takes_name
  | number => exact takes_number
  | stringPiece => exact takes_stringPiece
  | keyword w hw => exact takes_keyword hw
  | operator w others hw hothers => exact takes_operator hw
  | expression => exact hg.expression
  | orTest => exact hg.orTest
  | notTest => exact hg.notTest
  | factor => exact hg.factor
  | any _ ih => exact ih.any
  | bind _ _ ih ihf => exact ih.bind ihf
  | after _ _ ih ihf => exact ih.after ihf
  | opening _ ihf => exact takes_open ihf
  | closing _ ihf => exact takes_close.append ihf
  | orElse _ _ ihp ihq => exact ihp.orElse ihq
  | opt _ ih => exact ih.opt
  | optBind _ _ _ ih ihsome ihnone => exact ih.optBind ihsome ihnone
  | many _ ih => exact ih.many

/-- However often the grammar is unrolled, its parsers take at least one character. -/
theorem inner_grammar (n : Nat) : (grammar n).Inner := by
  induction n with
  | zero => exact ⟨takes_fail 1 0, takes_fail 1 0, takes_fail 1 0, takes_fail 1 0⟩
  | succ n ih =>
    have hlevel : ∀ L : Level, Takes 1 0 (L.parser (grammar n)) := fun L =>
      (Grammar.built_level (i := true) L).takes ih
    exact ⟨hlevel .expression, hlevel .disjunction, hlevel .negation, hlevel .signed⟩

/-! ## Going ahead -/

namespace Parser

variable {α : Type} {p : Parser α} {k : Nat}

/-- Where the parser succeeds, it leaves a shorter end of its text, and where it fails, it does so
somewhere in the text. -/
structure Advances (p : Parser α) : Prop where
  ok : ∀ ⦃s a rest⦄, p s = .ok a rest → rest <:+ s ∧ rest.length < s.length
  error : ∀ ⦃s place⦄, p s = .error place → place <:+ s

theorem Takes.advances (h : Takes 1 k p) : Advances p :=
  ⟨fun _ _ _ hs => ⟨(h.ok hs).suffix, (h.ok hs).length⟩, h.error⟩

/-- A parser that goes ahead reads one value after the other until it fails. -/
theorem Advances.exists_steps (h : Advances p) (s : List Char) :
    ∃ as rest, Steps p as s rest ∧ Fails p rest := by
  induction hn : s.length using Nat.strong_induction_on generalizing s with
  | _ n ih =>
    subst hn
    cases hs : p s with
    | error place => exact ⟨[], s, .done s, place, hs⟩
    | ok a r =>
      have hshorter := (h.ok hs).2
      obtain ⟨as, rest, hsteps, hfails⟩ := ih r.length hshorter r rfl
      exact ⟨a :: as, rest, .more hs hshorter hsteps, hfails⟩

/-- Items between separators can always be read: none of them, with the whole text left, or some, with
a shorter end of it. -/
theorem Advances.exists_sepBy {β : Type} {sep : Parser β} (h : Advances (sepBy1 p sep)) (s : List Char) :
    ∃ as rest, sepBy p sep s = .ok as rest ∧
      (as = [] ∧ rest = s ∨ as ≠ [] ∧ rest <:+ s ∧ rest.length < s.length) := by
  cases hs : sepBy1 p sep s with
  | ok as rest =>
    have hitems : as ≠ [] := ((Ensures.trivial p).sepBy1 sep hs).1
    refine ⟨as, rest, ?_, .inr ⟨hitems, h.ok hs⟩⟩
    rw [sepBy, bind_ok (opt_ok hs)]
    rfl
  | error place =>
    refine ⟨[], s, ?_, .inl ⟨rfl, rfl⟩⟩
    rw [sepBy, bind_ok (opt_of_fails ⟨place, hs⟩)]
    rfl

end Parser

/-- The phrases of a grammar go ahead. -/
structure Grammar.Advancing (g : Grammar) : Prop where
  level : ∀ L : Level, Advances (L.parser g)
  lambda : Advances g.lambda
  parameter : Advances g.parameter
  /-- A list of parameters may be empty, and then nothing is taken. So it can always be read. -/
  parameters : ∀ s, ∃ ps rest, g.parameters s = .ok ps rest ∧
    (ps = [] ∧ rest = s ∨ ps ≠ [] ∧ rest <:+ s ∧ rest.length < s.length)
  conditional : Advances g.conditional
  cmpOp : Advances Grammar.cmpOp
  sign : Advances Grammar.sign
  trailer : Advances g.trailer
  argument : Advances g.argument
  arguments : Advances g.arguments
  subscript : Advances g.subscript
  sliceItem : Advances g.sliceItem
  clause : Advances g.clause
  clauses : Advances g.clauses
  paren : Advances g.paren
  bracket : Advances g.bracket
  brace : Advances g.brace
  number : Advances Token.number
  stringLiteral : Advances Token.stringLiteral
  stringPiece : Advances Token.stringPiece

theorem Grammar.Inner.advancing {g : Grammar} (hg : g.Inner) : g.Advancing := by
  have hbuilt : ∀ {α : Type} {P : Grammar → Parser α}, Built true 1 0 P → Advances (P g) :=
    fun h => (h.takes hg).advances
  exact {
    level := fun L => hbuilt (built_level L)
    lambda := hbuilt built_lambda
    parameter := hbuilt built_parameter
    parameters := (hbuilt (.sepBy1 built_parameter .comma)).exists_sepBy
    conditional := hbuilt built_conditional
    cmpOp := hbuilt built_cmpOp
    sign := hbuilt built_sign
    trailer := hbuilt built_trailer
    argument := hbuilt built_argument
    arguments := hbuilt built_arguments
    subscript := hbuilt built_subscript
    sliceItem := hbuilt built_sliceItem
    clause := hbuilt built_clause
    clauses := hbuilt built_clauses
    paren := hbuilt built_paren
    bracket := hbuilt built_bracket
    brace := hbuilt built_brace
    number := hbuilt .number
    stringLiteral := hbuilt built_stringLiteral
    stringPiece := hbuilt .stringPiece }

/-! ## Places of failures -/

/-- The place of an end of a text is where the bytes of that end start. -/
theorem bytePosition_of_suffix {s rest : List Char} (h : rest <:+ s) :
    bytePosition s rest ≤ (String.ofList s).utf8ByteSize ∧
      (String.ofList s).toUTF8.extract (bytePosition s rest) (String.ofList s).utf8ByteSize =
        (String.ofList rest).toUTF8 := by
  obtain ⟨front, rfl⟩ := h
  have hposition : bytePosition (front ++ rest) rest = (String.ofList front).utf8ByteSize := by
    rw [bytePosition, String.ofList_append, String.utf8ByteSize_append]
    omega
  rw [hposition, String.ofList_append, String.utf8ByteSize_append,
    String.toUTF8_eq_toByteArray, String.toUTF8_eq_toByteArray, String.toByteArray_append]
  refine ⟨Nat.le_add_right _ _, ByteArray.extract_append_eq_right ?_ ?_⟩
  · rw [String.size_toByteArray]
  · rw [String.size_toByteArray, String.size_toByteArray]

/-- A text that cannot be read is reported with an end of it and the place of that end. -/
theorem exists_suffix_of_parse_error {text : String} {e : Error} (h : Expr.parse text = .error e) :
    ∃ rest : List Char, rest <:+ text.toList ∧
      (e = .unparseable text
          (.unexpected (bytePosition text.toList rest) (String.ofList rest)) ∨
        e = .unparseable text
          (.trailing (bytePosition text.toList rest) (String.ofList rest))) := by
  have hreader : Takes 1 0 (grammar (text.toList.length + 1)).expression :=
    (inner_grammar _).expression
  have htrim : ∀ {r : List Char}, r <:+ text.toList → Text.trimStart r <:+ text.toList :=
    fun h => (List.dropWhile_suffix _).trans h
  rw [Expr.parse] at h
  dsimp only at h
  split at h
  · rename_i value r hr
    split at h
    · cases h
    · cases h
      exact ⟨_, htrim (hreader.ok hr).suffix, .inr rfl⟩
  · rename_i place hplace
    cases h
    exact ⟨_, htrim (hreader.error hplace), .inl rfl⟩

/-- A list without parameters takes nothing of the text, as the one in front of the colon here. -/
theorem parameters_not_advancing :
    Expr.parse "lambda: x" = .ok (.lambda [] none none (.name "x")) ∧
      (grammar 10).parameters ": x".toList = .ok [] ": x".toList ∧
      ¬ Advances (grammar 10).parameters := by
  have hnone : (grammar 10).parameters ": x".toList = .ok [] ": x".toList := by cbv
  refine ⟨by cbv, hnone, fun h => ?_⟩
  exact Nat.lt_irrefl _ (h.ok hnone).2

/-- Every phrase of the grammar leaves a shorter end of its text, or fails somewhere in the text; but a
list of parameters, which may be empty, takes nothing then. So a repetition goes on until its item
cannot be read. And a text that is refused is reported with the place of an end of it, in bytes, and
with that end. -/
theorem advances_grammar :
    (∀ n, (grammar n).Advancing) ∧
    (∀ {α : Type} (p : Parser α), Advances p → ∀ s, ∃ as rest,
      many p s = .ok as rest ∧ Steps p as s rest ∧ Fails p rest) ∧
    ∀ (text : String) (e : Error), Expr.parse text = .error e → ∃ position rest,
      (e = .unparseable text (.unexpected position rest) ∨
        e = .unparseable text (.trailing position rest)) ∧
      position ≤ text.utf8ByteSize ∧
      text.toUTF8.extract position text.utf8ByteSize = rest.toUTF8 := by
  refine ⟨fun n => (inner_grammar n).advancing, fun p hp s => ?_, fun text e h => ?_⟩
  · obtain ⟨as, rest, hsteps, hfails⟩ := hp.exists_steps s
    exact ⟨as, rest, many_of_steps hsteps hfails, hsteps, hfails⟩
  · obtain ⟨rest, hsuffix, he⟩ := exists_suffix_of_parse_error h
    have hplace := bytePosition_of_suffix hsuffix
    rw [String.ofList_toList] at hplace
    exact ⟨_, _, he, hplace⟩

/-- Two pieces of a string are read before a name, and a closing parenthesis behind a string with a
letter of two bytes is reported at its byte. -/
theorem advances_grammar_strings :
    (∃ as rest, many stringPiece "'a' 'b' c".toList = .ok as rest ∧
      Steps stringPiece as "'a' 'b' c".toList rest ∧ Fails stringPiece rest) ∧
    ∃ position rest,
      (Error.unparseable "'é' )" (.trailing 5 ")") =
          .unparseable "'é' )" (.unexpected position rest) ∨
        Error.unparseable "'é' )" (.trailing 5 ")") =
          .unparseable "'é' )" (.trailing position rest)) ∧
      position ≤ "'é' )".utf8ByteSize ∧
      "'é' )".toUTF8.extract position "'é' )".utf8ByteSize = rest.toUTF8 := by
  have hparse : Expr.parse "'é' )" = .error (.unparseable "'é' )" (.trailing 5 ")")) := by cbv
  exact ⟨advances_grammar.2.1 stringPiece (advances_grammar.1 0).stringPiece _,
    advances_grammar.2.2 _ _ hparse⟩

end DocQuery
