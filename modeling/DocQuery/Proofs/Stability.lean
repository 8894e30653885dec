import DocQuery.Proofs.Consumption

/-! # Texts in front of a closing parenthesis

What is read at the start of a text stays the same when a closing parenthesis is put behind the
text, as long as all parentheses of the text are closed in it. A parser that looks for a closing
parenthesis then finds it in the text, and no other token takes one up. It stays the same as well
when the grammar is unrolled more often than the text is long.

* `Parser.Stable tail D p q`: on the texts in `D`, `p` reads what `q` reads in front of `tail`.
* `Built.stable`: what is put together from stable parts is stable.
* `stable_expression`: an expression is read alike, with more rounds and in front of `tail`.
-/

set_option autoImplicit false

namespace DocQuery

/-! ## Endings -/

/-- Nothing, or a closing parenthesis. -/
inductive Text.Ending : List Char → Prop
  | none : Ending []
  | close : Ending [')']

open Text Token DocQuery.Parser

namespace Text.Ending

variable {tail : List Char} {class' : Char → Bool}

theorem dropWhile (h : Ending tail) (hclass : class' ')' = false) (s : List Char) :
    (s ++ tail).dropWhile class' = s.dropWhile class' ++ tail := by
  induction s with
  | nil => cases h <;> simp [hclass]
  | cons c s ih => cases hc : class' c <;> simp [hc, ih]

theorem takeWhile (h : Ending tail) (hclass : class' ')' = false) (s : List Char) :
    (s ++ tail).takeWhile class' = s.takeWhile class' := by
  induction s with
  | nil => cases h <;> simp [hclass]
  | cons c s ih => cases hc : class' c <;> simp [hc, ih]

theorem skipGap (h : Ending tail) (s : List Char) :
    Text.skipGap (s ++ tail) = Text.skipGap s ++ tail :=
  h.dropWhile (by decide) s

theorem after? (h : Ending tail) {w : List Char} (hw : ')' ∉ w) (s : List Char) :
    Text.after? w (s ++ tail) = (Text.after? w s).map (· ++ tail) := by
  induction w generalizing s with
  | nil => simp [Text.after?]
  | cons c w ih =>
    obtain ⟨hc, hw⟩ := not_or.1 (List.mem_cons.not.1 hw)
    cases s with
    | nil => cases h <;> simp [Text.after?, Ne.symm hc]
    | cons d s =>
      simp only [List.cons_append, Text.after?]
      split
      · exact ih hw s
      · rfl

theorem startsWithAny (h : Ending tail) {others : List Char} (hothers : others.contains ')' = false)
    (s : List Char) : Token.startsWithAny others (s ++ tail) = Token.startsWithAny others s := by
  cases s with
  | nil =>
    cases h with
    | none => rfl
    | close => exact hothers
  | cons c s => rfl

/-- A string ends at its own quote, not in the ending of the text. -/
theorem stringBody (h : Ending tail) {quote : Char} (hquote : quote ≠ ')') (raw : Bool)
    (s : List Char) : Token.stringBody quote raw (s ++ tail) =
      (Token.stringBody quote raw s).map fun found => (found.1, found.2 ++ tail) := by
  induction hn : s.length using Nat.strong_induction_on generalizing s with
  | _ n ih =>
    subst hn
    cases s with
    | nil => cases h <;> simp [Token.stringBody, Ne.symm hquote]
    | cons c s =>
      rw [List.cons_append, Token.stringBody.eq_def, Token.stringBody.eq_def quote raw (c :: s)]
      dsimp only
      by_cases hc : c = quote
      · simp only [if_pos hc, Option.map_some]
      by_cases hline : c = '\n'
      · simp only [if_neg hc, if_pos hline, Option.map_none]
      by_cases hback : c = '\\'
      · simp only [if_neg hc, if_neg hline, if_pos hback]
        cases s with
        | nil => cases h <;> simp [Token.stringBody]
        | cons d s =>
          have hrest := ih s.length (by simp) s rfl
          simp [hrest, Function.comp_def]
      · have hrest := ih s.length (by simp) s rfl
        simp [hc, hline, hback, hrest, Function.comp_def]

end Text.Ending

/-! ## Stable parsers -/

namespace Parser

variable {α β : Type} {tail : List Char} {D E : List Char → Prop} {p q p' q' : Parser α}

/-- On the texts in `D`, the parsers fail both, or they read the same value and leave the same rest
in front of `tail`. -/
def Stable (tail : List Char) (D : List Char → Prop) (p q : Parser α) : Prop :=
  ∀ ⦃s⦄, D s → (∃ a r, p s = .ok a r ∧ q (s ++ tail) = .ok a (r ++ tail)) ∨
    (Fails p s ∧ Fails q (s ++ tail))

theorem Stable.mono (h : Stable tail D p q) (hD : ∀ ⦃s⦄, E s → D s) : Stable tail E p q :=
  fun _ hs => h (hD hs)

theorem stable_pure (a : α) : Stable tail D (Pure.pure a : Parser α) (Pure.pure a) :=
  fun s _ => .inl ⟨a, s, rfl, rfl⟩

theorem stable_fail : Stable tail D (fail : Parser α) fail :=
  fun s _ => .inr ⟨⟨s, rfl⟩, ⟨s ++ tail, rfl⟩⟩

/-- What follows must be stable on the texts that the first part leaves. -/
theorem Stable.bind {f g : α → Parser β} (h : Stable tail D p q)
    (hf : ∀ a, Stable tail E (f a) (g a)) (hDE : ∀ ⦃s a r⦄, D s → p s = .ok a r → E r) :
    Stable tail D (p >>= f) (q >>= g) := by
  intro s hs
  rcases h hs with ⟨a, r, hp, hq⟩ | ⟨hp, hq⟩
  · rcases hf a (hDE hs hp) with ⟨b, t, hfb, hgb⟩ | ⟨hfb, hgb⟩
    · exact .inl ⟨b, t, by rw [bind_ok hp, hfb], by rw [bind_ok hq, hgb]⟩
    · exact .inr ⟨fails_bind_ok hp hfb, fails_bind_ok hq hgb⟩
  · exact .inr ⟨fails_bind hp _, fails_bind hq _⟩

/-- Where what follows is stable on all texts, nothing is asked of them. -/
theorem Stable.next {f g : α → Parser β} (h : Stable tail D p q)
    (hf : ∀ a, Stable tail (fun _ => True) (f a) (g a)) : Stable tail D (p >>= f) (q >>= g) :=
  h.bind hf fun _ _ _ _ _ => True.intro

theorem Stable.orElse (h : Stable tail D p q) (h' : Stable tail D p' q') :
    Stable tail D (p <|> p') (q <|> q') := by
  intro s hs
  rcases h hs with ⟨a, r, hp, hq⟩ | ⟨hp, hq⟩
  · exact .inl ⟨a, r, orElse_ok hp, orElse_ok hq⟩
  · rcases h' hs with ⟨a, r, hp', hq'⟩ | ⟨hp', hq'⟩
    · exact .inl ⟨a, r, by rw [orElse_of_fails hp, hp'], by rw [orElse_of_fails hq, hq']⟩
    · exact .inr ⟨fails_orElse hp hp', fails_orElse hq hq'⟩

theorem Stable.opt (h : Stable tail D p q) : Stable tail D (opt p) (opt q) := by
  intro s hs
  rcases h hs with ⟨a, r, hp, hq⟩ | ⟨hp, hq⟩
  · exact .inl ⟨some a, r, opt_ok hp, opt_ok hq⟩
  · exact .inl ⟨none, s, opt_of_fails hp, opt_of_fails hq⟩

theorem Stable.refine {check : α → List Char → Option β} (h : Stable tail D p q)
    (hcheck : ∀ a r, check a (r ++ tail) = check a r) :
    Stable tail D (refine p check) (refine q check) := by
  intro s hs
  rcases h hs with ⟨a, r, hp, hq⟩ | ⟨hp, hq⟩
  · cases hc : check a r with
    | some b => exact .inl ⟨b, r, refine_ok hp hc, refine_ok hq (by rw [hcheck, hc])⟩
    | none => exact .inr ⟨fails_refine_none hp hc, fails_refine_none hq (by rw [hcheck, hc])⟩
  · exact .inr ⟨fails_refine hp _, fails_refine hq _⟩

/-- One reading after the other is the same in front of `tail`. -/
theorem Stable.steps (h : Stable tail D p q) (hD : ∀ ⦃s a r⦄, D s → p s = .ok a r → D r)
    {as : List α} {s r : List Char} (run : Steps p as s r) (hs : D s) :
    Steps q as (s ++ tail) (r ++ tail) ∧ D r := by
  induction run with
  | done s => exact ⟨.done _, hs⟩
  | more hp shorter _ ih =>
    obtain ⟨hsteps, hr⟩ := ih (hD hs hp)
    rcases h hs with ⟨a, r, hp', hq⟩ | ⟨⟨place, hp'⟩, -⟩
    · rw [hp] at hp'
      cases hp'
      refine ⟨.more hq ?_ hsteps, hr⟩
      simp only [List.length_append]
      omega
    · rw [hp] at hp'
      cases hp'

theorem Stable.many (h : Stable tail D p q) (hadvances : Advances p)
    (hD : ∀ ⦃s a r⦄, D s → p s = .ok a r → D r) : Stable tail D (many p) (many q) := by
  intro s hs
  obtain ⟨as, r, run, hfails⟩ := hadvances.exists_steps s
  obtain ⟨run', hr⟩ := h.steps hD run hs
  rcases h hr with ⟨a, t, hp, -⟩ | ⟨-, hfails'⟩
  · obtain ⟨place, hfails⟩ := hfails
    rw [hp] at hfails
    cases hfails
  · exact .inl ⟨as, r, many_of_steps run hfails, many_of_steps run' hfails'⟩

end Parser

/-! ## Tokens -/

namespace Token

variable {tail : List Char} {D : List Char → Prop} {class' : Char → Bool} {w : String}

section Classes

variable (htail : Ending tail) (hclass : class' ')' = false)
include htail hclass

theorem stable_satisfy : Stable tail D (satisfy class') (satisfy class') := by
  intro s _
  cases s with
  | nil =>
    refine .inr ⟨⟨[], rfl⟩, ?_⟩
    cases htail with
    | none => exact ⟨[], rfl⟩
    | close => exact ⟨[')'], by simp [satisfy, hclass]⟩
  | cons c s =>
    cases hc : class' c with
    | true => exact .inl ⟨c, s, by simp [satisfy, hc], by simp [satisfy, hc]⟩
    | false => exact .inr ⟨⟨c :: s, by simp [satisfy, hc]⟩, c :: s ++ tail, by simp [satisfy, hc]⟩

theorem stable_takeWhile : Stable tail D (takeWhile class') (takeWhile class') := fun s _ =>
  .inl ⟨_, _, rfl, by rw [Parser.takeWhile, htail.takeWhile hclass, htail.dropWhile hclass]⟩

theorem stable_takeWhile1 : Stable tail D (takeWhile1 class') (takeWhile1 class') := by
  intro s _
  cases hs : (s.takeWhile class').isEmpty with
  | true =>
    refine .inr ⟨⟨s, by simp [takeWhile1, hs]⟩, s ++ tail, ?_⟩
    simp [takeWhile1, htail.takeWhile hclass, hs]
  | false =>
    refine .inl ⟨s.takeWhile class', s.dropWhile class', by simp [takeWhile1, hs], ?_⟩
    simp [takeWhile1, htail.takeWhile hclass, htail.dropWhile hclass, hs]

theorem stable_notNext : Stable tail D (notNext class') (notNext class') := by
  intro s _
  cases s with
  | nil =>
    refine .inl ⟨(), [], rfl, ?_⟩
    cases htail with
    | none => rfl
    | close => simp [notNext, hclass]
  | cons c s =>
    cases hc : class' c with
    | true => exact .inr ⟨⟨c :: s, by simp [notNext, hc]⟩, c :: s ++ tail, by simp [notNext, hc]⟩
    | false => exact .inl ⟨(), c :: s, by simp [notNext, hc], by simp [notNext, hc]⟩

end Classes

section Words

variable (htail : Ending tail)
include htail

theorem stable_gap : Stable tail D gap gap := fun s _ =>
  .inl ⟨(), skipGap s, rfl, by rw [gap, htail.skipGap]⟩

theorem stable_word (hw : ')' ∉ w.toList) : Stable tail D (word w) (word w) := by
  intro s _
  have happend := htail.after? hw s
  cases hs : after? w.toList s with
  | some r =>
    rw [hs] at happend
    exact .inl ⟨(), r, by rw [word, hs], by rw [word, happend]; rfl⟩
  | none =>
    rw [hs] at happend
    exact .inr ⟨⟨s, by rw [word, hs]⟩, s ++ tail, by rw [word, happend]; rfl⟩

theorem stable_keyword (hw : ')' ∉ w.toList) : Stable tail D (keyword w) (keyword w) :=
  (stable_gap htail).next fun _ => (stable_word htail hw).next fun _ =>
    stable_notNext htail (by decide)

theorem stable_operator (hw : ')' ∉ w.toList) {others : List Char}
    (hothers : others.contains ')' = false) :
    Stable tail D (operator w others) (operator w others) :=
  ((stable_gap htail).next fun _ => stable_word htail hw).refine fun _ r => by
    rw [htail.startsWithAny hothers]

theorem stable_name : Stable tail D name name :=
  ((stable_gap htail).next fun _ => (stable_satisfy htail (by decide)).next fun _ =>
    (stable_takeWhile htail (by decide)).next fun _ => stable_pure _).refine fun _ _ => rfl

theorem stable_mantissa : Stable tail D mantissa mantissa := by
  refine .orElse ?_ ?_
  · exact (stable_takeWhile1 htail (by decide)).next fun _ =>
      ((stable_satisfy htail (by decide)).next fun _ =>
        stable_takeWhile htail (by decide)).opt.next fun _ => stable_pure _
  · exact (stable_satisfy htail (by decide)).next fun _ =>
      (stable_takeWhile1 htail (by decide)).next fun _ => stable_pure _

theorem stable_exponent : Stable tail D exponent exponent :=
  (stable_satisfy htail (by decide)).next fun _ =>
    (stable_satisfy htail (by decide)).opt.next fun _ =>
      (stable_takeWhile1 htail (by decide)).next fun _ => stable_pure _

theorem stable_number : Stable tail D number number := by
  refine Stable.refine ((stable_gap htail).next fun _ => (stable_mantissa htail).next fun _ =>
    (stable_exponent htail).opt.next fun _ => stable_pure _) fun n r => ?_
  cases r with
  | nil =>
    cases htail with
    | none => rfl
    | close => exact if_neg (by decide)
  | cons c r => rfl

theorem stable_quotedBody (raw : Bool) : Stable tail D (quotedBody raw) (quotedBody raw) := by
  intro s _
  cases s with
  | nil => exact .inr ⟨⟨[], rfl⟩, by cases htail <;> exact ⟨_, rfl⟩⟩
  | cons quote body =>
    cases hquote : quote == '\'' || quote == '"' with
    | false =>
      exact .inr ⟨⟨quote :: body, by simp [quotedBody, hquote]⟩, quote :: body ++ tail,
        by simp [quotedBody, hquote]⟩
    | true =>
      have hne : quote ≠ ')' := by
        rintro rfl
        cases hquote
      have happend := htail.stringBody hne raw body
      cases hbody : stringBody quote raw body with
      | some found =>
        rw [hbody] at happend
        refine .inl ⟨String.ofList found.1, found.2, by simp [quotedBody, hquote, hbody], ?_⟩
        simp [quotedBody, hquote, happend]
      | none =>
        rw [hbody] at happend
        exact .inr ⟨⟨quote :: body, by simp [quotedBody, hquote, hbody]⟩, quote :: body ++ tail,
          by simp [quotedBody, hquote, happend]⟩

theorem stable_stringPiece : Stable tail D stringPiece stringPiece := by
  rw [stringPiece_eq]
  exact (stable_gap htail).next fun _ => (stable_satisfy htail (by decide)).opt.next fun _ =>
    stable_quotedBody htail _

/-- In a text that closes more parentheses than it opens, one that closes is found in the text. -/
theorem stable_close (hD : ∀ ⦃s⦄, D s → rise .outside s < 0) :
    Stable tail D (symbol ")") (symbol ")") := by
  intro s hs
  cases hskip : skipGap s with
  | nil =>
    have hrise := hD hs
    rw [← rise_skipGap, hskip] at hrise
    cases hrise
  | cons c r =>
    have happend : skipGap (s ++ tail) = c :: (r ++ tail) := by rw [htail.skipGap, hskip]; rfl
    by_cases hc : ')' = c
    · refine .inl ⟨(), r, symbol_ok ?_, symbol_ok ?_⟩
      · rw [hskip]
        exact if_pos hc
      · rw [happend]
        exact if_pos hc
    · refine .inr ⟨operator_fails ?_, operator_fails ?_⟩
      · rw [hskip]
        exact if_neg hc
      · rw [happend]
        exact if_neg hc

end Words

end Token

/-! ## Phrases -/

/-- The texts of fewer than `n` characters that close at least `k` more parentheses than they
open. -/
def Text.Within (n k : Nat) (s : List Char) : Prop := s.length < n ∧ rise .outside s + k ≤ 0

theorem Text.Within.zero {n k : Nat} {s : List Char} (h : Within n k s) : Within n 0 s := by
  obtain ⟨hlength, hrise⟩ := h
  exact ⟨hlength, by omega⟩

/-- What is left of a text is shorter and has fewer parentheses to close, by what was taken. -/
theorem Text.Within.rest {m n n' j k l : Nat} {s r : List Char} (h : Within n l s)
    (htaken : Taken m j s r) (hn : n ≤ n' + m) (hl : j + k ≤ l) : Within n' k r := by
  obtain ⟨hlength, hrise⟩ := h
  have hshorter := htaken.length
  have hcloses := htaken.rise
  exact ⟨by omega, by omega⟩

/-- The inner parsers of two grammars read alike, up to texts of `n` characters. -/
structure Grammar.InnerStable (tail : List Char) (n : Nat) (g h : Grammar) : Prop where
  expression : Stable tail (Within n 0) g.expression h.expression
  orTest : Stable tail (Within n 0) g.orTest h.orTest
  notTest : Stable tail (Within n 0) g.notTest h.notTest
  factor : Stable tail (Within n 0) g.factor h.factor

/-- What is put together from stable parts is stable. Where a token comes first, the text may be one
character longer than inner parsers allow. -/
theorem Built.stable {tail : List Char} (htail : Ending tail) {g h : Grammar} {n : Nat}
    (hg : g.Inner) (hgh : Grammar.InnerStable tail n g h) {i : Bool} {m k : Nat} {α : Type}
    {P : Grammar → Parser α} (hP : Built i m k P) :
    Stable tail (Within (n + (!i).toNat) k) (P g) (P h) := by
  have hunmarked : ∀ {w : String}, isUnmarked w = true → ')' ∉ w.toList := fun hw hmem =>
    not_mem_marks_of_isUnmarked hw ')' hmem (by decide)
  induction hP with
  | pure a => exact stable_pure a
  | fail => exact stable_fail
  | name => exact stable_name htail
  | number => exact stable_number htail
  | stringPiece => exact stable_stringPiece htail
  | keyword w hw => exact stable_keyword htail (hunmarked hw)
  | operator w others hw hothers => exact stable_operator htail (hunmarked hw) hothers
  | expression => exact hgh.expression
  | orTest => exact hgh.orTest
  | notTest => exact hgh.notTest
  | factor => exact hgh.factor
  | any _ ih => exact ih
  | @bind i _ _ _ _ _ hP _ ih ihf =>
    refine (ih.mono fun _ => Within.zero).bind ihf fun s a r hs hr => ?_
    exact hs.rest ((hP.takes hg).ok hr) (by cases i <;> simp) (by simp)
  | after hP _ ih ihf =>
    refine (ih.mono fun _ => Within.zero).bind ihf fun s a r hs hr => ?_
    exact hs.rest ((hP.takes hg).ok hr) (by simp) (by simp)
  | @opening i _ _ _ ihf =>
    refine (stable_operator htail (by decide) rfl).bind ihf fun s u r hs hr => ?_
    obtain ⟨hsuffix, hrise⟩ := taken_open hr
    have hlength := hsuffix.length_le
    have htoNat : (!i).toNat ≤ 1 := Bool.toNat_le _
    obtain ⟨hshort, hopen⟩ := hs
    simp only [List.length_cons] at hlength
    exact ⟨by simpa using (by omega : r.length < n), by omega⟩
  | @closing i _ _ _ ihf =>
    refine (stable_close htail fun s hs => ?_).bind ihf fun s u r hs hr => ?_
    · have hrise := hs.2
      omega
    · exact hs.rest (takes_close.ok hr) (by cases i <;> simp) (by simp)
  | orElse _ _ ihp ihq => exact ihp.orElse ihq
  | opt _ ih => exact ih.opt
  | @optBind i _ k _ _ _ F hP _ _ ih ihsome ihnone =>
    have hrest : ∀ o, Stable tail (Within (n + (!i).toNat) k) (F g o) (F h o) := by
      intro o
      cases o with
      | none => exact ihnone
      | some a => exact ihsome a
    refine (ih.mono fun _ => Within.zero).opt.bind hrest fun s o r hs hr => ?_
    exact hs.rest ((hP.takes hg).opt.ok hr) (by simp) (by simp)
  | many hP ih =>
    refine ih.many (hP.takes hg).advances fun s a r hs hr => ?_
    exact hs.rest ((hP.takes hg).ok hr) (by omega) (by simp)

/-- More rounds change nothing for the texts that a grammar can read. -/
theorem innerStable_grammar {tail : List Char} (htail : Ending tail) {n m : Nat} (h : n ≤ m) :
    Grammar.InnerStable tail n (grammar n) (grammar m) := by
  induction n generalizing m with
  | zero =>
    have hnone : ∀ p q : Parser Expr, Stable tail (Within 0 0) p q := fun p q s hs =>
      absurd hs.1 (Nat.not_lt_zero _)
    exact ⟨hnone _ _, hnone _ _, hnone _ _, hnone _ _⟩
  | succ n ih =>
    obtain ⟨m, rfl⟩ : ∃ m', m = m' + 1 := ⟨m - 1, by omega⟩
    have hlevel : ∀ L : Level,
        Stable tail (Within (n + 1) 0) (L.parser (grammar n)) (L.parser (grammar m)) := fun L =>
      (Grammar.built_level (i := false) L).stable htail (inner_grammar n) (ih (by omega))
    exact ⟨hlevel .expression, hlevel .disjunction, hlevel .negation, hlevel .signed⟩

/-- What is read of a text without open parentheses is read with more rounds too, and in front of a
closing parenthesis. -/
theorem stable_expression {tail : List Char} (htail : Ending tail) {s r : List Char} {e : Expr}
    {n : Nat} (h : Expr.reader s = .ok e r) (hrise : rise .outside s = 0) (hn : s.length < n) :
    (grammar n).expression (s ++ tail) = .ok e (r ++ tail) := by
  have hstable := (innerStable_grammar htail hn).expression
  rcases hstable ⟨Nat.lt_succ_self _, by omega⟩ with ⟨a, t, hs, htext⟩ | ⟨⟨place, hs⟩, -⟩
  · have hread := h.symm.trans hs
    cases hread
    exact htext
  · have hread := h.symm.trans hs
    cases hread

end DocQuery
