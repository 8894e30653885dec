import DocQuery.Proofs.Evaluation
import DocQuery.Proofs.Words

/-! # Tests of texts by patterns

Whether a text is found in a value, at its start or at its end is asked of SQL with `LIKE`. The text
stands in the pattern as it is, so a percent sign or an underscore in it is a wildcard.

* `like`: when a value matches a pattern.
* `Anchor`: the three tests, and what each of them is about.
* `like_pattern_iff`: a value matches the pattern if the text, as a pattern, matches a part of it.
* `compile_test`: every value that the test is about matches, and only these do if there is no wildcard
  in the text.
-/

set_option autoImplicit false

namespace DocQuery.Sql

/-! ## Patterns -/

/-- The letters of the alphabet are compared without case. -/
def folded (w : List Char) : List Char := w.map Char.toLower

/-- Whether a value matches a pattern: `%` stands for any characters, `_` for one. -/
def like : List Char → List Char → Bool
  | [], w => w.isEmpty
  | c :: p, w =>
    if c = '%' then w.tails.any (like p)
    else match w with
      | [] => false
      | d :: w => (c == '_' || c.toLower == d.toLower) && like p w

theorem like_percent_cons (p w : List Char) :
    like ('%' :: p) w = true ↔ ∃ v, v <:+ w ∧ like p v = true := by
  rw [like.eq_def]
  simp

theorem like_cons_cons {c : Char} (hc : c ≠ '%') (d : Char) (p w : List Char) :
    like (c :: p) (d :: w) = true ↔ (c = '_' ∨ c.toLower = d.toLower) ∧ like p w = true := by
  rw [like, if_neg hc]
  simp

theorem not_like_cons_nil {c : Char} (hc : c ≠ '%') (p : List Char) : ¬ like (c :: p) [] = true := by
  rw [like, if_neg hc]
  simp

/-- A pattern that ends with `%` is matched by what starts with a match of the rest. -/
theorem like_append_percent (p w : List Char) :
    like (p ++ ['%']) w = true ↔ ∃ u, u <+: w ∧ like p u = true := by
  induction p generalizing w with
  | nil =>
    have hall : like ['%'] w = true := (like_percent_cons [] w).2 ⟨[], List.nil_suffix, rfl⟩
    simpa [hall] using ⟨[], List.nil_prefix, rfl⟩
  | cons c p ih =>
    rw [List.cons_append]
    by_cases hc : c = '%'
    · subst hc
      rw [like_percent_cons]
      constructor
      · rintro ⟨v, ⟨before, rfl⟩, hv⟩
        obtain ⟨u, hu, hlike⟩ := (ih v).1 hv
        refine ⟨before ++ u, (List.prefix_append_right_inj before).2 hu, ?_⟩
        exact (like_percent_cons p _).2 ⟨u, List.suffix_append before u, hlike⟩
      · rintro ⟨u, ⟨after, rfl⟩, hu⟩
        obtain ⟨v, ⟨before, rfl⟩, hlike⟩ := (like_percent_cons p u).1 hu
        refine ⟨v ++ after, ⟨before, by simp⟩, (ih _).2 ⟨v, List.prefix_append v after, hlike⟩⟩
    · cases w with
      | nil =>
        refine iff_of_false (not_like_cons_nil hc _) ?_
        rintro ⟨u, hu, hlike⟩
        rw [List.prefix_nil.1 hu] at hlike
        exact not_like_cons_nil hc p hlike
      | cons d w =>
        rw [like_cons_cons hc, ih]
        constructor
        · rintro ⟨hd, u, hu, hlike⟩
          exact ⟨d :: u, List.cons_prefix_cons.2 ⟨rfl, hu⟩, (like_cons_cons hc d p u).2 ⟨hd, hlike⟩⟩
        · rintro ⟨u, hu, hlike⟩
          rcases List.prefix_cons_iff.1 hu with rfl | ⟨u, rfl, hrest⟩
          · exact absurd hlike (not_like_cons_nil hc p)
          · obtain ⟨hd, hlike⟩ := (like_cons_cons hc d p u).1 hlike
            exact ⟨hd, u, hrest, hlike⟩

/-- A text matches itself, whatever is in it. -/
theorem like_of_folded_eq {p w : List Char} (h : folded p = folded w) : like p w = true := by
  induction p generalizing w with
  | nil =>
    rw [List.map_eq_nil_iff.1 h.symm]
    rfl
  | cons c p ih =>
    cases w with
    | nil => cases h
    | cons d w =>
      obtain ⟨hd, hrest⟩ := List.cons.inj h
      by_cases hc : c = '%'
      · rw [hc, like_percent_cons]
        exact ⟨w, List.suffix_cons d w, ih hrest⟩
      · exact (like_cons_cons hc d p w).2 ⟨.inr hd, ih hrest⟩

/-- A pattern without wildcards is matched by itself only. -/
theorem folded_eq_of_like {p w : List Char} (hpercent : '%' ∉ p) (hunderscore : '_' ∉ p)
    (h : like p w = true) : folded p = folded w := by
  induction p generalizing w with
  | nil => rw [List.isEmpty_iff.1 h]
  | cons c p ih =>
    rw [List.mem_cons, not_or] at hpercent hunderscore
    have hc : c ≠ '%' := Ne.symm hpercent.1
    cases w with
    | nil => exact absurd h (not_like_cons_nil hc p)
    | cons d w =>
      obtain ⟨hd, hlike⟩ := (like_cons_cons hc d p w).1 h
      have hsame : c.toLower = d.toLower := hd.resolve_left (Ne.symm hunderscore.1)
      have hrest : folded p = folded w := ih hpercent.2 hunderscore.2 hlike
      show c.toLower :: folded p = d.toLower :: folded w
      rw [hsame, hrest]

/-! ## Tests -/

/-- Where a text is looked for. -/
inductive Anchor where
  | anywhere | start | finish
deriving DecidableEq, Repr

namespace Anchor

/-- The text `u` stands in `w` at the place. -/
def Part : Anchor → List Char → List Char → Prop
  | anywhere, u, w => u <:+: w
  | start, u, w => u <+: w
  | finish, u, w => u <:+ w

/-- The text is found in the value at the place, up to case. -/
def Holds (a : Anchor) (text w : List Char) : Prop := a.Part (folded text) (folded w)

def test (e : Expr) (text : String) : Anchor → Expr
  | anywhere => .compare (.literal (.str text)) [.elemOf] [e]
  | start => .call (.attr e "startswith") [.literal (.str text)] []
  | finish => .call (.attr e "endswith") [.literal (.str text)] []

def pattern (text : String) : Anchor → String
  | anywhere => "%" ++ text ++ "%"
  | start => text ++ "%"
  | finish => "%" ++ text

/-- A value matches the pattern of a test if the text, as a pattern, matches a part at the place. -/
theorem like_pattern_iff (a : Anchor) (text : String) (w : List Char) :
    like (a.pattern text).toList w = true ↔ ∃ u, a.Part u w ∧ like text.toList u = true := by
  cases a with
  | anywhere =>
    have htext : (pattern text anywhere).toList = '%' :: (text.toList ++ ['%']) := by simp [pattern]
    simp only [htext, like_percent_cons, like_append_percent, Part, List.infix_iff_prefix_suffix]
    constructor
    · rintro ⟨v, hv, u, hu, hlike⟩
      exact ⟨u, ⟨v, hu, hv⟩, hlike⟩
    · rintro ⟨u, ⟨v, hu, hv⟩, hlike⟩
      exact ⟨v, hv, u, hu, hlike⟩
  | start =>
    have htext : (pattern text start).toList = text.toList ++ ['%'] := by simp [pattern]
    rw [htext, like_append_percent]
    rfl
  | finish =>
    have htext : (pattern text finish).toList = '%' :: text.toList := by simp [pattern]
    rw [htext, like_percent_cons]
    rfl

theorem holds_iff (a : Anchor) (text w : List Char) :
    a.Holds text w ↔ ∃ u, a.Part u w ∧ folded text = folded u := by
  cases a with
  | anywhere => exact List.infix_map_iff
  | start => exact List.prefix_map_iff
  | finish => exact List.suffix_map_iff

theorem part_self (a : Anchor) (w : List Char) : a.Part w w := by
  cases a with
  | anywhere => exact List.infix_rfl
  | start => exact List.prefix_rfl
  | finish => exact List.suffix_rfl

theorem Holds.subset {a : Anchor} {text w : List Char} (h : a.Holds text w) :
    folded text ⊆ folded w := by
  cases a with
  | anywhere => exact List.IsInfix.subset h
  | start => exact List.IsPrefix.subset h
  | finish => exact List.IsSuffix.subset h

/-! ## Wildcards -/

/-- Only letters have another character for the other case. -/
theorem eq_of_toLower_eq {c d : Char} (hd : d.toNat < 97) (h : c.toLower = d) : c = d := by
  unfold Char.toLower at h
  split at h
  · rename_i hletter
    subst h
    rw [ge_iff_le, UInt32.le_iff_toNat_le, UInt32.le_iff_toNat_le] at hletter
    have hupper : 'A'.val.toNat = 65 ∧ 'Z'.val.toNat = 90 := by decide
    have hshift : ('a'.val - 'A'.val).toNat = 32 := by decide
    have hlower : (c.val + ('a'.val - 'A'.val)).toNat < 97 := hd
    rw [UInt32.toNat_add, hshift] at hlower
    omega
  · exact h

/-- A value that the text matches as a pattern, with other characters for the wildcards. -/
def sample (text : List Char) : List Char :=
  text.filterMap fun c => if c = '%' then none else if c = '_' then some 'a' else some c

theorem like_sample (text : List Char) : like text (sample text) = true := by
  induction text with
  | nil => rfl
  | cons c text ih =>
    by_cases hpercent : c = '%'
    · have hsample : sample (c :: text) = sample text := by simp [sample, hpercent]
      rw [hsample, hpercent, like_percent_cons]
      exact ⟨_, List.suffix_rfl, ih⟩
    · have hsample : sample (c :: text) = (if c = '_' then 'a' else c) :: sample text := by
        by_cases hunderscore : c = '_' <;> simp [sample, hpercent, hunderscore]
      rw [hsample, like_cons_cons hpercent]
      refine ⟨?_, ih⟩
      by_cases hunderscore : c = '_'
      · exact .inl hunderscore
      · rw [if_neg hunderscore]
        exact .inr rfl

theorem not_mem_folded_sample {c : Char} (hc : c = '%' ∨ c = '_') (text : List Char) :
    c ∉ folded (sample text) := by
  intro h
  obtain ⟨d, hd, hlower⟩ := List.mem_map.1 h
  have hsmall : c.toNat < 97 := by rcases hc with rfl | rfl <;> decide
  obtain rfl := eq_of_toLower_eq hsmall hlower
  obtain ⟨x, -, hx⟩ := List.mem_filterMap.1 hd
  split at hx
  · cases hx
  · split at hx
    · cases hx
      revert hc
      decide
    · cases hx
      tauto

/-- Nothing else matches the pattern of a test, exactly if there is no wildcard in the text. -/
theorem like_pattern_imp_iff (a : Anchor) (text : String) :
    (∀ w, like (a.pattern text).toList w = true → a.Holds text.toList w) ↔
      '%' ∉ text.toList ∧ '_' ∉ text.toList := by
  constructor
  · intro h
    have hsample : like (a.pattern text).toList (sample text.toList) = true := by
      rw [like_pattern_iff]
      exact ⟨_, a.part_self _, like_sample _⟩
    have hsubset := (h _ hsample).subset
    have hmem : ∀ c, c = '%' ∨ c = '_' → c ∉ text.toList := by
      intro c hc hin
      apply not_mem_folded_sample hc text.toList
      apply hsubset
      rcases hc with rfl | rfl <;> exact List.mem_map.2 ⟨_, hin, rfl⟩
    exact ⟨hmem _ (.inl rfl), hmem _ (.inr rfl)⟩
  · rintro ⟨hpercent, hunderscore⟩ w hw
    obtain ⟨u, hu, hlike⟩ := (a.like_pattern_iff text w).1 hw
    exact (a.holds_iff _ w).2 ⟨u, hu, folded_eq_of_like hpercent hunderscore hlike⟩

/-- What the test is about matches its pattern. -/
theorem Holds.like_pattern {a : Anchor} {text : String} {w : List Char} (h : a.Holds text.toList w) :
    like (a.pattern text).toList w = true := by
  obtain ⟨u, hu, hfolded⟩ := (a.holds_iff _ w).1 h
  exact (a.like_pattern_iff text w).2 ⟨u, hu, like_of_folded_eq hfolded⟩

end Anchor

/-! ## Compilation -/

open Context

/-- The value of a test is the pattern test of its pattern. -/
theorem eval_test {c : Context} {e : Expr} {r : String} (a : Anchor) (text : String)
    (hlist : a = .anywhere → listed? e = none) (he : c.compile e = .ok r) :
    c.eval (a.test e text) = .ok (patternTest r false (a.pattern text)) := by
  obtain ⟨v, hv, hr⟩ := bind_eq_ok he
  cases a with
  | anywhere =>
    have hfree : c.isGuaranteed (.compare (.literal (.str text)) [.elemOf] [e]) = false := by
      cases hg : c.guaranteed <;> simp [isGuaranteed, hg, Membership.isTest, Expr.membershipParts?]
    rw [Anchor.test, eval_compare, if_neg (by simp [hfree])]
    simp [membershipOp?, hlist rfl, testedIn, hv, hr, bind, Except.bind, pure, Except.pure,
      Anchor.pattern]
  | start =>
    rw [Anchor.test, Context.eval, hv]
    simp [bind, Except.bind, hr, pure, Except.pure, endPattern?, Anchor.pattern]
  | finish =>
    rw [Anchor.test, Context.eval, hv]
    simp [bind, Except.bind, hr, pure, Except.pure, endPattern?, Anchor.pattern]

/-- The pattern that a test is written with is matched by every value that the test is about. It is
matched by no other value exactly if the text has neither a percent sign nor an underscore in it. -/
theorem compile_test {c : Context} {e : Expr} {r : String} (a : Anchor) (text : String)
    (hlist : a = .anywhere → listed? e = none) (he : c.compile e = .ok r) :
    ∃ literal pattern, c.compile (a.test e text) = .ok ("(" ++ r ++ " LIKE " ++ literal ++ ")") ∧
      lexemes? literal = some [.string pattern] ∧
      (∀ w, a.Holds text.toList w → like pattern w = true) ∧
      ((∀ w, like pattern w = true → a.Holds text.toList w) ↔
        '%' ∉ text.toList ∧ '_' ∉ text.toList) := by
  refine ⟨quote (a.pattern text), (a.pattern text).toList, ?_, ?_, ?_, ?_⟩
  · exact compile_eq_ok (eval_test a text hlist he) rfl
  · exact (reads_quote _).lexemes
  · exact fun w hw => hw.like_pattern
  · exact a.like_pattern_imp_iff text

theorem compile_test_percent :
    let c := Context.of "person" .empty (.ofNames ["person"])
    let name : Expr := .attr (.name "person") "name"
    (Anchor.anywhere = .anywhere → listed? name = none) ∧
      c.compile name = .ok "json_extract(json_data, '$.name')" ∧
      ∃ literal pattern, c.compile (Anchor.test name "50%" .anywhere) =
          .ok ("(" ++ "json_extract(json_data, '$.name')" ++ " LIKE " ++ literal ++ ")") ∧
        lexemes? literal = some [.string pattern] ∧
        ¬ ∀ w, like pattern w = true → Anchor.Holds .anywhere "50%".toList w := by
  intro c name
  have hname : c.compile name = .ok "json_extract(json_data, '$.name')" := by cbv
  obtain ⟨literal, pattern, hcompile, hliteral, -, hexact⟩ :=
    compile_test .anywhere "50%" (fun _ => rfl) hname
  refine ⟨fun _ => rfl, hname, literal, pattern, hcompile, hliteral, ?_⟩
  rw [hexact]
  decide

end DocQuery.Sql
