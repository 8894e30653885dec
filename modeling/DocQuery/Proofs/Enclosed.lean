import DocQuery.Proofs.Spelling

/-! # Spellings that can stand anywhere

A spelling of a tight level is one of every looser level, so an expression in parentheses can stand
wherever an operand, an argument or an item is asked for.

* `Spelling.loosen`, `Spelling.parenthesized`: moving between levels.
* `Spelling.enclosed_binary`, `Spelling.enclosed_boolean`, …: operators inside parentheses.
-/

set_option autoImplicit false

namespace DocQuery

open Token

/-! ## Moving between levels -/

theorem Level.rank_injective {L L' : Level} (h : L.rank = L'.rank) : L = L' := by
  revert h
  cases L <;> cases L' <;> decide

theorem Level.rank_tighter {L : Level} (h : L.rank < 15) : L.tighter.rank = L.rank + 1 := by
  revert h
  cases L <;> decide

theorem Level.rank_le (L : Level) : L.rank ≤ 15 := by cases L <;> decide

/-- What is written at some level can stand at every looser one. -/
theorem Spelling.loosen {L L' : Level} {e : Expr} {s : List Char} (h : Spelling L e s)
    (hrank : L'.rank ≤ L.rank) : Spelling L' e s := by
  obtain ⟨d, hd⟩ := Nat.exists_eq_add_of_le hrank
  induction d generalizing L' with
  | zero =>
    cases Level.rank_injective hd
    exact h
  | succ d ih =>
    have hmax := L.rank_le
    have htighter := Level.rank_tighter (L := L') (by omega)
    exact .up (ih (by omega) (by omega))

/-- An expression in parentheses can stand anywhere. -/
theorem Spelling.parenthesized {e : Expr} {s : List Char} (h : Spelling .expression e s) :
    Spelling .primary e ('(' :: (s ++ [')'])) :=
  .up (L := .primary) (.paren h)

/-- A call whose arguments are not generators, or generators in parentheses. -/
theorem Spelling.call_positional {callee : Expr} {s : List Char} (h : Spelling .primary callee s)
    (args : List (Positional Written)) (keywords : List (Keyword Written))
    (labels : ∀ k ∈ keywords, ∀ id ∈ k.label, IsName id)
    (hargs : ∀ a ∈ args, Spelling .expression a.value.1 a.value.2)
    (hkeywords : ∀ k ∈ keywords, Spelling .expression k.value.1 k.value.2) :
    Spelling .primary
      (.call callee (args.map fun a => (a.map Prod.fst).expr) (keywords.map (·.map Prod.fst)))
      (s ++ '(' :: (commas (args.map (fun a => (a.map Prod.snd).text) ++
        keywords.map fun k => (k.map Prod.snd).text) ++ [')'])) := by
  have hpassed : ∀ a ∈ args.map (fun a => (⟨a, []⟩ : Passed Written)),
      a.Proper ∧ Spelling .expression a.value.1 a.value.2 ∧ a.clauses = [] := by
    intro a ha
    obtain ⟨b, hb, rfl⟩ := List.mem_map.1 ha
    exact ⟨⟨fun _ => rfl, nofun⟩, hargs b hb, rfl⟩
  have hspell := Spelling.call h (args.map fun a => ⟨a, []⟩) keywords labels
    (fun a ha => (hpassed a ha).1) (fun a ha => (hpassed a ha).2.1)
    (fun a ha c hc => by simp [(hpassed a ha).2.2] at hc)
    (fun a ha c hc => by simp [(hpassed a ha).2.2] at hc) hkeywords
  simpa [Function.comp_def, Passed.map, Passed.expr, Passed.text] using hspell

/-- Only integers are written with digits alone. -/
theorem Spelling.exists_nondigit {L : Level} {e : Expr} {s : List Char} (h : Spelling L e s)
    (he : ∀ n, e ≠ .literal (.int n)) : ∃ c ∈ s, c.isDigit = false := by
  induction h with
  | up _ ih => exact ih he
  | lambda => exact ⟨'l', by simp, by decide⟩
  | conditional => exact ⟨' ', by simp [spaced], by decide⟩
  | boolean => exact ⟨' ', by simp [spaced], by decide⟩
  | negation => exact ⟨' ', by simp, by decide⟩
  | compare _ links some =>
    cases links with
    | nil => exact absurd rfl some
    | cons l links => exact ⟨' ', by simp [spaced], by decide⟩
  | binary => exact ⟨' ', by simp [spaced], by decide⟩
  | sign op hop =>
    cases op with
    | not => exact absurd rfl hop
    | neg => exact ⟨'-', by simp [UnaryOp.mark], by decide⟩
    | pos => exact ⟨'+', by simp [UnaryOp.mark], by decide⟩
    | invert => exact ⟨'~', by simp [UnaryOp.mark], by decide⟩
  | power => exact ⟨' ', by simp [spaced], by decide⟩
  | attr => exact ⟨'.', by simp, by decide⟩
  | gapAttr => exact ⟨'.', by simp, by decide⟩
  | call => exact ⟨'(', by simp, by decide⟩
  | subscript => exact ⟨'[', by simp, by decide⟩
  | subscripts => exact ⟨'[', by simp, by decide⟩
  | list => exact ⟨'[', by simp, by decide⟩
  | listComp => exact ⟨'[', by simp, by decide⟩
  | none => exact ⟨'N', by decide, by decide⟩
  | bool b => cases b <;> exact ⟨'e', by decide, by decide⟩
  | int n => exact absurd rfl (he n)
  | str v => exact ⟨'\'', by simp [toList_quoted], by decide⟩
  | name h =>
    obtain ⟨c, cs, heq, hc, -⟩ := h.1
    refine ⟨c, by simp [heq], ?_⟩
    rw [← Bool.not_eq_true]
    intro hd
    rw [isIdentStart_of_isDigit hd] at hc
    cases hc
  | _ => exact ⟨'(', by simp, by decide⟩

/-! ## Enclosed forms -/

section Enclosed

variable {e left right : Expr} {s t : List Char}

theorem BinaryOp.rank_level (op : BinaryOp) : 1 ≤ op.level.rank ∧ op.level.rank ≤ 13 := by
  cases op <;> decide

theorem BinaryOp.rank_level_le {op : BinaryOp} (h : op ≠ .pow) : op.level.rank ≤ 11 := by
  revert h
  cases op <;> decide

/-- Only the base of a power must not be signed. -/
theorem Spelling.enclosed_binary (op : BinaryOp) (hleft : Spelling .signed left s)
    (hbase : op = .pow → Spelling .primary left s) (hright : Spelling .signed right t) :
    Spelling .primary (.binary left op right) ('(' :: ((s ++ (spaced op.symbol ++ t)) ++ [')'])) := by
  have hrank := op.rank_level
  have hspell : Spelling op.level (.binary left op right) (s ++ (spaced op.symbol ++ t)) := by
    by_cases hop : op = .pow
    · subst hop
      exact .power (hbase rfl) hright
    · have htighter := Level.rank_tighter (L := op.level) (by omega)
      have hsigned : Level.signed.rank = 12 := rfl
      have hterm := BinaryOp.rank_level_le hop
      exact .binary op hop (hleft.loosen (by omega)) (hright.loosen (by omega))
  exact .parenthesized (hspell.loosen hrank.1)

theorem Spelling.enclosed_unary (op : UnaryOp) (h : Spelling .signed e s) :
    Spelling .primary (.unary op e) ('(' :: ((op.mark.toList ++ s) ++ [')'])) := by
  refine .parenthesized ?_
  by_cases hop : op = .not
  · subst hop
    exact (Spelling.negation (h.loosen (by decide))).loosen (by decide)
  · exact (Spelling.sign op hop h).loosen (by decide)

theorem Spelling.enclosed_compare {links : List (CmpOp × Written)} (hne : links ≠ [])
    (hleft : Spelling .signed left s) (h : ∀ l ∈ links, Spelling .signed l.2.1 l.2.2) :
    Spelling .primary (.compare left (links.map (·.1)) (links.map (·.2.1)))
      ('(' :: ((s ++ links.flatMap fun l => spaced l.1.symbol ++ l.2.2) ++ [')'])) :=
  .parenthesized ((Spelling.compare (hleft.loosen (by decide)) links hne
    fun l hl => (h l hl).loosen (by decide)).loosen (by decide))

theorem Spelling.enclosed_boolean (op : BoolOp) {first second : Written} {others : List Written}
    (h : ∀ w ∈ first :: second :: others, Spelling .primary w.1 w.2) :
    Spelling .primary (.boolean op ((first :: second :: others).map Prod.fst))
      ('(' :: ((first.2 ++ (second :: others).flatMap fun w => spaced op.keyword ++ w.2) ++
        [')'])) := by
  have hrank : op.level.tighter.rank ≤ 14 ∧ 1 ≤ op.level.rank := by cases op <;> decide
  exact .parenthesized ((Spelling.boolean op first second others
    fun w hw => (h w hw).loosen hrank.1).loosen hrank.2)

end Enclosed

end DocQuery
