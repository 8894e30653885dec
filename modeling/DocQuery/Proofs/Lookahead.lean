import DocQuery.Proofs.Spelling

/-! # What may stand after and at the start of a spelling

A parser of some level stops where no operator of its level or of a tighter one follows. What may
follow an expression is therefore graded by the level of the operator that comes next.

* `Follow k t`: the text `t` goes on with something that only the level `k` takes up; where nothing
  takes it up, `k` is zero.
* `Opens k t`: the text `t` starts like an expression of the level `k` or a tighter one.
* `Follow.operators_fail`, `Opens.not_fails`, …: the parsers that therefore stop.
-/

set_option autoImplicit false

namespace DocQuery

open DocQuery.Parser Token

theorem keyword_spaced {w : String} (hw : w ∈ reserved) (t : List Char) :
    keyword w (spaced w ++ t) = .ok () (' ' :: t) := by
  refine keyword_ok ?_ (wordEnd_cons (by decide) t)
  rw [spaced_append, skipGap_gap (by decide), skipGap_identifier (reserved_isIdentifier hw)]
  exact after?_append _ _

/-! ## What follows -/

/-- The text goes on with something that only the level `k` takes up. -/
inductive Follow : Nat → List Char → Prop
  | stop : Follow 0 []
  | close {c : Char} (h : c ∈ [')', ']', ',', ':']) (t : List Char) : Follow 0 (c :: t)
  | otherwise (t : List Char) : Follow 0 (spaced "else" ++ t)
  | clause (t : List Char) : Follow 0 (spaced "for" ++ t)
  | condition (t : List Char) : Follow 1 (spaced "if" ++ t)
  | operand (op : BoolOp) (t : List Char) : Follow op.level.rank (spaced op.keyword ++ t)
  | link (op : CmpOp) (t : List Char) : Follow 5 (spaced op.symbol ++ t)
  | binary (op : BinaryOp) (t : List Char) : Follow op.level.rank (spaced op.symbol ++ t)
  | trailer {c : Char} (h : c ∈ ['.', '(', '[']) (t : List Char) : Follow 14 (c :: t)
  | gapAttr (t : List Char) : Follow 14 (' ' :: '.' :: t)

/-- The operators of a level at which operands are grouped from the left. -/
def Level.operators : Level → Parser BinaryOp
  | bitOr => Grammar.binaryOp .bitOr ['=']
  | bitXor => Grammar.binaryOp .bitXor ['=']
  | bitAnd => Grammar.binaryOp .bitAnd ['=']
  | shift => Grammar.binaryOp .shiftLeft ['='] <|> Grammar.binaryOp .shiftRight ['=']
  | arith => Grammar.binaryOp .add ['='] <|> Grammar.binaryOp .sub ['=']
  | term =>
    Grammar.binaryOp .floorDiv ['='] <|> Grammar.binaryOp .mul ['*', '='] <|>
      Grammar.binaryOp .div ['='] <|> Grammar.binaryOp .mod ['='] <|>
      Grammar.binaryOp .matMul ['=']
  | _ => fail

namespace Follow

variable {k : Nat} {t : List Char}

/-- The characters with which a text after an expression starts. -/
theorem head (h : Follow k t) :
    ∀ c ∈ t.head?, c ∈ [' ', ')', ']', ',', ':', '.', '(', '['] := by
  cases h with
  | stop => simp
  | close h t =>
    intro c hc
    cases hc
    exact (by decide : ∀ c ∈ [')', ']', ',', ':'], c ∈ [' ', ')', ']', ',', ':', '.', '(', '[']) _ h
  | trailer h t =>
    intro c hc
    cases hc
    exact (by decide : ∀ c ∈ ['.', '(', '['], c ∈ [' ', ')', ']', ',', ':', '.', '(', '[']) _ h
  | _ =>
    intro c hc
    cases hc
    decide

theorem wordEnd (h : Follow k t) : WordEnd t := by
  intro c hc
  have hall : ∀ c ∈ [' ', ')', ']', ',', ':', '.', '(', '['], isIdentChar c = false := by decide
  exact hall c (h.head c hc)

theorem no_quote (h : Follow k t) : ∀ d ∈ t.head?, d ∉ ['\'', '"'] := fun d hd =>
  (by decide : ∀ d ∈ [' ', ')', ']', ',', ':', '.', '(', '['], d ∉ ['\'', '"']) d (h.head d hd)

theorem operators_fail (h : Follow k t) {L : Level} (hk : k < L.rank) : Fails L.operators t := by
  cases h with
  | stop => cases L <;> exact ⟨_, rfl⟩
  | close h t =>
    simp only [List.mem_cons, List.not_mem_nil, or_false] at h
    rcases h with rfl | rfl | rfl | rfl <;> cases L <;> exact ⟨_, rfl⟩
  | otherwise t => cases L <;> exact ⟨_, rfl⟩
  | clause t => cases L <;> exact ⟨_, rfl⟩
  | condition t => cases L <;> exact ⟨_, rfl⟩
  | operand op t => cases op <;> cases L <;> exact ⟨_, rfl⟩
  | link op t => cases op <;> cases L <;> exact ⟨_, rfl⟩
  | binary op t =>
    cases op <;> cases L <;> first | exact absurd hk (by decide) | exact ⟨_, rfl⟩
  | trailer h t =>
    simp only [List.mem_cons, List.not_mem_nil, or_false] at h
    rcases h with rfl | rfl | rfl <;> cases L <;> exact ⟨_, rfl⟩
  | gapAttr t => cases L <;> exact ⟨_, rfl⟩

theorem trailer_fails (h : Follow k t) (hk : k < 14) (g : Grammar) : Fails g.trailer t := by
  have hdot : Fails (symbol ".") t ∧ Fails (symbol "(") t ∧ Fails (symbol "[") t := by
    cases h with
    | stop => exact ⟨⟨_, rfl⟩, ⟨_, rfl⟩, ⟨_, rfl⟩⟩
    | close h t =>
      simp only [List.mem_cons, List.not_mem_nil, or_false] at h
      rcases h with rfl | rfl | rfl | rfl <;> exact ⟨⟨_, rfl⟩, ⟨_, rfl⟩, ⟨_, rfl⟩⟩
    | otherwise t => exact ⟨⟨_, rfl⟩, ⟨_, rfl⟩, ⟨_, rfl⟩⟩
    | clause t => exact ⟨⟨_, rfl⟩, ⟨_, rfl⟩, ⟨_, rfl⟩⟩
    | condition t => exact ⟨⟨_, rfl⟩, ⟨_, rfl⟩, ⟨_, rfl⟩⟩
    | operand op t => cases op <;> exact ⟨⟨_, rfl⟩, ⟨_, rfl⟩, ⟨_, rfl⟩⟩
    | link op t => cases op <;> exact ⟨⟨_, rfl⟩, ⟨_, rfl⟩, ⟨_, rfl⟩⟩
    | binary op t => cases op <;> exact ⟨⟨_, rfl⟩, ⟨_, rfl⟩, ⟨_, rfl⟩⟩
    | trailer h t => omega
    | gapAttr t => omega
  exact fails_orElse (fails_bind hdot.1 _) (fails_orElse (fails_bind (fails_bind hdot.2.1 _) _)
    (fails_bind (fails_bind hdot.2.2 _) _))

theorem power_fails (h : Follow k t) (hk : k < 13) : Fails (symbol "**") t := by
  cases h with
  | stop => exact ⟨_, rfl⟩
  | close h t =>
    simp only [List.mem_cons, List.not_mem_nil, or_false] at h
    rcases h with rfl | rfl | rfl | rfl <;> exact ⟨_, rfl⟩
  | otherwise t => exact ⟨_, rfl⟩
  | clause t => exact ⟨_, rfl⟩
  | condition t => exact ⟨_, rfl⟩
  | operand op t => cases op <;> exact ⟨_, rfl⟩
  | link op t => cases op <;> exact ⟨_, rfl⟩
  | binary op t => cases op <;> first | exact absurd hk (by decide) | exact ⟨_, rfl⟩
  | trailer h t => omega
  | gapAttr t => omega

theorem cmpOp_fails (h : Follow k t) (hk : k < 5) : Fails Grammar.cmpOp t := by
  cases h with
  | stop => exact ⟨_, rfl⟩
  | close h t =>
    simp only [List.mem_cons, List.not_mem_nil, or_false] at h
    rcases h with rfl | rfl | rfl | rfl <;> exact ⟨_, rfl⟩
  | otherwise t => exact ⟨_, rfl⟩
  | clause t => exact ⟨_, rfl⟩
  | condition t => exact ⟨_, rfl⟩
  | operand op t => cases op <;> exact ⟨_, rfl⟩
  | link op t => omega
  | binary op t => cases op <;> exact absurd hk (by decide)
  | trailer h t => omega
  | gapAttr t => omega

theorem connective_fails (h : Follow k t) {op : BoolOp} (hk : k < op.level.rank) :
    Fails (keyword op.keyword) t := by
  cases h with
  | stop => cases op <;> exact ⟨_, rfl⟩
  | close h t =>
    simp only [List.mem_cons, List.not_mem_nil, or_false] at h
    rcases h with rfl | rfl | rfl | rfl <;> cases op <;> exact ⟨_, rfl⟩
  | otherwise t => cases op <;> exact ⟨_, rfl⟩
  | clause t => cases op <;> exact ⟨_, rfl⟩
  | condition t => cases op <;> exact ⟨_, rfl⟩
  | operand op' t => cases op <;> cases op' <;> first | exact absurd hk (by decide) | exact ⟨_, rfl⟩
  | link op' t => cases op <;> exact absurd hk (by decide)
  | binary op' t => cases op <;> cases op' <;> exact absurd hk (by decide)
  | trailer h t => cases op <;> exact absurd hk (by decide)
  | gapAttr t => cases op <;> exact absurd hk (by decide)

theorem if_fails (h : Follow k t) (hk : k < 1) : Fails (keyword "if") t := by
  cases h with
  | stop => exact ⟨_, rfl⟩
  | close h t =>
    simp only [List.mem_cons, List.not_mem_nil, or_false] at h
    rcases h with rfl | rfl | rfl | rfl <;> exact ⟨_, rfl⟩
  | otherwise t => exact ⟨_, rfl⟩
  | clause t => exact ⟨_, rfl⟩
  | condition t => omega
  | operand op t => cases op <;> exact absurd hk (by decide)
  | link op t => omega
  | binary op t => cases op <;> exact absurd hk (by decide)
  | trailer h t => omega
  | gapAttr t => omega

/-- No string literal goes on in a text after an expression, and no keyword argument was begun. -/
theorem stringPiece_fails (h : Follow k t) : Fails stringPiece t ∧ Fails (operator "=" ['=']) t := by
  cases h with
  | stop => exact ⟨⟨_, rfl⟩, ⟨_, rfl⟩⟩
  | close h t =>
    simp only [List.mem_cons, List.not_mem_nil, or_false] at h
    rcases h with rfl | rfl | rfl | rfl <;> exact ⟨⟨_, rfl⟩, ⟨_, rfl⟩⟩
  | otherwise t => exact ⟨⟨_, rfl⟩, ⟨_, rfl⟩⟩
  | clause t => exact ⟨⟨_, rfl⟩, ⟨_, rfl⟩⟩
  | condition t => exact ⟨⟨_, rfl⟩, ⟨_, rfl⟩⟩
  | operand op t => cases op <;> exact ⟨⟨_, rfl⟩, ⟨_, rfl⟩⟩
  | link op t => cases op <;> exact ⟨⟨_, rfl⟩, ⟨_, rfl⟩⟩
  | binary op t => cases op <;> exact ⟨⟨_, rfl⟩, ⟨_, rfl⟩⟩
  | trailer h t =>
    simp only [List.mem_cons, List.not_mem_nil, or_false] at h
    rcases h with rfl | rfl | rfl <;> exact ⟨⟨_, rfl⟩, ⟨_, rfl⟩⟩
  | gapAttr t => exact ⟨⟨_, rfl⟩, ⟨_, rfl⟩⟩

end Follow

/-! ## What comes first -/

/-- The text starts like an expression of the level `k` or of a tighter one. -/
inductive Opens : Nat → List Char → Prop
  | bracket {k : Nat} {c : Char} (h : c ∈ ['(', '[', '\'']) (t : List Char) : Opens k (c :: t)
  | digit {k : Nat} {c : Char} (h : c.isDigit = true) (t : List Char) : Opens k (c :: t)
  | sign {k : Nat} {c : Char} (hk : k ≤ 12) (h : c ∈ ['-', '+', '~']) (t : List Char) :
      Opens k (c :: t)
  | word {k j : Nat} {w t : List Char} (hw : IsIdentifier w) (hnot : w ≠ "not".toList)
      (hlambda : w ≠ "lambda".toList) (ht : Follow j t) : Opens k (w ++ t)
  | negation {k : Nat} (hk : k ≤ 4) (t : List Char) : Opens k ("not".toList ++ ' ' :: t)
  | lambda {k : Nat} {c : Char} (hk : k ≤ 1) (hc : c ∈ [' ', ':']) (t : List Char) :
      Opens k ("lambda".toList ++ c :: t)

namespace Opens

variable {j k : Nat} {t : List Char}

theorem mono (h : Opens k t) (hj : j ≤ k) : Opens j t := by
  cases h with
  | bracket h t => exact .bracket h t
  | digit h t => exact .digit h t
  | sign hk h t => exact .sign (by omega) h t
  | word hw hnot hlambda ht => exact .word hw hnot hlambda ht
  | negation hk t => exact .negation (by omega) t
  | lambda hk hc t => exact .lambda (by omega) hc t

/-- The characters with which an expression starts. -/
theorem head (h : Opens k t) :
    ∃ c r, t = c :: r ∧ (isIdentChar c = true ∨ c ∈ ['(', '[', '\'', '-', '+', '~']) := by
  cases h with
  | @bracket c h t =>
    exact ⟨c, t, rfl, .inr ((by decide : ∀ c ∈ ['(', '[', '\''],
      c ∈ ['(', '[', '\'', '-', '+', '~']) c h)⟩
  | @digit c h t => exact ⟨c, t, rfl, .inl (isIdentChar_of_isDigit h)⟩
  | @sign c _ h t =>
    exact ⟨c, t, rfl, .inr ((by decide : ∀ c ∈ ['-', '+', '~'],
      c ∈ ['(', '[', '\'', '-', '+', '~']) c h)⟩
  | word hw _ _ ht =>
    obtain ⟨c, cs, rfl, hc, -⟩ := hw
    exact ⟨c, _, rfl, .inl (isIdentChar_of_isIdentStart hc)⟩
  | negation _ t => exact ⟨'n', _, rfl, .inl (by decide)⟩
  | @lambda c _ _ t => exact ⟨'l', _, rfl, .inl (by decide)⟩

/-- An expression does not start with a closing bracket, a separator or a star. -/
theorem operator_fails (h : Opens k t) {w : String} (others : List Char)
    (hw : w ∈ [")", "]", "*", "**", ":", ","]) : Fails (operator w others) t := by
  obtain ⟨c, r, rfl, hc⟩ := h.head
  have hgap : Text.isGap c = false := by
    rcases hc with hc | hc
    · exact isGap_of_isIdentChar hc
    · exact (by decide : ∀ c ∈ ['(', '[', '\'', '-', '+', '~'], Text.isGap c = false) c hc
  have hne : c ≠ ')' ∧ c ≠ ']' ∧ c ≠ '*' ∧ c ≠ ':' ∧ c ≠ ',' := by
    rcases hc with hc | hc
    · refine ⟨?_, ?_, ?_, ?_, ?_⟩ <;> (rintro rfl; revert hc; decide)
    · exact (by decide : ∀ c ∈ ['(', '[', '\'', '-', '+', '~'],
        c ≠ ')' ∧ c ≠ ']' ∧ c ≠ '*' ∧ c ≠ ':' ∧ c ≠ ',') c hc
  apply Token.operator_fails
  rw [skipGap_cons hgap]
  simp only [List.mem_cons, List.not_mem_nil, or_false] at hw
  rcases hw with rfl | rfl | rfl | rfl | rfl | rfl
  · exact if_neg hne.1.symm
  · exact if_neg hne.2.1.symm
  · exact if_neg hne.2.2.1.symm
  · exact if_neg hne.2.2.1.symm
  · exact if_neg hne.2.2.2.1.symm
  · exact if_neg hne.2.2.2.2.symm

/-- An expression starts with no character that would make a longer symbol of a star or of an equals
sign in front of it. -/
theorem startsWithAny_eq_false (h : Opens k t) : startsWithAny ['*', '='] t = false := by
  obtain ⟨c, r, rfl, hc⟩ := h.head
  rcases hc with hc | hc
  · have hstar : c ≠ '*' := by rintro rfl; revert hc; decide
    have hequals : c ≠ '=' := by rintro rfl; revert hc; decide
    simp [startsWithAny, hstar, hequals]
  · exact (by decide : ∀ c ∈ ['(', '[', '\'', '-', '+', '~'], ['*', '='].contains c = false) c hc

theorem keyword_fails_of_digit {c : Char} {w : String} (h : c.isDigit = true) (hw : w ∈ reserved)
    (r : List Char) : Fails (keyword w) (c :: r) := by
  apply Token.keyword_fails
  rw [skipGap_cons (isGap_of_isIdentChar (isIdentChar_of_isDigit h))]
  have hall : ∀ w ∈ reserved, ∀ d ∈ w.toList, d.isDigit = false := by decide
  have hne : ∀ w ∈ reserved, w.toList ≠ [] := by decide
  cases hcs : w.toList with
  | nil => exact absurd hcs (hne w hw)
  | cons d ds =>
    have hd := hall w hw d (by simp [hcs])
    refine if_neg ?_
    rintro rfl
    rw [h] at hd
    cases hd

theorem lambda_fails (h : Opens k t) (hk : 1 < k) : Fails (keyword "lambda") t := by
  cases h with
  | bracket h t =>
    simp only [List.mem_cons, List.not_mem_nil, or_false] at h
    rcases h with rfl | rfl | rfl <;> exact ⟨_, rfl⟩
  | digit h t => exact keyword_fails_of_digit h (by decide) t
  | sign _ h t =>
    simp only [List.mem_cons, List.not_mem_nil, or_false] at h
    rcases h with rfl | rfl | rfl <;> exact ⟨_, rfl⟩
  | word hw _ hlambda ht => exact keyword_fails_of_identifier (by decide) hw hlambda ht.wordEnd
  | negation _ t => exact ⟨_, rfl⟩
  | lambda hk' _ t => omega

theorem not_fails (h : Opens k t) (hk : 4 < k) : Fails (keyword "not") t := by
  cases h with
  | bracket h t =>
    simp only [List.mem_cons, List.not_mem_nil, or_false] at h
    rcases h with rfl | rfl | rfl <;> exact ⟨_, rfl⟩
  | digit h t => exact keyword_fails_of_digit h (by decide) t
  | sign _ h t =>
    simp only [List.mem_cons, List.not_mem_nil, or_false] at h
    rcases h with rfl | rfl | rfl <;> exact ⟨_, rfl⟩
  | word hw hnot _ ht => exact keyword_fails_of_identifier (by decide) hw hnot ht.wordEnd
  | negation hk' t => omega
  | lambda hk' _ t => omega

theorem sign_fails (h : Opens k t) (hk : 12 < k) : Fails Grammar.sign t := by
  have hne : ∃ c r, t = c :: r ∧ Text.isGap c = false ∧ c ≠ '-' ∧ c ≠ '+' ∧ c ≠ '~' := by
    cases h with
    | @bracket c h t =>
      exact ⟨c, t, rfl, (by decide : ∀ c ∈ ['(', '[', '\''],
        Text.isGap c = false ∧ c ≠ '-' ∧ c ≠ '+' ∧ c ≠ '~') c h⟩
    | @digit c h t =>
      refine ⟨c, t, rfl, isGap_of_isIdentChar (isIdentChar_of_isDigit h), ?_, ?_, ?_⟩ <;>
        (rintro rfl; revert h; decide)
    | sign hk' _ _ => omega
    | word hw _ _ _ =>
      obtain ⟨c, cs, rfl, hc, -⟩ := hw
      refine ⟨c, _, rfl, isGap_of_isIdentChar (isIdentChar_of_isIdentStart hc), ?_, ?_, ?_⟩ <;>
        (rintro rfl; revert hc; decide)
    | negation hk' t => omega
    | lambda hk' _ t => omega
  obtain ⟨c, r, rfl, hgap, hminus, hplus, htilde⟩ := hne
  have hfails : ∀ d : Char, d ≠ c → Text.after? [d] (Text.skipGap (c :: r)) = none := by
    intro d hd
    rw [skipGap_cons hgap]
    exact if_neg hd
  have h1 : Fails (symbol "-") (c :: r) := Token.operator_fails (hfails '-' hminus.symm)
  have h2 : Fails (symbol "+") (c :: r) := Token.operator_fails (hfails '+' hplus.symm)
  have h3 : Fails (symbol "~") (c :: r) := Token.operator_fails (hfails '~' htilde.symm)
  exact fails_orElse (fails_bind h1 _) (fails_orElse (fails_bind h2 _) (fails_bind h3 _))

theorem name_fails_of_head {c : Char} (hc : isIdentStart c = false) (hgap : Text.isGap c = false)
    (r : List Char) : Fails name (c :: r) := by
  apply fails_refine
  have hg : gap (c :: r) = .ok () (c :: r) := by rw [gap, skipGap_cons hgap]
  refine fails_bind_ok hg (fails_bind ⟨c :: r, ?_⟩ _)
  simp [satisfy, hc]

/-- An expression does not start with a name and an equals sign, like a keyword argument. -/
theorem assignment_fails (h : Opens k t) {id : String} {r : List Char} (hn : name t = .ok id r) :
    Fails (operator "=" ['=']) r := by
  have absurd_of : Fails name t → Fails (operator "=" ['=']) r := by
    rintro ⟨place, hf⟩
    rw [hf] at hn
    cases hn
  cases h with
  | @bracket c h t =>
    have hc := (by decide : ∀ c ∈ ['(', '[', '\''],
      isIdentStart c = false ∧ Text.isGap c = false) c h
    exact absurd_of (name_fails_of_head hc.1 hc.2 t)
  | @digit c h t =>
    refine absurd_of (name_fails_of_head ?_ (isGap_of_isIdentChar (isIdentChar_of_isDigit h)) t)
    exact isIdentStart_of_isDigit h
  | @sign c _ h t =>
    have hc := (by decide : ∀ c ∈ ['-', '+', '~'],
      isIdentStart c = false ∧ Text.isGap c = false) c h
    exact absurd_of (name_fails_of_head hc.1 hc.2 t)
  | @word j w t hw _ _ ht =>
    rw [name, Parser.refine, identifier_ok hw ht.wordEnd] at hn
    split at hn
    · rename_i heq
      cases heq
      split at hn
      · cases hn
        exact ht.stringPiece_fails.2
      · cases hn
    · cases hn
  | negation _ t =>
    have hword : IsIdentifier "not".toList := reserved_isIdentifier (by decide)
    have hfails : Fails name ("not".toList ++ ' ' :: t) :=
      name_fails_of_reserved hword (by decide) (wordEnd_cons (by decide) t)
    exact absurd_of hfails
  | @lambda c _ hc t =>
    have hword : IsIdentifier "lambda".toList := reserved_isIdentifier (by decide)
    have hend : isIdentChar c = false :=
      (by decide : ∀ c ∈ [' ', ':'], isIdentChar c = false) c hc
    exact absurd_of (name_fails_of_reserved hword (by decide) (wordEnd_cons hend t))

end Opens

/-- However it goes on, the text starts like an expression of the level `k`. -/
def Begins (k : Nat) (s : List Char) : Prop := ∀ ⦃j : Nat⦄ ⦃r : List Char⦄, Follow j r → Opens k (s ++ r)

end DocQuery
