import DocQuery.Proofs.Parsing
import DocQuery.Expr.Token

/-! # What the tokens read

Every kind of token is read back from its own text when what follows cannot extend it.

* `WordEnd`: a text that cannot extend a word. `IsName`: a word that is a name.
* `name_ok`, `keyword_ok`, `number_ok`, `stringPiece_quoted`: the tokens read their own texts.
* `keyword_fails_of_name`: a name is never taken for a reserved word.
* `Skips`: parsers for which a gap in front of the text makes no difference.
-/

set_option autoImplicit false

namespace DocQuery.Token

open DocQuery.Parser

/-! ## Classes of characters -/

/-- A statement about the members of a list of characters is decided along the list. -/
instance (priority := 2000) decidableForallMem {p : Char → Prop} [DecidablePred p]
    (cs : List Char) : Decidable (∀ c ∈ cs, p c) :=
  List.decidableBAll p cs

theorem isIdentChar_of_isIdentStart {c : Char} (h : isIdentStart c = true) :
    isIdentChar c = true := by
  simp only [isIdentStart, Bool.or_eq_true] at h
  simp only [isIdentChar, Bool.or_eq_true]
  rcases h with h | h
  · exact .inl (.inl h)
  · exact .inr h

theorem toNat_lt_of_isDigit {c : Char} (h : c.isDigit = true) : c.toNat < 128 := by
  simp only [Char.isDigit, Bool.and_eq_true, decide_eq_true_eq] at h
  have h9 : c.val.toNat ≤ 57 := UInt32.le_iff_toNat_le.1 h.2
  exact Nat.lt_of_le_of_lt h9 (by decide)

theorem isIdentChar_of_isDigit {c : Char} (h : c.isDigit = true) : isIdentChar c = true := by
  simp [isIdentChar, Text.isNumeral_of_lt (toNat_lt_of_isDigit h), h]

theorem isIdentStart_of_isDigit {c : Char} (h : c.isDigit = true) : isIdentStart c = false := by
  have hupper : 48 ≤ c.val.toNat ∧ c.val.toNat ≤ 57 := by
    simp only [Char.isDigit, Bool.and_eq_true, decide_eq_true_eq] at h
    exact ⟨UInt32.le_iff_toNat_le.1 h.1, UInt32.le_iff_toNat_le.1 h.2⟩
  have halpha : c.isAlpha = false := by
    rw [← Bool.not_eq_true]
    intro h
    simp only [Char.isAlpha, Char.isUpper, Char.isLower, Bool.or_eq_true, decide_eq_true_eq,
      Bool.and_eq_true] at h
    rcases h with h | h
    · have h65 : 65 ≤ c.val.toNat := UInt32.le_iff_toNat_le.1 h.1
      omega
    · have h97 : 97 ≤ c.val.toNat := UInt32.le_iff_toNat_le.1 h.1
      omega
  have hline : c ≠ '_' := by
    rintro rfl
    revert h
    decide
  simp [isIdentStart, Text.isLetter_of_lt (toNat_lt_of_isDigit h), halpha, hline]

theorem isGap_of_isIdentChar {c : Char} (h : isIdentChar c = true) : Text.isGap c = false := by
  rw [← Bool.not_eq_true]
  intro hgap
  simp only [Text.isGap, Bool.or_eq_true, beq_iff_eq] at hgap
  rcases hgap with ((rfl | rfl) | rfl) | rfl <;> revert h <;> decide

theorem skipGap_cons {c : Char} (h : Text.isGap c = false) (s : List Char) :
    Text.skipGap (c :: s) = c :: s := by
  rw [Text.skipGap, List.dropWhile_cons_of_neg (by simp [h])]

theorem skipGap_gap {c : Char} (h : Text.isGap c = true) (s : List Char) :
    Text.skipGap (c :: s) = Text.skipGap s := by
  rw [Text.skipGap, List.dropWhile_cons_of_pos h, Text.skipGap]

theorem after?_append (w s : List Char) : Text.after? w (w ++ s) = some s := by
  induction w with
  | nil => rfl
  | cons c w ih => simpa [Text.after?] using ih

theorem eq_append_of_after? {w s r : List Char} (h : Text.after? w s = some r) : s = w ++ r := by
  induction w generalizing s with
  | nil => simpa [Text.after?] using h
  | cons c w ih =>
    cases s with
    | nil => simp [Text.after?] at h
    | cons d s =>
      rw [Text.after?] at h
      split at h
      · rename_i hcd
        rw [ih h, hcd]
        rfl
      · cases h

/-! ## Fixed tokens -/

theorem operator_apply (w : String) (others s : List Char) :
    operator w others s = match Text.after? w.toList (Text.skipGap s) with
      | some r => if startsWithAny others r then .error s else .ok () r
      | none => .error (Text.skipGap s) := by
  unfold operator Parser.refine
  rw [bind_apply]
  simp only [gap, word]
  cases Text.after? w.toList (Text.skipGap s) with
  | none => rfl
  | some r =>
    dsimp only
    split <;> simp_all

theorem operator_ok {w : String} {others s r : List Char}
    (h : Text.after? w.toList (Text.skipGap s) = some r) (hr : startsWithAny others r = false) :
    operator w others s = .ok () r := by
  simp [operator_apply, h, hr]

theorem startsWithAny_nil (s : List Char) : startsWithAny [] s = false := by
  cases s <;> rfl

theorem symbol_ok {w : String} {s r : List Char}
    (h : Text.after? w.toList (Text.skipGap s) = some r) : symbol w s = .ok () r :=
  operator_ok h (startsWithAny_nil r)

theorem operator_fails {w : String} {others s : List Char}
    (h : Text.after? w.toList (Text.skipGap s) = none) : Fails (operator w others) s :=
  ⟨Text.skipGap s, by simp [operator_apply, h]⟩

theorem operator_fails_of_head {c d : Char} {ds t others : List Char} {w : String}
    (hw : w.toList = d :: ds) (hgap : Text.isGap c = false) (hne : c ≠ d) :
    Fails (operator w others) (c :: t) := by
  apply operator_fails
  rw [skipGap_cons hgap, hw]
  exact if_neg hne.symm

theorem startsWithAny_mono {cs ds t : List Char} (h : startsWithAny ds t = false) (hs : cs ⊆ ds) :
    startsWithAny cs t = false := by
  cases t with
  | nil => rfl
  | cons c t =>
    simp only [startsWithAny, List.contains_eq_mem, decide_eq_false_iff_not] at h ⊢
    exact fun hc => h (hs hc)

theorem doubleStar_fails {t : List Char} (h : startsWithAny ['*'] t = false) :
    Fails (symbol "**") ('*' :: t) := by
  apply operator_fails
  cases t with
  | nil => rfl
  | cons c t =>
    have hc : '*' ≠ c := by
      rintro rfl
      simp [startsWithAny] at h
    exact if_neg hc

/-- The text starts with no character of a word. -/
def WordEnd (s : List Char) : Prop := ∀ c ∈ s.head?, isIdentChar c = false

theorem wordEnd_cons {c : Char} (h : isIdentChar c = false) (s : List Char) : WordEnd (c :: s) := by
  simpa [WordEnd] using h

theorem notNext_ok {s : List Char} (h : WordEnd s) : notNext isIdentChar s = .ok () s := by
  cases s with
  | nil => rfl
  | cons c s => simp [notNext, h c rfl]

theorem keyword_apply (w : String) (s : List Char) :
    keyword w s = match Text.after? w.toList (Text.skipGap s) with
      | some r => notNext isIdentChar r
      | none => .error (Text.skipGap s) := by
  unfold keyword
  rw [bind_apply]
  simp only [gap]
  rw [bind_apply]
  simp only [word]
  cases Text.after? w.toList (Text.skipGap s) <;> rfl

theorem keyword_ok {w : String} {s r : List Char}
    (h : Text.after? w.toList (Text.skipGap s) = some r) (hr : WordEnd r) :
    keyword w s = .ok () r := by
  simp only [keyword_apply, h, notNext_ok hr]

theorem keyword_fails {w : String} {s : List Char}
    (h : Text.after? w.toList (Text.skipGap s) = none) : Fails (keyword w) s :=
  ⟨Text.skipGap s, by simp only [keyword_apply, h]⟩

/-! ## Names -/

/-- The characters of an identifier. -/
def IsIdentifier (w : List Char) : Prop :=
  ∃ c cs, w = c :: cs ∧ isIdentStart c = true ∧ ∀ d ∈ cs, isIdentChar d = true

/-- An identifier that is not reserved. -/
def IsName (id : String) : Prop := IsIdentifier id.toList ∧ id ∉ reserved

theorem IsIdentifier.isIdentChar {w : List Char} (h : IsIdentifier w) :
    ∀ c ∈ w, isIdentChar c = true := by
  obtain ⟨c, cs, rfl, hc, hcs⟩ := h
  intro d hd
  rcases List.mem_cons.1 hd with rfl | hd
  · exact isIdentChar_of_isIdentStart hc
  · exact hcs d hd

theorem takeWhile_append {class' : Char → Bool} {w s : List Char} (hw : ∀ c ∈ w, class' c = true)
    (hs : ∀ c ∈ s.head?, class' c = false) : (w ++ s).takeWhile class' = w := by
  rw [List.takeWhile_append_of_pos hw]
  cases s with
  | nil => simp
  | cons c s => simp [hs c rfl]

theorem dropWhile_append {class' : Char → Bool} {w s : List Char} (hw : ∀ c ∈ w, class' c = true)
    (hs : ∀ c ∈ s.head?, class' c = false) : (w ++ s).dropWhile class' = s := by
  rw [List.dropWhile_append_of_pos hw]
  cases s with
  | nil => simp
  | cons c s => simp [hs c rfl]

theorem skipGap_identifier {w : List Char} (h : IsIdentifier w) (s : List Char) :
    Text.skipGap (w ++ s) = w ++ s := by
  obtain ⟨c, cs, rfl, hc, -⟩ := h
  exact skipGap_cons (isGap_of_isIdentChar (isIdentChar_of_isIdentStart hc)) _

theorem identifier_ok {w s : List Char} (h : IsIdentifier w) (hs : WordEnd s) :
    identifier (w ++ s) = .ok (String.ofList w) s := by
  have hgap : gap (w ++ s) = .ok () (w ++ s) := by rw [gap, skipGap_identifier h]
  obtain ⟨c, cs, rfl, hc, hcs⟩ := h
  have hfirst : satisfy isIdentStart (c :: cs ++ s) = .ok c (cs ++ s) := by simp [satisfy, hc]
  have hothers : takeWhile isIdentChar (cs ++ s) = .ok cs s := by
    rw [Parser.takeWhile, takeWhile_append hcs hs, dropWhile_append hcs hs]
  rw [identifier, bind_ok hgap, bind_ok hfirst, bind_ok hothers]
  rfl

theorem name_ok {id : String} {s : List Char} (h : IsName id) (hs : WordEnd s) :
    name (id.toList ++ s) = .ok id s := by
  refine refine_ok (identifier_ok h.1 hs) ?_
  simp only [String.ofList_toList]
  rw [if_neg]
  simpa using h.2

theorem name_fails_of_reserved {w : String} {s : List Char} (hw : IsIdentifier w.toList)
    (h : w ∈ reserved) (hs : WordEnd s) : Fails name (w.toList ++ s) := by
  refine fails_refine_none (identifier_ok hw hs) ?_
  simp only [String.ofList_toList]
  rw [if_pos]
  simpa using h

/-- A keyword that is read takes the whole word in front of it. -/
theorem takeWhile_of_keyword {w : String} {s r : List Char} (hw : ∀ c ∈ w.toList, isIdentChar c)
    (h : keyword w s = .ok () r) : (Text.skipGap s).takeWhile isIdentChar = w.toList := by
  rw [keyword_apply] at h
  split at h
  · rename_i t ht
    rw [eq_append_of_after? ht]
    refine takeWhile_append hw ?_
    intro c hc
    cases t with
    | nil => cases hc
    | cons d t =>
      cases hc
      rw [notNext] at h
      split at h
      · cases h
      · rename_i hd
        simpa using hd
  · cases h

theorem reserved_isIdentifier {w : String} (h : w ∈ reserved) : IsIdentifier w.toList := by
  have hall : ∀ w ∈ reserved, ∀ c ∈ w.toList, isIdentStart c = true := by decide
  have hne : ∀ w ∈ reserved, w.toList ≠ [] := by decide
  cases hw : w.toList with
  | nil => exact absurd hw (hne w h)
  | cons c cs =>
    rw [← hw]
    refine ⟨c, cs, hw, hall w h c (by simp [hw]), ?_⟩
    intro d hd
    exact isIdentChar_of_isIdentStart (hall w h d (by simp [hw, hd]))

theorem keyword_fails_of_identifier {w : String} {v s : List Char} (hw : w ∈ reserved)
    (hv : IsIdentifier v) (hne : v ≠ w.toList) (hs : WordEnd s) : Fails (keyword w) (v ++ s) := by
  cases hk : keyword w (v ++ s) with
  | error place => exact ⟨place, hk⟩
  | ok u r =>
    have h := takeWhile_of_keyword (reserved_isIdentifier hw).isIdentChar hk
    rw [skipGap_identifier hv, takeWhile_append hv.isIdentChar hs] at h
    exact absurd h hne

/-- A name is never taken for a reserved word. -/
theorem keyword_fails_of_name {w id : String} {s : List Char} (hw : w ∈ reserved) (h : IsName id)
    (hs : WordEnd s) : Fails (keyword w) (id.toList ++ s) := by
  refine keyword_fails_of_identifier hw h.1 ?_ hs
  intro heq
  rw [String.toList_inj] at heq
  exact h.2 (heq ▸ hw)

/-! ## Numbers -/

theorem toString_natCast (n : Nat) : (toString (n : Int)).toList = Nat.toDigits 10 n := by
  rw [Int.toString_eq_repr, Int.repr_eq_if, if_pos (Int.natCast_nonneg n), Int.toNat_natCast,
    Nat.toList_repr]

theorem isDigit_toDigits (n : Nat) : ∀ c ∈ Nat.toDigits 10 n, c.isDigit = true :=
  fun _ hc => Nat.isDigit_of_mem_toDigits (by decide) (by decide) hc

/-- The digits of an integer are read up to a character that cannot go on with the number. -/
theorem number_ok {n : Nat} {s : List Char} (h : n < Width.signed64) (hs : WordEnd s)
    (hpoint : s.head? ≠ some '.') :
    number (Nat.toDigits 10 n ++ s) = .ok (.int n) s := by
  have hdigits := isDigit_toDigits n
  have hne : Nat.toDigits 10 n ≠ [] := Nat.toDigits_ne_nil
  have hend : ∀ c ∈ s.head?, c.isDigit = false := by
    intro c hc
    rw [← Bool.not_eq_true]
    intro hd
    have := hs c hc
    rw [isIdentChar_of_isDigit hd] at this
    cases this
  have hgap : gap (Nat.toDigits 10 n ++ s) = .ok () (Nat.toDigits 10 n ++ s) := by
    cases hds : Nat.toDigits 10 n with
    | nil => exact absurd hds hne
    | cons d ds =>
      have hd := hdigits d (by simp [hds])
      rw [gap, List.cons_append, skipGap_cons (isGap_of_isIdentChar (isIdentChar_of_isDigit hd))]
  have hwhole : takeWhile1 Char.isDigit (Nat.toDigits 10 n ++ s) = .ok (Nat.toDigits 10 n) s := by
    rw [takeWhile1, takeWhile_append hdigits hend, dropWhile_append hdigits hend]
    simp
  have hfraction : Fails (do let _ ← satisfy (· == '.'); takeWhile Char.isDigit) s := by
    apply fails_bind
    cases s with
    | nil => exact ⟨[], rfl⟩
    | cons c s =>
      have hc : c ≠ '.' := by simpa using hpoint
      exact ⟨c :: s, by simp [satisfy, hc]⟩
  have hmantissa : mantissa (Nat.toDigits 10 n ++ s) = .ok (Nat.toDigits 10 n, none) s := by
    apply orElse_ok
    rw [bind_ok hwhole, bind_ok (opt_of_fails hfraction)]
    rfl
  have hexponent : Fails exponent s := by
    apply fails_bind
    cases s with
    | nil => exact ⟨[], rfl⟩
    | cons c s =>
      have hc := hs c rfl
      have he : c ≠ 'e' := by rintro rfl; revert hc; decide
      have hE : c ≠ 'E' := by rintro rfl; revert hc; decide
      exact ⟨c :: s, by simp [satisfy, he, hE]⟩
  have hnumeral : numeral (Nat.toDigits 10 n ++ s) = .ok ⟨Nat.toDigits 10 n, none, none⟩ s := by
    rw [numeral, bind_ok hgap, bind_ok hmantissa]
    exact bind_ok (opt_of_fails hexponent) _
  refine refine_ok hnumeral ?_
  have hliteral : Numeral.literal? ⟨Nat.toDigits 10 n, none, none⟩ = some (.int n) := by
    simp [Numeral.literal?, digitsValue, h]
  cases s with
  | nil => exact hliteral
  | cons c s =>
    have hc : isIdentStart c = false := by
      rw [← Bool.not_eq_true]
      intro hstart
      have := hs c rfl
      rw [isIdentChar_of_isIdentStart hstart] at this
      cases this
    simp only [hc]
    exact hliteral

theorem number_fails {c : Char} {t : List Char} (hc : isIdentStart c = true) : Fails number (c :: t) := by
  have hgap : gap (c :: t) = .ok () (c :: t) := by
    rw [gap, skipGap_cons (isGap_of_isIdentChar (isIdentChar_of_isIdentStart hc))]
  have hdigit : c.isDigit = false := by
    rw [← Bool.not_eq_true]
    intro hd
    rw [isIdentStart_of_isDigit hd] at hc
    cases hc
  have hpoint : c ≠ '.' := by
    rintro rfl
    revert hc
    decide
  have hwhole : Fails (takeWhile1 Char.isDigit) (c :: t) := ⟨c :: t, by simp [takeWhile1, hdigit]⟩
  have hdot : Fails (satisfy (· == '.')) (c :: t) := ⟨c :: t, by simp [satisfy, hpoint]⟩
  have hmantissa : Fails mantissa (c :: t) := fails_orElse (fails_bind hwhole _) (fails_bind hdot _)
  exact fails_refine (fails_bind_ok hgap (fails_bind hmantissa _)) _

/-! ## Strings -/

theorem stringBody_escaped (cs s : List Char) :
    stringBody '\'' false (cs.flatMap Text.escape ++ '\'' :: s) = some (cs, s) := by
  induction cs with
  | nil =>
    rw [stringBody.eq_def]
    simp
  | cons c cs ih =>
    rw [List.flatMap_cons, List.append_assoc]
    rcases Text.unescape?_escape c with ⟨hesc, hback, hquote, hline⟩ | ⟨d, hesc, hd⟩
    · rw [hesc, List.singleton_append, stringBody.eq_def]
      simp [hback, hquote, hline, ih]
    · rw [hesc, List.cons_append, List.cons_append, List.nil_append, stringBody.eq_def]
      simp [hd, ih]

theorem toList_quoted (s : String) :
    (Text.quoted s).toList = '\'' :: (s.toList.flatMap Text.escape ++ ['\'']) := by
  simp [Text.quoted]

/-- The literal of a string is read back, whatever follows it. -/
theorem stringPiece_quoted (s : String) (r : List Char) :
    stringPiece ((Text.quoted s).toList ++ r) = .ok s r := by
  have hgap : gap ((Text.quoted s).toList ++ r) = .ok () ((Text.quoted s).toList ++ r) := by
    rw [toList_quoted]
    rfl
  have hmark : opt (satisfy fun c => c == 'r' || c == 'R' || c == 'u' || c == 'U')
      ((Text.quoted s).toList ++ r) = .ok none ((Text.quoted s).toList ++ r) := by
    rw [toList_quoted]
    rfl
  rw [stringPiece, bind_ok hgap]
  refine (bind_ok hmark _).trans ?_
  rw [toList_quoted, List.cons_append]
  simp [stringBody_escaped s.toList r]

theorem stringLiteral_quoted {s : String} {r : List Char} (h : Fails stringPiece r) :
    stringLiteral ((Text.quoted s).toList ++ r) = .ok s r := by
  have hpieces : many1 stringPiece ((Text.quoted s).toList ++ r) = .ok [s] r :=
    many1_of_steps (stringPiece_quoted s r) (.done r) h
  rw [stringLiteral, bind_ok hpieces]
  simp [String.join]

/-- A text that starts with neither a quote nor a character of a string's mark is no string. -/
theorem stringPiece_fails_of_head {c : Char} {t : List Char} (hgap : Text.isGap c = false)
    (hmark : c ∉ ['r', 'R', 'u', 'U']) (hquote : c ∉ ['\'', '"']) : Fails stringPiece (c :: t) := by
  have hg : gap (c :: t) = .ok () (c :: t) := by rw [gap, skipGap_cons hgap]
  have hopt : opt (satisfy fun c => c == 'r' || c == 'R' || c == 'u' || c == 'U') (c :: t) =
      .ok none (c :: t) := by
    refine opt_of_fails ⟨c :: t, ?_⟩
    simp only [List.mem_cons, List.not_mem_nil, or_false, not_or] at hmark
    simp [satisfy, hmark]
  refine fails_bind_ok hg (fails_bind_ok hopt ⟨c :: t, ?_⟩)
  simp only [List.mem_cons, List.not_mem_nil, or_false, not_or] at hquote
  simp [hquote]

/-- A word is no string, also when it ends like the mark of one. -/
theorem stringLiteral_fails {c : Char} {cs t : List Char}
    (hword : ∀ d ∈ c :: cs, isIdentChar d = true) (ht : ∀ d ∈ t.head?, d ∉ ['\'', '"']) : Fails stringLiteral (c :: (cs ++ t)) := by
  have hquote : ∀ d, isIdentChar d = true → d ∉ ['\'', '"'] := by
    intro d hd hmem
    have := (by decide : ∀ d ∈ ['\'', '"'], isIdentChar d = false) d hmem
    rw [hd] at this
    cases this
  have hgap := isGap_of_isIdentChar (hword c List.mem_cons_self)
  apply fails_bind
  apply fails_bind
  by_cases hmark : c ∈ ['r', 'R', 'u', 'U']
  · have hg : gap (c :: (cs ++ t)) = .ok () (c :: (cs ++ t)) := by rw [gap, skipGap_cons hgap]
    have hopt : opt (satisfy fun c => c == 'r' || c == 'R' || c == 'u' || c == 'U')
        (c :: (cs ++ t)) = .ok (some c) (cs ++ t) := by
      apply opt_ok
      simp only [List.mem_cons, List.not_mem_nil, or_false] at hmark
      simp [satisfy, hmark, or_assoc]
    -- The next character is one of the word or the first one after it, and never a quote.
    have hnext : ∀ d ∈ (cs ++ t).head?, d ∉ ['\'', '"'] := by
      cases cs with
      | nil => exact ht
      | cons d cs =>
        intro d' hd'
        cases hd'
        exact hquote d (hword d (by simp))
    refine fails_bind_ok hg (fails_bind_ok hopt ?_)
    cases hcs : cs ++ t with
    | nil => exact ⟨[], rfl⟩
    | cons d r =>
      have hd := hnext d (by simp [hcs])
      simp only [List.mem_cons, List.not_mem_nil, or_false, not_or] at hd
      exact ⟨d :: r, by simp [hd]⟩
  · exact stringPiece_fails_of_head hgap hmark (hquote c (hword c List.mem_cons_self))

/-! ## Gaps in front of a text -/

section Skips

variable {α β : Type} {p q : Parser α} {s r : List Char} {a : α} {c : Char}

/-- Two answers with the same value and the same rest, or two failures. -/
def Agree : Reply α → Reply α → Prop
  | .ok a r, .ok b t => a = b ∧ r = t
  | .error _, .error _ => True
  | _, _ => False

theorem Agree.refl (x : Reply α) : Agree x x := by
  cases x with
  | ok a r => exact ⟨rfl, rfl⟩
  | error place => exact True.intro

/-- A gap in front of the text changes nothing but the place of a failure. -/
def Skips (p : Parser α) : Prop :=
  ∀ ⦃c : Char⦄ (s : List Char), Text.isGap c = true → Agree (p (c :: s)) (p s)

theorem Skips.ok (h : Skips p) (hc : Text.isGap c = true) (hs : p s = .ok a r) :
    p (c :: s) = .ok a r := by
  have hagree := h s hc
  rw [hs] at hagree
  cases hp : p (c :: s) with
  | ok b t =>
    rw [hp] at hagree
    rw [hagree.1, hagree.2]
  | error place =>
    rw [hp] at hagree
    exact hagree.elim

theorem Skips.fails (h : Skips p) (hc : Text.isGap c = true) (hs : Fails p s) :
    Fails p (c :: s) := by
  obtain ⟨place, hs⟩ := hs
  have hagree := h s hc
  rw [hs] at hagree
  cases hp : p (c :: s) with
  | ok b t =>
    rw [hp] at hagree
    exact hagree.elim
  | error place' => exact ⟨place', hp⟩

theorem skips_of_gap (f : Unit → Parser β) : Skips (gap >>= f) := by
  intro c s hc
  have h : ∀ t, (gap >>= f) t = f () (Text.skipGap t) := fun t => rfl
  rw [h, h, skipGap_gap hc]
  exact Agree.refl _

theorem Skips.bind (h : Skips p) (f : α → Parser β) : Skips (p >>= f) := by
  intro c s hc
  cases hs : p s with
  | ok a r =>
    rw [bind_ok (h.ok hc hs), bind_ok hs]
    exact Agree.refl _
  | error place =>
    obtain ⟨place', hs'⟩ := h.fails hc ⟨place, hs⟩
    rw [bind_error hs', bind_error hs]
    exact True.intro

theorem Skips.orElse (hp : Skips p) (hq : Skips q) : Skips (p <|> q) := by
  intro c s hc
  cases hs : p s with
  | ok a r =>
    rw [orElse_ok (hp.ok hc hs), orElse_ok hs]
    exact Agree.refl _
  | error place =>
    rw [orElse_of_fails (hp.fails hc ⟨place, hs⟩), orElse_of_fails ⟨place, hs⟩]
    exact hq s hc

theorem Skips.refine (h : Skips p) (check : α → List Char → Option β) :
    Skips (refine p check) := by
  intro c s hc
  cases hs : p s with
  | ok a r =>
    have hs' := h.ok hc hs
    cases hcheck : check a r with
    | some b =>
      rw [refine_ok hs' hcheck, refine_ok hs hcheck]
      exact Agree.refl _
    | none =>
      simp only [Parser.refine, hs, hs', hcheck]
      exact True.intro
  | error place =>
    obtain ⟨place', hs'⟩ := h.fails hc ⟨place, hs⟩
    simp only [Parser.refine, hs, hs']
    exact True.intro

theorem skips_operator (w : String) (others : List Char) : Skips (operator w others) :=
  (skips_of_gap _).refine _

theorem skips_keyword (w : String) : Skips (keyword w) := skips_of_gap _

theorem skips_name : Skips name := Skips.refine (skips_of_gap _) _

theorem skips_number : Skips number := Skips.refine (skips_of_gap _) _

theorem skips_stringLiteral : Skips stringLiteral := ((skips_of_gap _).bind _).bind _

end Skips

end DocQuery.Token
