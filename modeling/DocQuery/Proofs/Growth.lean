import DocQuery.Proofs.Conditions
import DocQuery.Proofs.Derivations

/-! # Two contexts that read an expression differently

The contexts of the two statements of a union differ in what the variable of the iteration stands for
and in the membership test that is guaranteed. Where an expression touches neither, its values are
the same; where it does, the text in the one context is shorter than in the other.

* `Expr.Own`: what is evaluated in the context of the whole expression.
* `Sql.Near a b`: the context `b` knows at most one more variable than `a` and does not profit from a
  guarantee.
* `Sql.Gives.grown`: values in two such contexts are the same, or there is more of them in `b`.
-/

set_option autoImplicit false

namespace DocQuery

/-- The parts of an expression that are evaluated in the context of the expression. The conditions on
the elements of an array are not. -/
def Expr.ownParts : Expr → List Expr
  | attr value _ => [value]
  | subscript value _ => [value]
  | binary left _ right => [left, right]
  | unary _ operand => [operand]
  | compare left _ operands => left :: operands
  | boolean _ operands => operands
  | conditional test body otherwise => [test, body, otherwise]
  | call (attr value _) _ _ => [value]
  | call _ args _ => args.flatMap fun a =>
    match a.comprehensionParts? with
    | some (_, clauses) => clauses.map (·.source)
    | none => [a]
  | list items => items
  | tuple items => items
  | _ => []

/-- `x.Own e`: the expression `x` is `e` or is evaluated in its context at some depth. -/
inductive Expr.Own (x : Expr) : Expr → Prop
  | self : Own x x
  | part {e p : Expr} (hp : p ∈ e.ownParts) (h : Own x p) : Own x e

theorem Expr.own_iff {x e : Expr} : x.Own e ↔ x = e ∨ ∃ p ∈ e.ownParts, x.Own p := by
  constructor
  · rintro (_ | ⟨hp, h⟩)
    · exact .inl rfl
    · exact .inr ⟨_, hp, h⟩
  · rintro (rfl | ⟨p, hp, h⟩)
    · exact .self
    · exact .part hp h

/-! ## Texts -/

/-- The texts are the same, and under the condition `P` the second one is longer instead. -/
inductive Longer (P : Prop) (s t : String) : Prop
  | same (hP : ¬ P) (h : s = t)
  | more (hP : P) (h : s.length < t.length)

namespace Longer

variable {P Q : Prop} {s t s' t' : String}

theorem length_le (h : Longer P s t) : s.length ≤ t.length := by
  cases h with
  | same hP h => rw [h]
  | more hP h => exact Nat.le_of_lt h

theorem length_lt (h : Longer P s t) (hP : P) : s.length < t.length := by
  cases h with
  | same hP' h => exact absurd hP hP'
  | more hP h => exact h

theorem eq (h : Longer P s t) (hP : ¬ P) : s = t := by
  cases h with
  | same hP h => exact h
  | more hP' h => exact absurd hP' hP

theorem eq_iff (h : Longer P s t) : s = t ↔ ¬ P := by
  refine ⟨?_, h.eq⟩
  rintro rfl hP
  exact absurd (h.length_lt hP) (Nat.lt_irrefl _)

/-- A text around another one. -/
theorem one (f : String → String)
    (hf : ∀ x y : String, x.length < y.length → (f x).length < (f y).length) (h : Longer P s t) :
    Longer P (f s) (f t) := by
  cases h with
  | same hP h => exact .same hP (by rw [h])
  | more hP h => exact .more hP (hf _ _ h)

/-- A text around two others. -/
theorem two (f : String → String → String)
    (hf : ∀ x y x' y' : String, x.length ≤ y.length → x'.length ≤ y'.length →
      x.length < y.length ∨ x'.length < y'.length → (f x x').length < (f y y').length)
    (h : Longer P s t) (h' : Longer Q s' t') : Longer (P ∨ Q) (f s s') (f t t') := by
  by_cases hPQ : P ∨ Q
  · refine .more hPQ (hf _ _ _ _ h.length_le h'.length_le ?_)
    exact hPQ.imp h.length_lt h'.length_lt
  · refine .same hPQ ?_
    rw [h.eq fun hP => hPQ (.inl hP), h'.eq fun hQ => hPQ (.inr hQ)]

end Longer

/-- The number of characters in several texts. -/
def total (ss : List String) : Nat := (ss.map String.length).sum

theorem length_intercalate (sep : String) (ss : List String) :
    (sep.intercalate ss).length = total ss + sep.length * (ss.length - 1) := by
  have hlength : ∀ (s : String) (ss : List String), (sep.intercalate (s :: ss)).length =
      total (s :: ss) + sep.length * ss.length := by
    intro s ss
    induction ss generalizing s with
    | nil => simp [total]
    | cons t ss ih =>
      rw [String.intercalate_cons_cons, String.length_append, String.length_append, ih t]
      simp only [total, List.map_cons, List.sum_cons, List.length_cons, Nat.mul_succ]
      omega
  cases ss with
  | nil => simp [total]
  | cons s ss => rw [hlength, List.length_cons, Nat.add_sub_cancel]

theorem length_commaJoined (ss : List String) :
    (commaJoined ss).length = total ss + 2 * (ss.length - 1) :=
  length_intercalate ", " ss

namespace Sql

open Context

/-! ## Contexts -/

/-- The context `b` differs from `a` in the variable of the iteration, which stands for nothing in
`a`, and in the guarantee, from which only `a` may profit. -/
structure Near (a b : Context) : Prop where
  within : ∀ target, a.within target = b.within target
  resolve : ∀ id, a.scope.resolve id = b.scope.resolve id ∨
    a.scope.resolve id = .unbound ∧ b.scope.resolve id = .element
  test : b.guaranteed = none ∨
    a.guaranteed = none ∧ ∀ e v, b.isGuaranteed e = true → ¬ Gives a e v

/-- The value of an expression itself depends on the context: it is the test that is guaranteed, or
the variable of the iteration. -/
def Touches (a b : Context) (x : Expr) : Prop :=
  a.isGuaranteed x = true ∨ ∃ id, x = .name id ∧ a.scope.resolve id ≠ b.scope.resolve id

/-- The expression has a part whose value depends on the context. -/
def Mentions (a b : Context) (e : Expr) : Prop := ∃ x : Expr, x.Own e ∧ Touches a b x

variable {a b : Context} {e : Expr}

theorem mentions_iff :
    Mentions a b e ↔ Touches a b e ∨ ∃ p ∈ e.ownParts, Mentions a b p := by
  constructor
  · rintro ⟨x, hx, ht⟩
    rcases Expr.own_iff.1 hx with rfl | ⟨p, hp, hx⟩
    · exact .inl ht
    · exact .inr ⟨p, hp, x, hx, ht⟩
  · rintro (ht | ⟨p, hp, x, hx, ht⟩)
    · exact ⟨e, .self, ht⟩
    · exact ⟨x, .part hp hx, ht⟩

theorem isGuaranteed_eq_false (h : e.membershipParts? = none) : a.isGuaranteed e = false := by
  rw [isGuaranteed, Option.any_eq_false]
  intro m hm
  simp [Membership.isTest, h]

theorem mentions_compound (hname : e.asName? = none) (hg : a.isGuaranteed e = false) :
    Mentions a b e ↔ ∃ p ∈ e.ownParts, Mentions a b p := by
  rw [mentions_iff]
  refine or_iff_right ?_
  rintro (ht | ⟨id, rfl, -⟩)
  · rw [hg] at ht
    cases ht
  · cases hname

namespace Near

variable (h : Near a b)

include h

theorem base : a.base = b.base := by
  have hbase := congrArg Context.base (h.within "")
  exact hbase

theorem qualify : a.qualify = b.qualify := by
  have hqualify := congrArg Context.qualify (h.within "")
  exact hqualify

theorem rootOf (table : String) : a.rootOf table = b.rootOf table := by
  rw [Context.rootOf, Context.rootOf, h.base, h.qualify]

theorem sqlOf (v : Value) : a.sqlOf e v = b.sqlOf e v := by
  cases v with
  | table name => simp only [Context.sqlOf, h.rootOf]
  | bound value => cases value <;> rfl
  | _ => rfl

theorem attributeOf (label : String) (v : Value) :
    a.attributeOf e label v = b.attributeOf e label v := by
  cases v with
  | table name => simp only [Context.attributeOf, h.rootOf]
  | _ => rfl

theorem isGuaranteed_of_gives {v : Value} (hv : Gives a e v) : b.isGuaranteed e = false := by
  rcases h.test with hnone | ⟨-, htest⟩
  · rw [isGuaranteed, hnone]
    rfl
  · rw [← Bool.not_eq_true]
    exact fun hg => htest e v hg hv

/-- The elements of an array are read in one and the same context. -/
theorem inside (target : String) : Near (a.within target) (b.within target) where
  within t := by rw [h.within]
  resolve id := .inl (by rw [h.within])
  test := .inl rfl

theorem not_mentions_inside (target : String) (e : Expr) :
    ¬ Mentions (a.within target) (b.within target) e := by
  rintro ⟨x, -, ht | ⟨id, -, hne⟩⟩
  · cases ht
  · rw [h.within] at hne
    exact hne rfl

end Near

/-! ## Values -/

/-- The values are the same, and under the condition `P` there is more of the second one instead. -/
inductive Grown (P : Prop) : Value → Value → Prop
  | same {v : Value} (hP : ¬ P) (hv : v.isSatisfied = false) : Grown P v v
  | text {s t : String} (hP : P) (h : s.length < t.length) : Grown P (.text s) (.text t)
  | element {s : String} {p : FieldPath} (hP : P) (h : s.length < p.field.length) :
      Grown P (.text s) (.path p)
  | sequence {ss ts : List String} (hP : P)
      (h : (Sql.sequence ss).length < (Sql.sequence ts).length) :
      Grown P (.sequence ss) (.sequence ts)
  | satisfied {t : String} (hP : P) (h : 4 < t.length) : Grown P .satisfied (.text t)

/-- The values of an expression in the context `b` are `v`, or there is more of them. -/
def Grows (a b : Context) (e : Expr) (v : Value) : Prop :=
  ∀ ⦃w : Value⦄, Gives b e w → Grown (Mentions a b e) v w

variable {P Q : Prop} {v w : Value}

theorem Grown.congr (h : Grown P v w) (hPQ : P ↔ Q) : Grown Q v w := by
  rwa [← propext hPQ]

theorem Grown.isSatisfied (h : Grown P v w) : w.isSatisfied = false := by
  cases h with
  | same hP hv => exact hv
  | _ => rfl

theorem Grown.eq (h : Grown P v w) (hP : ¬ P) : v = w := by
  cases h with
  | same => rfl
  | text hP' => exact absurd hP' hP
  | element hP' => exact absurd hP' hP
  | sequence hP' => exact absurd hP' hP
  | satisfied hP' => exact absurd hP' hP

/-- The values of an operation come from texts. -/
theorem grown_of_longer {s t : String} (h : Longer P s t) : Grown P (.text s) (.text t) := by
  cases h with
  | same hP h =>
    cases h
    exact .same hP rfl
  | more hP h => exact .text hP h

theorem Grown.longer (hn : Near a b) (h : Grown P v w) {s t : String} (hs : a.sqlOf e v = .ok s)
    (ht : b.sqlOf e w = .ok t) : Longer P s t := by
  cases h with
  | same hP hv =>
    rw [hn.sqlOf, ht] at hs
    cases hs
    exact .same hP rfl
  | text hP h =>
    cases hs
    cases ht
    exact .more hP h
  | element hP h =>
    cases hs
    cases ht
    exact .more hP h
  | sequence hP h =>
    cases hs
    cases ht
    refine .more hP ?_
    simp only [String.length_append]
    omega
  | satisfied hP h =>
    cases hs
    cases ht
    exact .more hP h

theorem length_le_doubled (cs ds : List Char) :
    (doubled cs).length + ds.length ≤ (doubled (cs ++ ds)).length := by
  have hlength : ds.length ≤ (doubled ds).length := by
    induction ds with
    | nil => exact Nat.le_refl _
    | cons d ds ih =>
      rw [doubled]
      split <;> simp only [List.length_cons] <;> omega
  rw [doubled_append, List.length_append]
  omega

theorem length_quote (text : String) : (quote text).length = (doubled text.toList).length + 2 := by
  have hmark : "'".length = 1 := rfl
  simp only [quote, String.length_append, hmark, String.length_ofList]
  omega

theorem length_field_of_segments {p : FieldPath} (h : p.segments.isEmpty = false) :
    p.field.length = p.root.document.length + (doubled p.jsonPath.toList).length + 18 := by
  have hopen : "json_extract(".length = 13 := rfl
  have hcomma : ", ".length = 2 := rfl
  have hclose : ")".length = 1 := rfl
  simp only [FieldPath.field, FieldPath.arguments, h, Bool.false_eq_true, if_false,
    String.length_append, length_quote, hopen, hcomma, hclose]
  omega

/-- One more step makes the text of a path longer than one more attribute makes a text. -/
theorem length_field_push (p : FieldPath) (label : String) :
    p.field.length + 1 + label.length ≤ (p.push (.field label)).field.length := by
  have hpath : (p.push (.field label)).jsonPath.toList = p.jsonPath.toList ++ '.' :: label.toList := by
    simp [FieldPath.jsonPath, FieldPath.push, Segment.text]
  have hdoubled := length_le_doubled p.jsonPath.toList ('.' :: label.toList)
  have hpush : (p.push (.field label)).segments.isEmpty = false := by simp [FieldPath.push]
  have hroot : (p.push (.field label)).root = p.root := rfl
  rw [length_field_of_segments hpush, hpath, hroot]
  simp only [List.length_cons, String.length_toList] at hdoubled
  cases hp : p.segments.isEmpty with
  | true =>
    simp only [FieldPath.field, hp, if_true]
    omega
  | false =>
    rw [length_field_of_segments hp]
    omega

theorem Grown.attribute (hn : Near a b) {whole : Expr} {label : String} {v' w' : Value}
    (h : Grown P v w) (hv : a.attributeOf whole label v = .ok v')
    (hw : b.attributeOf whole label w = .ok w') : Grown P v' w' := by
  cases h with
  | same hP hs =>
    rw [hn.attributeOf, hw] at hv
    cases hv
    refine .same hP ?_
    cases v with
    | bound value =>
      simp only [Context.attributeOf] at hw
      split at hw
      · cases hw
        rfl
      · cases hw
    | text => cases hw; rfl
    | path => cases hw; rfl
    | table => cases hw; rfl
    | sequence => cases hw
    | satisfied => cases hw
  | text hP h =>
    cases hv
    cases hw
    refine .text hP ?_
    simp only [String.length_append]
    omega
  | @element s p hP h =>
    cases hv
    cases hw
    refine .element hP ?_
    have hpush := length_field_push p label
    simp only [String.length_append]
    have hdot : ".".length = 1 := rfl
    omega
  | sequence => cases hv
  | satisfied => cases hv

/-! ## Connectives -/

theorem connected_of_two (op : BoolOp) {texts : List String} (h : 2 ≤ texts.length) :
    ∃ sql, connected op texts = .text sql ∧
      sql.length = 2 + total texts + (connective op).length * (texts.length - 1) +
        2 * (texts.length - 1) := by
  rcases texts with _ | ⟨x, _ | ⟨y, rest⟩⟩
  · simp at h
  · simp at h
  · refine ⟨_, rfl, ?_⟩
    have hopen : "(".length = 1 := rfl
    have hclose : ")".length = 1 := rfl
    have hblank : " ".length = 1 := rfl
    simp only [String.length_append, length_intercalate, hopen, hclose, hblank, Nat.add_mul]
    omega

/-- Fewer conditions, or shorter ones, make a shorter text. -/
theorem grown_of_total (op : BoolOp) {ss ts : List String} (hP : P) (htwo : 2 ≤ ts.length)
    (hle : total ss ≤ total ts) (hlength : ss.length ≤ ts.length)
    (hlt : total ss < total ts ∨ ss.length < ts.length) :
    Grown P (connected op ss) (connected op ts) := by
  obtain ⟨t, ht, htlength⟩ := connected_of_two op htwo
  have hword : 2 ≤ (connective op).length := by cases op <;> decide
  have hwords : (connective op).length ≤ (connective op).length * (ts.length - 1) :=
    Nat.le_mul_of_pos_right _ (by omega)
  rw [ht]
  rcases ss with _ | ⟨s, _ | ⟨s', rest⟩⟩
  · exact .satisfied hP (by omega)
  · refine .text hP ?_
    have hs : s.length = total [s] := by simp [total]
    omega
  · have htwo : 2 ≤ (s :: s' :: rest).length := by simp
    obtain ⟨s, hs, hslength⟩ := connected_of_two op htwo
    rw [hs]
    have hmul := Nat.mul_le_mul_left (connective op).length (Nat.sub_le_sub_right hlength 1)
    exact .text hP (by omega)

/-! ## Pieces -/

/-- Two pieces for one expression. -/
structure Paired (a b : Context) (p q : Piece) : Prop where
  expr : p.expr = q.expr
  value : Grown (Mentions a b p.expr) p.value q.value
  sql : Longer (Mentions a b p.expr) p.sql q.sql

section Pieces

variable {ps qs : List Piece}

theorem paired_of_gives (hn : Near a b) (hexpr : ps.map (·.expr) = qs.map (·.expr))
    (ih : ∀ p ∈ ps, Grows a b p.expr p.value)
    (hp : ∀ p ∈ ps, a.sqlOf p.expr p.value = .ok p.sql)
    (hq : ∀ q ∈ qs, Gives b q.expr q.value)
    (hqs : ∀ q ∈ qs, b.sqlOf q.expr q.value = .ok q.sql) : List.Forall₂ (Paired a b) ps qs := by
  induction ps generalizing qs with
  | nil =>
    cases qs with
    | nil => exact .nil
    | cons q qs => cases hexpr
  | cons p ps ihps =>
    cases qs with
    | nil => cases hexpr
    | cons q qs =>
      rw [List.map_cons, List.map_cons, List.cons.injEq] at hexpr
      simp only [List.forall_mem_cons] at ih hp hq hqs
      refine .cons ?_ (ihps hexpr.2 ih.2 hp.2 hq.2 hqs.2)
      have hgrown := ih.1 (hexpr.1 ▸ hq.1)
      exact ⟨hexpr.1, hgrown, hgrown.longer hn hp.1 (hexpr.1 ▸ hqs.1)⟩

variable (h : List.Forall₂ (Paired a b) ps qs)

include h

theorem eq_of_paired (hM : ¬ ∃ p ∈ ps, Mentions a b p.expr) : ps = qs := by
  induction h with
  | nil => rfl
  | @cons p q ps qs hpq _ ih =>
    simp only [List.exists_mem_cons_iff, not_or] at hM
    obtain ⟨pe, pv, psql⟩ := p
    obtain ⟨qe, qv, qsql⟩ := q
    obtain rfl : pe = qe := hpq.expr
    obtain rfl : pv = qv := hpq.value.eq hM.1
    obtain rfl : psql = qsql := hpq.sql.eq hM.1
    rw [ih hM.2]

theorem conditionTexts_of_paired : conditionTexts qs = qs.map (·.sql) := by
  rw [conditionTexts, List.filter_eq_self.2]
  intro q hq
  induction h with
  | nil => cases hq
  | cons hpq _ ih =>
    rcases List.mem_cons.1 hq with rfl | hq
    · simp [hpq.value.isSatisfied]
    · exact ih hq

theorem total_of_paired : total (ps.map (·.sql)) ≤ total (qs.map (·.sql)) ∧
    ((∃ p ∈ ps, Mentions a b p.expr) → total (ps.map (·.sql)) < total (qs.map (·.sql))) := by
  induction h with
  | nil => simp
  | @cons p q ps qs hpq _ ih =>
    have hle := hpq.sql.length_le
    simp only [total, List.map_cons, List.sum_cons, List.exists_mem_cons_iff] at ih ⊢
    refine ⟨by omega, ?_⟩
    rintro (hM | hM)
    · have hlt := hpq.sql.length_lt hM
      omega
    · have hlt := ih.2 hM
      omega

/-- Conditions that are satisfied are left out. -/
theorem total_conditionTexts : total (conditionTexts ps) ≤ total (qs.map (·.sql)) ∧
    (conditionTexts ps).length ≤ qs.length ∧ ((∃ p ∈ ps, Mentions a b p.expr) →
      total (conditionTexts ps) < total (qs.map (·.sql)) ∨ (conditionTexts ps).length < qs.length) := by
  induction h with
  | nil => simp [conditionTexts]
  | @cons p q ps qs hpq _ ih =>
    have hle := hpq.sql.length_le
    simp only [conditionTexts, total, List.map_cons, List.sum_cons, List.length_cons,
      List.exists_mem_cons_iff, List.length_map] at ih ⊢
    cases hs : p.value.isSatisfied with
    | true =>
      rw [List.filter_cons_of_neg (by simp [hs])]
      exact ⟨by omega, by omega, fun _ => .inr (by omega)⟩
    | false =>
      rw [List.filter_cons_of_pos (by simp [hs])]
      simp only [List.map_cons, List.sum_cons, List.length_cons]
      refine ⟨by omega, by omega, ?_⟩
      rintro (hM | hM)
      · have hlt := hpq.sql.length_lt hM
        exact .inl (by omega)
      · rcases ih.2.2 hM with hlt | hlt
        · exact .inl (by omega)
        · exact .inr (by omega)

theorem longer_commaJoined : Longer (∃ p ∈ ps, Mentions a b p.expr)
    (commaJoined (ps.map (·.sql))) (commaJoined (qs.map (·.sql))) := by
  by_cases hM : ∃ p ∈ ps, Mentions a b p.expr
  · refine .more hM ?_
    have hlt := (total_of_paired h).2 hM
    have hlength := h.length_eq
    rw [length_commaJoined, length_commaJoined, List.length_map, List.length_map, hlength]
    omega
  · exact .same hM (by rw [eq_of_paired h hM])

theorem longer_sequence : Longer (∃ p ∈ ps, Mentions a b p.expr)
    (Sql.sequence (ps.map (·.sql))) (Sql.sequence (qs.map (·.sql))) := by
  have hjoined := longer_commaJoined h
  cases h with
  | nil => exact .same (by simp) rfl
  | cons => exact hjoined

theorem grown_sequence : Grown (∃ p ∈ ps, Mentions a b p.expr)
    (.sequence (ps.map (·.sql))) (.sequence (qs.map (·.sql))) := by
  by_cases hM : ∃ p ∈ ps, Mentions a b p.expr
  · exact .sequence hM ((longer_sequence h).length_lt hM)
  · rw [eq_of_paired h hM]
    exact .same (eq_of_paired h hM ▸ hM) rfl

theorem grown_connected (op : BoolOp) (htwo : 2 ≤ qs.length) :
    Grown (∃ p ∈ ps, Mentions a b p.expr) (connected op (conditionTexts ps))
      (connected op (conditionTexts qs)) := by
  have htexts := conditionTexts_of_paired h
  have hlengthQs : (conditionTexts qs).length = qs.length := by rw [htexts, List.length_map]
  by_cases hM : ∃ p ∈ ps, Mentions a b p.expr
  · obtain ⟨hle, hlength, hlt⟩ := total_conditionTexts h
    rw [← htexts, ← hlengthQs] at hlt
    rw [← htexts] at hle
    rw [← hlengthQs] at hlength htwo
    exact grown_of_total op hM htwo hle hlength (hlt hM)
  · obtain rfl := eq_of_paired h hM
    refine .same hM ?_
    obtain ⟨sql, hsql⟩ := connected_of_two op (hlengthQs ▸ htwo)
    rw [hsql.1]
    rfl

end Pieces

/-! ## Comparison chains -/

section Links

variable {ls ms : List (CmpOp × Piece)}

theorem length_linkTexts (current : String) (ls : List (CmpOp × Piece)) :
    (linkTexts current ls).length = ls.length := by
  induction ls generalizing current with
  | nil => rfl
  | cons l ls ih => simp [linkTexts, ih]

theorem total_linkTexts (hops : ls.map (·.1) = ms.map (·.1))
    (h : List.Forall₂ (Paired a b) (ls.map (·.2)) (ms.map (·.2))) {s t : String}
    (hst : s.length ≤ t.length) :
    total (linkTexts s ls) ≤ total (linkTexts t ms) ∧
      ((∃ p ∈ ls.map (·.2), Mentions a b p.expr) ∨ s.length < t.length ∧ ls ≠ [] →
        total (linkTexts s ls) < total (linkTexts t ms)) := by
  induction ls generalizing ms s t with
  | nil =>
    obtain rfl : ms = [] := by simpa using hops.symm
    simp [linkTexts]
  | cons l ls ih =>
    cases ms with
    | nil => cases hops
    | cons m ms =>
      obtain ⟨op, p⟩ := l
      obtain ⟨op', q⟩ := m
      simp only [List.map_cons, List.cons.injEq] at hops
      obtain ⟨rfl, hops⟩ := hops
      obtain ⟨hpq, hrest⟩ := List.forall₂_cons.1 h
      replace hpq : Paired a b p q := hpq
      have hle := hpq.sql.length_le
      obtain ⟨hall, hsome⟩ := ih hops hrest hle
      simp only [linkTexts, total, List.map_cons, List.sum_cons, String.length_append,
        List.exists_mem_cons_iff] at hall hsome ⊢
      refine ⟨by omega, ?_⟩
      rintro ((hM | hM) | ⟨hlt, -⟩)
      · have hlt := hpq.sql.length_lt hM
        omega
      · have hlt := hsome (.inl hM)
        omega
      · omega

theorem length_chained_lt {ss ts : List String} (hlength : ss.length = ts.length)
    (h : total ss < total ts) : (chained ss).length < (chained ts).length := by
  have hmany : ∀ texts : List String, texts.length ≠ 1 →
      (chained texts).length = 2 + total texts + 5 * (texts.length - 1) := by
    intro texts hne
    have hopen : "(".length = 1 := rfl
    have hclose : ")".length = 1 := rfl
    have hand : " AND ".length = 5 := rfl
    rw [chained.eq_def]
    split
    · simp at hne
    · rw [String.length_append, String.length_append, length_intercalate, hopen, hclose, hand]
      omega
  by_cases hone : ss.length = 1
  · obtain ⟨s, rfl⟩ := List.length_eq_one_iff.1 hone
    obtain ⟨t, rfl⟩ := List.length_eq_one_iff.1 (hlength ▸ hone)
    simpa [total, chained] using h
  · rw [hmany ss hone, hmany ts (hlength ▸ hone), hlength]
    omega

theorem longer_chained (hops : ls.map (·.1) = ms.map (·.1)) (hne : ls ≠ [])
    (h : List.Forall₂ (Paired a b) (ls.map (·.2)) (ms.map (·.2))) {s t : String}
    (hst : Longer P s t) : Longer (P ∨ ∃ p ∈ ls.map (·.2), Mentions a b p.expr)
      (chained (linkTexts s ls)) (chained (linkTexts t ms)) := by
  by_cases hM : P ∨ ∃ p ∈ ls.map (·.2), Mentions a b p.expr
  · refine .more hM (length_chained_lt ?_ ?_)
    · rw [length_linkTexts, length_linkTexts, ← List.length_map (f := Prod.fst), hops,
        List.length_map]
    · refine (total_linkTexts hops h hst.length_le).2 (hM.symm.imp id fun hP => ?_)
      exact ⟨hst.length_lt hP, hne⟩
  · obtain ⟨hP, hnone⟩ := not_or.1 hM
    have hpieces := eq_of_paired h hnone
    have hlinks : ls = ms := by
      rw [← List.zip_unzip ls, ← List.zip_unzip ms, List.unzip_eq_map, List.unzip_eq_map]
      dsimp only
      rw [hops, hpieces]
    exact .same hM (by rw [hst.eq hP, hlinks])

end Links

/-! ## Operations -/

theorem longer_arithmetic {op : BinaryOp} {l l' r r' sql sql' : String} (hl : Longer P l l')
    (hr : Longer Q r r') (h : arithmetic? op l r = some sql) (h' : arithmetic? op l' r' = some sql') :
    Longer (P ∨ Q) sql sql' := by
  have hmono : ∀ x y x' y' s t : String, x.length ≤ y.length → x'.length ≤ y'.length →
      x.length < y.length ∨ x'.length < y'.length → arithmetic? op x x' = some s →
      arithmetic? op y y' = some t → s.length < t.length := by
    intro x y x' y' s t hx hx' hlt hs ht
    cases op <;> cases hs <;> cases ht <;> simp only [String.length_append] <;> omega
  by_cases hPQ : P ∨ Q
  · refine .more hPQ (hmono _ _ _ _ _ _ hl.length_le hr.length_le ?_ h h')
    exact hPQ.imp hl.length_lt hr.length_lt
  · obtain ⟨hP, hQ⟩ := not_or.1 hPQ
    rw [hl.eq hP, hr.eq hQ, h'] at h
    cases h
    exact .same hPQ rfl

theorem grown_patternTest {r r' : String} (h : Longer P r r') (negated : Bool) (pattern : String) :
    Grown P (patternTest r negated pattern) (patternTest r' negated pattern) := by
  refine grown_of_longer (h.one (fun x => "(" ++ x ++
    (if negated then " NOT LIKE " else " LIKE ") ++ quote pattern ++ ")") fun x y hlt => ?_)
  simp only [String.length_append]
  omega

/-! ## Expressions -/

theorem isSatisfied_eq_false (h : v ≠ .satisfied) : v.isSatisfied = false := by
  cases v with
  | satisfied => exact absurd rfl h
  | _ => rfl

theorem isSatisfied_connected (op : BoolOp) {ps : List Piece} (htwo : 2 ≤ ps.length)
    (h : ∀ p ∈ ps, p.value.isSatisfied = false) :
    ∃ sql, connected op (conditionTexts ps) = .text sql ∧ 4 < sql.length := by
  have hlength : (conditionTexts ps).length = ps.length := by
    rw [conditionTexts, List.length_map, List.filter_eq_self.2 fun p hp => by simp [h p hp]]
  obtain ⟨sql, hsql, hlong⟩ := connected_of_two op (hlength ▸ htwo)
  have hword : 2 ≤ (connective op).length := by cases op <;> decide
  have hwords : (connective op).length ≤ (connective op).length * ((conditionTexts ps).length - 1) :=
    Nat.le_mul_of_pos_right _ (by omega)
  exact ⟨sql, hsql, by omega⟩

/-- Without a guarantee nothing is satisfied. -/
theorem Gives.isSatisfied_of_none {c : Context} (hc : c.guaranteed = none) (h : Gives c e v) :
    v.isSatisfied = false := by
  induction h with
  | name => exact isSatisfied_eq_false named_ne_satisfied
  | attr _ _ h =>
    refine isSatisfied_eq_false ?_
    rintro rfl
    exact attributeOf_ne_satisfied h
  | guaranteed h =>
    rw [isGuaranteed, hc] at h
    cases h
  | connected ps hps htwo hor hvalues hsql ih =>
    obtain ⟨sql, hsql, -⟩ := isSatisfied_connected _ htwo fun p hp => ih p hp hc
    rw [hsql]
    rfl
  | absorbed he h ih => cases ih hc
  | _ => rfl

theorem mentions_parts (hname : e.asName? = none) (hparts : e.membershipParts? = none) :
    Mentions a b e ↔ ∃ p ∈ e.ownParts, Mentions a b p :=
  mentions_compound hname (isGuaranteed_eq_false hparts)

theorem not_mentions_literal (l : Literal) : ¬ Mentions a b (.literal l) := by
  rw [mentions_parts rfl rfl]
  simp [Expr.ownParts]

theorem mentions_listed {right : Expr} {items : List Expr} (h : listed? right = some items) :
    Mentions a b right ↔ ∃ x ∈ items, Mentions a b x := by
  obtain rfl | rfl | ⟨rfl, rfl⟩ := listed_cases h
  · exact mentions_parts rfl rfl
  · exact mentions_parts rfl rfl
  · simpa using not_mentions_literal .none

theorem length_chained {first : String} {links : List (CmpOp × Piece)} (hne : links ≠ []) :
    4 < (chained (linkTexts first links)).length := by
  have hopen : "(".length = 1 := rfl
  have hclose : ")".length = 1 := rfl
  rcases links with _ | ⟨⟨op, p⟩, _ | ⟨⟨op', p'⟩, rest⟩⟩
  · exact absurd rfl hne
  · have hblank : " ".length = 1 := rfl
    have hop : 1 ≤ (comparison op).length := by cases op <;> decide
    simp only [linkTexts, chained, String.length_append, hopen, hclose, hblank]
    omega
  · have hand : " AND ".length = 5 := rfl
    simp only [linkTexts, chained, String.length_append, length_intercalate, hopen, hclose, hand,
      List.length_cons]
    omega

/-- There is no list and no pattern on the right of a chain of comparisons. -/
theorem plain_of_links {links : List (CmpOp × Piece)} {op : CmpOp} {right : Expr}
    (hops : links.map (·.1) = [op]) (hoperands : links.map (·.2.expr) = [right]) :
    ∃ p : Piece, links = [(op, p)] ∧ p.expr = right := by
  obtain ⟨⟨op', p⟩, rfl, hop⟩ := List.map_eq_singleton_iff.1 hops
  simp only [List.map_cons, List.map_nil, List.cons.injEq, and_true] at hoperands
  cases hop
  exact ⟨p, rfl, hoperands⟩

theorem Gives.comprehensionParts {c : Context} (h : Gives c e v) : e.comprehensionParts? = none := by
  cases h <;> rfl

theorem grows_number (h : e.isNumber = true) :
    Grows a b (.unary .neg e) (.text ("-" ++ numberSql e)) := by
  intro w hw
  cases hw with
  | number =>
    refine .same ?_ rfl
    rw [mentions_parts rfl rfl]
    cases e with
    | literal l => simpa [Expr.ownParts] using not_mentions_literal l
    | _ => cases h
  | signed _ hno => exact absurd ⟨rfl, h⟩ hno

section Cases

variable (hn : Near a b)

include hn

theorem grows_named (id : String) : Grows a b (.name id) (a.named id) := by
  intro w hw
  cases hw
  rcases hn.resolve id with heq | ⟨hunbound, helement⟩
  · have hnamed : a.named id = b.named id := by rw [named, named, heq]
    rw [← hnamed]
    refine .same ?_ (isSatisfied_eq_false named_ne_satisfied)
    rw [mentions_iff]
    rintro ((hg | ⟨id', ⟨⟩, hne⟩) | ⟨p, hp, -⟩)
    · rw [isGuaranteed_eq_false rfl] at hg
      cases hg
    · exact hne heq
    · cases hp
  · have htouches : Mentions a b (.name id) :=
      mentions_iff.2 (.inl (.inr ⟨id, rfl, by rw [hunbound, helement]; simp⟩))
    rw [named, hunbound, named, helement]
    refine .element htouches ?_
    have hvalue : ".value".length = 6 := rfl
    simp only [FieldPath.field, FieldPath.ofRoot, List.isEmpty_nil, if_true, Root.document,
      String.length_append, hvalue]
    omega

theorem grows_noneOf {sql : String} (hcall : e.quantifierCall?.isSome = true)
    (hsql : a.sqlOf e v = .ok sql) (ih : Grows a b e v) :
    Grows a b (.unary .not e) (.text ("NOT " ++ sql)) := by
  intro w hw
  cases hw with
  | noneOf he' _ hsql' =>
    have hlonger := (ih he').longer hn hsql hsql'
    refine (grown_of_longer (hlonger.one ("NOT " ++ ·) fun x y hlt => ?_)).congr
      (by simp [mentions_parts (e := .unary _ _) rfl rfl, Expr.ownParts])
    simp only [String.length_append]
    omega
  | signed _ _ hno => exact absurd ⟨rfl, hcall⟩ hno

theorem grows_signed {op : UnaryOp} {sql : String} (hnumber : ¬ (op = .neg ∧ e.isNumber = true))
    (hcall : ¬ (op = .not ∧ e.quantifierCall?.isSome = true)) (hsql : a.sqlOf e v = .ok sql)
    (ih : Grows a b e v) : Grows a b (.unary op e) (.text (sign op ++ "(" ++ sql ++ ")")) := by
  intro w hw
  cases hw with
  | number _ _ hyes => exact absurd ⟨rfl, hyes⟩ hnumber
  | noneOf _ hyes => exact absurd ⟨rfl, hyes⟩ hcall
  | signed he' _ _ _ hsql' =>
    have hlonger := (ih he').longer hn hsql hsql'
    refine (grown_of_longer (hlonger.one (sign op ++ "(" ++ · ++ ")") fun x y hlt => ?_)).congr
      (by simp [mentions_parts (e := .unary _ _) rfl rfl, Expr.ownParts])
    simp only [String.length_append]
    omega

section Comparisons

variable {left right : Expr} {op : CmpOp} {ops : List CmpOp} {operands : List Expr}

theorem grows_guaranteed (hg : a.isGuaranteed (.compare left ops operands) = true) :
    Grows a b (.compare left ops operands) .satisfied := by
  have hmentions : Mentions a b (.compare left ops operands) := mentions_iff.2 (.inl (.inl hg))
  have hopen : "(".length = 1 := rfl
  intro w hw
  cases hw with
  | guaranteed h =>
    rw [hn.isGuaranteed_of_gives (.guaranteed hg)] at h
    cases h
  | listed =>
    refine .satisfied hmentions ?_
    have hblank : " ".length = 1 := rfl
    have hin : " (".length = 2 := rfl
    have hclose : "))".length = 2 := rfl
    simp only [String.length_append, hopen, hblank, hin, hclose]
    omega
  | @pattern _ _ _ op =>
    refine .satisfied hmentions ?_
    have hlike : 6 ≤ (if decide (op = .notElemOf) = true then " NOT LIKE " else " LIKE ").length := by
      split <;> decide
    simp only [String.length_append, hopen]
    omega
  | chain links hne => exact .satisfied hmentions (length_chained hne)

/-- A list on the right is one in both contexts. -/
theorem grows_listed {l : String} {items : List Piece}
    (hg : a.isGuaranteed (.compare left [op] [right]) = false)
    (hg' : b.isGuaranteed (.compare left [op] [right]) = false) (hop : membershipOp? [op] = some op)
    (hlist : listed? right = some (items.map (·.expr))) (hl : a.sqlOf left v = .ok l)
    (hsql : ∀ p ∈ items, a.sqlOf p.expr p.value = .ok p.sql) (ihLeft : Grows a b left v)
    (ihItems : ∀ p ∈ items, Grows a b p.expr p.value) :
    Grows a b (.compare left [op] [right]) (listTest l op (items.map (·.sql))) := by
  intro w hw
  cases hw with
  | guaranteed h =>
    rw [hg'] at h
    cases h
  | listed items' _ _ hlist' hleft' hl' hitems' hsql' =>
    have hexpr := Option.some.inj (hlist.symm.trans hlist')
    have hpaired := paired_of_gives hn hexpr ihItems hsql hitems' hsql'
    have hlonger := (ihLeft hleft').longer hn hl hl'
    refine (grown_of_longer (hlonger.two
      (fun l q => "(" ++ l ++ " " ++ comparison op ++ " (" ++ q ++ "))")
      (fun x y x' y' hx hy hlt => ?_) (longer_sequence hpaired))).congr ?_
    · simp only [String.length_append]
      omega
    · rw [mentions_compound rfl hg]
      simp [Expr.ownParts, mentions_listed hlist]
  | pattern _ hlist' =>
    rw [hlist] at hlist'
    cases hlist'
  | chain links _ hops hoperands _ hplain =>
    obtain ⟨p, rfl, rfl⟩ := plain_of_links hops hoperands
    rw [(hplain op p rfl hop).1] at hlist
    cases hlist

theorem grows_pattern {text r : String} (hop : membershipOp? [op] = some op)
    (hlist : listed? right = none) (hr : a.sqlOf right v = .ok r) (ih : Grows a b right v) :
    Grows a b (.compare (.literal (.str text)) [op] [right])
      (patternTest r (op = .notElemOf) ("%" ++ text ++ "%")) := by
  have hparts : (Expr.compare (.literal (.str text)) [op] [right]).membershipParts? = none := by
    cases op <;> rfl
  intro w hw
  cases hw with
  | guaranteed h =>
    rw [isGuaranteed_eq_false hparts] at h
    cases h
  | listed items' _ _ hlist' =>
    rw [hlist] at hlist'
    cases hlist'
  | pattern _ _ hright' hr' =>
    refine (grown_patternTest ((ih hright').longer hn hr hr') _ _).congr ?_
    rw [mentions_parts rfl hparts]
    simp [Expr.ownParts, not_mentions_literal]
  | chain links _ hops hoperands _ hplain =>
    obtain ⟨p, rfl, rfl⟩ := plain_of_links hops hoperands
    exact absurd rfl ((hplain op p rfl hop).2.1 text)

/-- Neither a list nor a pattern is on the right in either context. -/
theorem grows_chain {first : String} {links : List (CmpOp × Piece)} (hne : links ≠ [])
    (hops : links.map (·.1) = ops) (hoperands : links.map (·.2.expr) = operands)
    (hg : a.isGuaranteed (.compare left ops operands) = false)
    (hg' : b.isGuaranteed (.compare left ops operands) = false)
    (hplain : ∀ op p, links = [(op, p)] → membershipOp? [op] = some op →
      listed? p.expr = none ∧ ∀ text, left ≠ .literal (.str text))
    (hfirst : a.sqlOf left v = .ok first)
    (hsql : ∀ l ∈ links, a.sqlOf l.2.expr l.2.value = .ok l.2.sql) (ihLeft : Grows a b left v)
    (ihLinks : ∀ l ∈ links, Grows a b l.2.expr l.2.value) :
    Grows a b (.compare left ops operands) (.text (chained (linkTexts first links))) := by
  intro w hw
  cases hw with
  | guaranteed h =>
    rw [hg'] at h
    cases h
  | listed items' _ hop hlist' =>
    obtain ⟨p, rfl, rfl⟩ := plain_of_links hops hoperands
    rw [(hplain _ p rfl hop).1] at hlist'
    cases hlist'
  | pattern hop =>
    obtain ⟨p, rfl, rfl⟩ := plain_of_links hops hoperands
    exact absurd rfl ((hplain _ p rfl hop).2 _)
  | chain links' _ hops' hoperands' _ _ hleft' hfirst' hlinks' hsql' =>
    replace hoperands : (links.map (·.2)).map (·.expr) = operands := by rwa [List.map_map]
    replace hoperands' : (links'.map (·.2)).map (·.expr) = operands := by rwa [List.map_map]
    have hpaired : List.Forall₂ (Paired a b) (links.map (·.2)) (links'.map (·.2)) := by
      refine paired_of_gives hn (hoperands.trans hoperands'.symm) ?_ ?_ ?_ ?_ <;>
        simp only [List.forall_mem_map]
      · exact ihLinks
      · exact hsql
      · exact hlinks'
      · exact hsql'
    have hlonger := (ihLeft hleft').longer hn hfirst hfirst'
    refine (grown_of_longer (longer_chained (hops.trans hops'.symm) hne hpaired hlonger)).congr ?_
    rw [mentions_compound rfl hg, Expr.ownParts, List.exists_mem_cons_iff, ← hoperands]
    simp only [List.mem_map (f := Piece.expr), exists_exists_and_eq_and]

end Comparisons

section Lists

variable {ps : List Piece} (hsql : ∀ p ∈ ps, a.sqlOf p.expr p.value = .ok p.sql)
  (ih : ∀ p ∈ ps, Grows a b p.expr p.value)

include hsql ih

theorem grows_connected (op : BoolOp) :
    Grows a b (.boolean op (ps.map (·.expr))) (connected op (conditionTexts ps)) := by
  intro w hw
  cases hw with
  | connected ps' hps' htwo' hor' hvalues' hsql' =>
    refine (grown_connected (paired_of_gives hn hps'.symm ih hsql hvalues' hsql') op htwo').congr ?_
    simp [mentions_parts (e := .boolean _ _) rfl rfl, Expr.ownParts]
  | absorbed he h =>
    obtain ⟨p, hp, rfl⟩ := List.mem_map.1 he
    cases (ih p hp h).isSatisfied

theorem grows_list : Grows a b (.list (ps.map (·.expr))) (.sequence (ps.map (·.sql))) := by
  intro w hw
  cases hw with
  | list ps' hps' hvalues' hsql' =>
    refine (grown_sequence (paired_of_gives hn hps'.symm ih hsql hvalues' hsql')).congr ?_
    simp [mentions_parts (e := .list _) rfl rfl, Expr.ownParts]

theorem grows_tuple : Grows a b (.tuple (ps.map (·.expr))) (.sequence (ps.map (·.sql))) := by
  intro w hw
  cases hw with
  | tuple ps' hps' hvalues' hsql' =>
    refine (grown_sequence (paired_of_gives hn hps'.symm ih hsql hvalues' hsql')).congr ?_
    simp [mentions_parts (e := .tuple _) rfl rfl, Expr.ownParts]

end Lists

theorem grows_absorbed {operands : List Expr} (he : e ∈ operands) (h : Gives a e .satisfied)
    (ih : Grows a b e .satisfied) : Grows a b (.boolean .or operands) .satisfied := by
  intro w hw
  cases hw with
  | connected ps hps htwo hor hvalues hsql =>
    obtain ⟨q, hq, rfl⟩ := List.mem_map.1 (hps ▸ he)
    have hmentions : Mentions a b q.expr := by
      have hgrown := ih (hvalues q hq)
      generalize q.value = w at hgrown
      cases hgrown with
      | same _ hs => cases hs
      | satisfied hP => exact hP
    obtain ⟨sql, heq, hlong⟩ := isSatisfied_connected .or htwo (hor rfl)
    rw [heq]
    refine .satisfied ?_ hlong
    rw [mentions_parts rfl rfl]
    exact ⟨q.expr, he, hmentions⟩
  | absorbed _ h' =>
    rcases hn.test with hnone | ⟨hnone, -⟩
    · cases h'.isSatisfied_of_none hnone
    · cases h.isSatisfied_of_none hnone

theorem grows_conditional {test body otherwise : Expr} {t f o : String} {u u' u'' : Value}
    (ht : a.sqlOf test u = .ok t) (hf : a.sqlOf body u' = .ok f) (ho : a.sqlOf otherwise u'' = .ok o)
    (ihTest : Grows a b test u) (ihBody : Grows a b body u') (ihOtherwise : Grows a b otherwise u'') :
    Grows a b (.conditional test body otherwise)
      (.text ("CASE WHEN " ++ t ++ " THEN " ++ f ++ " ELSE " ++ o ++ " END")) := by
  intro w hw
  cases hw with
  | conditional htest' hbody' hotherwise' ht' hf' ho' =>
    have hlongerTest := (ihTest htest').longer hn ht ht'
    have hlongerBody := (ihBody hbody').longer hn hf hf'
    have hlongerOtherwise := (ihOtherwise hotherwise').longer hn ho ho'
    have hlonger := (hlongerTest.two (fun t b => "CASE WHEN " ++ t ++ " THEN " ++ b)
      (fun x y x' y' hx hy hlt => by simp only [String.length_append]; omega) hlongerBody).two
      (fun x o => x ++ " ELSE " ++ o ++ " END")
      (fun x y x' y' hx hy hlt => by simp only [String.length_append]; omega) hlongerOtherwise
    exact (grown_of_longer hlonger).congr
      (by simp [mentions_parts (e := .conditional _ _ _) rfl rfl, Expr.ownParts, or_assoc])

/-- The conditions on the elements of an array are the same, since they are read in one context. -/
theorem grows_quantified {element array : Expr} {target : String} {filters : List Expr} {p : FieldPath}
    {ps : List Piece} (hparts : e.comprehensionParts? = some (element, [⟨target, array, filters⟩]))
    (hps : ps.map (·.expr) = Expr.elementConditions target element filters)
    (hsql : ∀ p ∈ ps, (a.within target).sqlOf p.expr p.value = .ok p.sql)
    (ihArray : Grows a b array (.path p))
    (ih : ∀ p ∈ ps, Grows (a.within target) (b.within target) p.expr p.value) :
    Grows a b (.call (.name Expr.quantifierName) [e] [])
      (.text (existence p target (conditionTexts ps))) := by
  intro w hw
  cases hw with
  | length hid' => exact absurd hid' (by decide)
  | quantified ps' _ _ hparts' _ harray' hps' hvalues' hsql' =>
    cases hparts.symm.trans hparts'
    have hpaired :=
      paired_of_gives (hn.inside target) (hps.trans hps'.symm) ih hsql hvalues' hsql'
    have hnone : ¬ ∃ p ∈ ps, Mentions (a.within target) (b.within target) p.expr := by
      rintro ⟨p, -, hp⟩
      exact hn.not_mentions_inside target p.expr hp
    obtain rfl := eq_of_paired hpaired hnone
    cases ihArray harray' with
    | same hP =>
      refine .same ?_ rfl
      simpa [mentions_parts (e := .call _ _ _) rfl rfl, Expr.ownParts, hparts] using hP

end Cases

/-- In two contexts that differ in a variable and in a guarantee, the values of an expression are the
same, unless it mentions what they differ in: then the second one is longer. -/
theorem Gives.grown (hn : Near a b) (hv : Gives a e v) : Grows a b e v := by
  induction hv generalizing b with
  | literal c h =>
    intro w hw
    cases hw
    exact .same (not_mentions_literal _) rfl
  | name c h => exact grows_named hn _
  | attr hlabel hvalue h ih =>
    intro w hw
    cases hw with
    | attr _ hvalue' h' =>
      exact ((ih hn hvalue').attribute hn h h').congr
        (by simp [mentions_parts (e := .attr _ _) rfl rfl, Expr.ownParts])
  | item hvalue hindex ih =>
    intro w hw
    cases hw with
    | item hvalue' hindex' =>
      cases hindex.symm.trans hindex'
      cases ih hn hvalue' with
      | same hP =>
        refine .same ?_ rfl
        simpa [mentions_parts (e := .subscript _ _) rfl rfl, Expr.ownParts] using hP
  | binary hleft hright hl hr h ihLeft ihRight =>
    intro w hw
    cases hw with
    | binary hleft' hright' hl' hr' h' =>
      have hleftLonger := (ihLeft hn hleft').longer hn hl hl'
      have hrightLonger := (ihRight hn hright').longer hn hr hr'
      exact (grown_of_longer (longer_arithmetic hleftLonger hrightLonger h h')).congr
        (by simp [mentions_parts (e := .binary _ _ _) rfl rfl, Expr.ownParts])
  | number c h hnumber => exact grows_number hnumber
  | noneOf he hcall hsql ih => exact grows_noneOf hn hcall hsql (ih hn)
  | signed he hnumber hcall hsatisfied hsql ih => exact grows_signed hn hnumber hcall hsql (ih hn)
  | guaranteed h => exact grows_guaranteed hn h
  | listed items hg hop hlist hleft hl hitems hsql ihLeft ihItems =>
    have hg' := hn.isGuaranteed_of_gives (.listed items hg hop hlist hleft hl hitems hsql)
    exact grows_listed hn hg hg' hop hlist hl hsql (ihLeft hn) fun p hp => ihItems p hp hn
  | pattern hop hlist hright hr ih => exact grows_pattern hn hop hlist hr (ih hn)
  | chain links hne hops hoperands hg hplain hleft hfirst hlinks hsql ihLeft ihLinks =>
    have hg' := hn.isGuaranteed_of_gives
      (.chain links hne hops hoperands hg hplain hleft hfirst hlinks hsql)
    refine grows_chain hn hne hops hoperands hg hg' (fun op p hlink hop => ?_) hfirst hsql (ihLeft hn)
      fun l hl => ihLinks l hl hn
    obtain ⟨hlist, htext, -⟩ := hplain op p hlink hop
    exact ⟨hlist, htext⟩
  | connected ps hps htwo hor hvalues hsql ih =>
    subst hps
    exact grows_connected hn hsql (fun p hp => ih p hp hn) _
  | absorbed he h ih => exact grows_absorbed hn he h (ih hn)
  | conditional htest hbody hotherwise ht hb ho ihTest ihBody ihOtherwise =>
    exact grows_conditional hn ht hb ho (ihTest hn) (ihBody hn) (ihOtherwise hn)
  | length hid he ih =>
    subst hid
    intro w hw
    cases hw with
    | length _ he' =>
      cases ih hn he' with
      | same hP =>
        refine .same ?_ rfl
        simpa [mentions_parts (e := .call _ _ _) rfl rfl, Expr.ownParts, he.comprehensionParts] using hP
    | quantified _ hid' => exact absurd hid' (by decide)
  | quantified ps hid htarget hparts hchain harray hps hvalues hsql ihArray ih =>
    subst hid
    exact grows_quantified hn hparts hps hsql (ihArray hn) fun p hp => ih p hp (hn.inside _)
  | method hpattern hvalue hr ih =>
    intro w hw
    cases hw with
    | method hpattern' hvalue' hr' =>
      cases hpattern.symm.trans hpattern'
      exact (grown_patternTest ((ih hn hvalue').longer hn hr hr') _ _).congr
        (by simp [mentions_parts (e := .call _ _ _) rfl rfl, Expr.ownParts])
  | list ps hps hvalues hsql ih =>
    subst hps
    exact grows_list hn hsql fun p hp => ih p hp hn
  | tuple ps hps hvalues hsql ih =>
    subst hps
    exact grows_tuple hn hsql fun p hp => ih p hp hn

/-- Without a guarantee there is one value only. -/
theorem Gives.unique {c : Context} (hc : c.guaranteed = none) (hv : Gives c e v) (hw : Gives c e w) :
    v = w := by
  have hn : Near c c := ⟨fun _ => rfl, fun _ => .inl rfl, .inl hc⟩
  refine (hv.grown hn hw).eq ?_
  rintro ⟨x, -, ht | ⟨id, -, hne⟩⟩
  · rw [isGuaranteed, hc] at ht
    cases ht
  · exact hne rfl

theorem longer_of_compile (hn : Near a b) (he : Parsed e) {s t : String} (hs : a.compile e = .ok s)
    (ht : b.compile e = .ok t) : Longer (Mentions a b e) s t := by
  obtain ⟨v, hv, hs⟩ := bind_eq_ok hs
  obtain ⟨w, hw, ht⟩ := bind_eq_ok ht
  exact ((he.gives hv).grown hn (he.gives hw)).longer hn hs ht

end Sql

end DocQuery
