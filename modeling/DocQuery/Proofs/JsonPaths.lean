import DocQuery.Proofs.Accesses

/-! # JSON paths

The names in a JSON path are not quoted. So a name with a point in it is read as two fields, and a name
that ends with an index as a field and an item of it. Names of the other kind are plain, and a path with
plain names is read as what it was written for.

* `Segment.IsPlain`: the steps that are read as what they are.
* `eq_of_chars_eq`: plain steps can be told from the text of their path.
* `exists_plain`: every path is the path of plain steps.
* `isPlain_iff_jsonPath_ne`: the paths that no other plain access has are those of plain accesses.
-/

set_option autoImplicit false

namespace DocQuery

namespace Segment

/-- The step is a field, or an index of 64 bits with a sign. -/
def InRange : Segment → Prop
  | field _ => True
  | index n => -Width.signed64 ≤ n ∧ n < Width.signed64

/-- A name is plain if it has no point in it and no index at its end. -/
def IsPlain : Segment → Prop
  | field name => '.' ∉ name.toList ∧ ∀ n, InRange (index n) → ¬ (index n).text.toList <:+ name.toList
  | index _ => True

def chars (steps : List Segment) : List Char := steps.flatMap fun s => s.text.toList

theorem chars_append (xs ys : List Segment) : chars (xs ++ ys) = chars xs ++ chars ys :=
  List.flatMap_append

theorem chars_singleton (s : Segment) : chars [s] = s.text.toList := by simp [chars]

theorem text_field (name : String) : (field name).text.toList = '.' :: name.toList := by
  simp [text]

/-! ## Indices -/

theorem isDigit_or_eq_of_mem_toString {n : Int} {c : Char} (hc : c ∈ (toString n).toList) :
    c.isDigit = true ∨ c = '-' := by
  cases n with
  | ofNat n =>
    left
    apply Token.isDigit_toDigits n c
    rwa [← Token.toString_natCast]
  | negSucc n =>
    have htext : toString (Int.negSucc n) = "-" ++ toString ((n + 1 : Nat) : Int) := rfl
    rw [htext, String.toList_append, Token.toString_natCast] at hc
    rcases List.mem_append.1 hc with hsign | hdigit
    · exact .inr (List.mem_singleton.1 hsign)
    · exact .inl (Token.isDigit_toDigits _ c hdigit)

theorem text_index (n : Int) : (index n).text.toList =
    '[' :: ((if n < 0 then ['#'] else []) ++ (toString n).toList ++ [']']) := by
  by_cases hn : n < 0 <;> simp [text, hn]

/-- The digits and the sign of an index. -/
theorem filter_text_index (n : Int) :
    (index n).text.toList.filter (fun c => c.isDigit || c == '-') = (toString n).toList := by
  have hself : (toString n).toList.filter (fun c => c.isDigit || c == '-') = (toString n).toList := by
    rw [List.filter_eq_self]
    intro c hc
    simpa using isDigit_or_eq_of_mem_toString hc
  have hmark : (if n < 0 then ['#'] else []).filter (fun c => c.isDigit || c == '-') = [] := by
    split <;> rfl
  rw [text_index, List.filter_cons_of_neg (by decide), List.filter_append, List.filter_append, hself,
    hmark]
  exact List.append_nil _

theorem text_index_injective {n m : Int} (h : (index n).text = (index m).text) : n = m := by
  apply Int.repr_inj.1
  rw [← Int.toString_eq_repr, ← Int.toString_eq_repr, ← String.toList_inj, ← filter_text_index,
    ← filter_text_index, h]

/-- An index opens once, at its start, and has no point in it. -/
theorem exists_text_index (n : Int) :
    ∃ body, (index n).text.toList = '[' :: body ∧ '[' ∉ body ∧ '.' ∉ body := by
  have hmem : ∀ c ∈ (toString n).toList, c ≠ '[' ∧ c ≠ '.' := by
    intro c hc
    rcases isDigit_or_eq_of_mem_toString hc with hdigit | rfl
    · constructor <;> rintro rfl <;> simp [Char.isDigit] at hdigit
    · decide
  have hopen : '[' ∉ (toString n).toList := fun h => (hmem _ h).1 rfl
  have hpoint : '.' ∉ (toString n).toList := fun h => (hmem _ h).2 rfl
  refine ⟨_, text_index n, ?_, ?_⟩ <;> by_cases hn : n < 0 <;>
    simp only [hn, if_true, if_false, List.mem_append, List.mem_singleton, List.not_mem_nil] <;>
    simp only [hopen, hpoint] <;> decide

/-! ## Paths with plain names -/

/-- A list is cut at the last occurrence of an element in one way. -/
theorem append_cons_inj {α : Type} {a : α} {xs ys us vs : List α} (hus : a ∉ us) (hvs : a ∉ vs)
    (h : xs ++ a :: us = ys ++ a :: vs) : xs = ys ∧ us = vs := by
  rcases List.append_eq_append_iff.1 h with ⟨middle, rfl, hrest⟩ | ⟨middle, rfl, hrest⟩
  · cases middle with
    | nil => simpa using hrest
    | cons b middle => simp_all
  · cases middle with
    | nil => simpa using hrest.symm
    | cons b middle => simp_all

theorem not_suffix_of_isPlain {name : String} {n : Int} {xs ys : List Char}
    (hplain : (field name).IsPlain) (hn : (index n).InRange) :
    xs ++ (field name).text.toList ≠ ys ++ (index n).text.toList := by
  intro h
  rw [text_field] at h
  obtain ⟨body, hbody, -, hpoint⟩ := exists_text_index n
  rcases List.append_eq_append_iff.1 h with ⟨middle, -, hrest⟩ | ⟨middle, -, hrest⟩
  · cases middle with
    | nil =>
      rw [hbody] at hrest
      simp at hrest
    | cons c middle => exact hplain.2 n hn ⟨middle, (List.cons.inj hrest).2.symm⟩
  · -- The point of the field would be one inside the index.
    have hmem : '.' ∈ (index n).text.toList := by simp [hrest]
    rw [hbody] at hmem
    simp [hpoint] at hmem

/-- Plain steps can be told from their text. -/
theorem eq_of_chars_eq {xs ys : List Segment} (hxs : ∀ s ∈ xs, s.InRange ∧ s.IsPlain)
    (hys : ∀ s ∈ ys, s.InRange ∧ s.IsPlain) (h : chars xs = chars ys) : xs = ys := by
  have hne : ∀ (ss : List Segment) (s : Segment), chars (ss ++ [s]) ≠ [] := by
    intro ss s hnil
    rw [chars_append, chars_singleton] at hnil
    cases s with
    | field name => simp [text_field] at hnil
    | index n =>
      obtain ⟨body, hbody, -⟩ := exists_text_index n
      simp [hbody] at hnil
  -- From the end, since an index is at the end of what stands before the next point.
  induction xs using List.reverseRecOn generalizing ys with
  | nil =>
    rcases List.eq_nil_or_concat' ys with rfl | ⟨ys, u, rfl⟩
    · rfl
    · exact absurd h.symm (hne ys u)
  | append_singleton xs s ih =>
    rcases List.eq_nil_or_concat' ys with rfl | ⟨ys, u, rfl⟩
    · exact absurd h (hne xs s)
    obtain ⟨hbefore, hs⟩ := List.forall_mem_append.1 hxs
    obtain ⟨hbefore', hu⟩ := List.forall_mem_append.1 hys
    obtain ⟨hsRange, hsPlain⟩ := hs s List.mem_cons_self
    obtain ⟨huRange, huPlain⟩ := hu u List.mem_cons_self
    rw [chars_append, chars_append, chars_singleton, chars_singleton] at h
    cases s with
    | field name =>
      cases u with
      | field name' =>
        rw [text_field, text_field] at h
        obtain ⟨hrest, hname⟩ := append_cons_inj hsPlain.1 huPlain.1 h
        rw [ih hbefore hbefore' hrest, String.toList_inj.1 hname]
      | index m => exact absurd h (not_suffix_of_isPlain hsPlain huRange)
    | index n =>
      cases u with
      | field name' => exact absurd h.symm (not_suffix_of_isPlain huPlain hsRange)
      | index m =>
        obtain ⟨body, hn, hopen, -⟩ := exists_text_index n
        obtain ⟨body', hm, hopen', -⟩ := exists_text_index m
        rw [hn, hm] at h
        obtain ⟨hrest, rfl⟩ := append_cons_inj hopen hopen' h
        have hindex : n = m := text_index_injective (String.toList_inj.1 (hn.trans hm.symm))
        rw [ih hbefore hbefore' hrest, hindex]

/-! ## Names that are not plain -/

/-- A field is read as plain steps, the first of which is a field. -/
theorem exists_plain_field (name : List Char) : ∃ label rest,
    (∀ s ∈ field label :: rest, s.InRange ∧ s.IsPlain) ∧
      chars (field label :: rest) = '.' :: name := by
  induction hlength : name.length using Nat.strong_induction_on generalizing name with
  | _ k ih =>
    subst hlength
    by_cases hpoint : '.' ∈ name
    · obtain ⟨before, after, rfl⟩ := List.append_of_mem hpoint
      obtain ⟨l₁, r₁, hplain₁, hchars₁⟩ := ih _ (by simp) before rfl
      obtain ⟨l₂, r₂, hplain₂, hchars₂⟩ := ih _ (by simp; omega) after rfl
      refine ⟨l₁, r₁ ++ field l₂ :: r₂, ?_, ?_⟩
      · rw [← List.cons_append]
        exact List.forall_mem_append.2 ⟨hplain₁, hplain₂⟩
      · rw [← List.cons_append, chars_append, hchars₁, hchars₂]
        rfl
    · by_cases hindex : ∃ n, InRange (index n) ∧ (index n).text.toList <:+ name
      · obtain ⟨n, hrange, before, rfl⟩ := hindex
        obtain ⟨body, hbody, -⟩ := exists_text_index n
        obtain ⟨label, rest, hplain, hchars⟩ := ih _ (by simp [hbody]) before rfl
        refine ⟨label, rest ++ [index n], ?_, ?_⟩
        · rw [← List.cons_append]
          exact List.forall_mem_append.2 ⟨hplain, by simpa using ⟨hrange, trivial⟩⟩
        · rw [← List.cons_append, chars_append, hchars, chars_singleton]
          rfl
      · refine ⟨String.ofList name, [], ?_, ?_⟩
        · simp only [List.forall_mem_singleton, IsPlain, String.toList_ofList]
          exact ⟨trivial, hpoint, fun n hn hsuffix => hindex ⟨n, hn, hsuffix⟩⟩
        · rw [chars_singleton, text_field, String.toList_ofList]

/-- Every text of steps is one of plain steps. -/
theorem exists_plain {steps : List Segment} (hsteps : ∀ s ∈ steps, s.InRange) :
    ∃ ss, (∀ s ∈ ss, s.InRange ∧ s.IsPlain) ∧ chars ss = chars steps := by
  induction steps with
  | nil => exact ⟨[], by simp, rfl⟩
  | cons s steps ih =>
    obtain ⟨hs, hsteps⟩ := List.forall_mem_cons.1 hsteps
    obtain ⟨ss, hplain, hchars⟩ := ih hsteps
    have hsplit : chars (s :: steps) = s.text.toList ++ chars steps := rfl
    cases s with
    | field name =>
      obtain ⟨label, rest, hfield, htext⟩ := exists_plain_field name.toList
      refine ⟨field label :: rest ++ ss, List.forall_mem_append.2 ⟨hfield, hplain⟩, ?_⟩
      rw [chars_append, htext, hchars, hsplit, text_field]
    | index n =>
      refine ⟨index n :: ss, List.forall_mem_cons.2 ⟨⟨hs, trivial⟩, hplain⟩, ?_⟩
      rw [hsplit, ← hchars]
      rfl

end Segment

/-! ## Accesses -/

namespace Expr

/-- The index that stands for a step. -/
def ofSegment : Segment → Expr
  | .field key => .literal (.str key)
  | .index n => .literal (.int n)

/-- The expression with an index for each step. -/
def extended (e : Expr) : List Segment → Expr
  | [] => e
  | s :: rest => (subscript e (ofSegment s)).extended rest

theorem segment?_ofSegment (s : Segment) : Sql.segment? (ofSegment s) = some s := by
  cases s <;> rfl

theorem root?_extended (e : Expr) (rest : List Segment) : (e.extended rest).root? = e.root? := by
  induction rest generalizing e with
  | nil => rfl
  | cons s rest ih => exact ih _

theorem steps_extended (e : Expr) (rest : List Segment) :
    (e.extended rest).steps = e.steps ++ rest := by
  induction rest generalizing e with
  | nil => simp [extended]
  | cons s rest ih => simp [extended, ih, steps, segment?_ofSegment]

end Expr

namespace Sql

open Context Segment

theorem eval_extended {c : Context} {e : Expr} {p : FieldPath} (h : c.eval e = .ok (.path p))
    (rest : List Segment) : c.eval (e.extended rest) = .ok (.path ⟨p.root, p.segments ++ rest⟩) := by
  induction rest generalizing e p with
  | nil => simpa [Expr.extended] using h
  | cons s rest ih =>
    have hitem := subscript_of_path h (Expr.segment?_ofSegment s)
    simpa [Expr.extended, FieldPath.push] using ih hitem

variable {c : Context} {table : String} {x : Expr} {p : FieldPath}

/-- All steps that start with a field are those of an access. -/
theorem exists_fieldPath (htable : c.scope.resolve table = .table) (label : String)
    (rest : List Segment) : ∃ y : Expr, y.root? = some table ∧ y.steps = .field label :: rest ∧
      c.fieldPath y = .ok ⟨c.rootOf table, .field label :: rest⟩ := by
  have hattr : c.eval (.attr (.name table) label) =
      .ok (.path ⟨c.rootOf table, [.field label]⟩) := by
    simp [Context.eval, named, htable, bind, Except.bind, attributeOf, FieldPath.ofRoot,
      FieldPath.push]
  refine ⟨(Expr.attr (.name table) label).extended rest, ?_, ?_, ?_⟩
  · exact Expr.root?_extended _ rest
  · exact Expr.steps_extended _ rest
  · rw [fieldPath, eval_extended hattr]
    rfl

theorem jsonPath_eq_iff {p q : FieldPath} :
    p.jsonPath = q.jsonPath ↔ chars p.segments = chars q.segments := by
  have htext : ∀ r : FieldPath, r.jsonPath.toList = '$' :: chars r.segments := by
    intro r
    simp [FieldPath.jsonPath, chars, String.toList_join, List.flatMap_map]
  rw [← String.toList_inj, htext, htext, List.cons.injEq]
  exact and_iff_right rfl

/-- An access of a table has a JSON path that no other access with plain names has, exactly if its own
names are plain. -/
theorem isPlain_iff_jsonPath_ne (htable : c.scope.resolve table = .table)
    (hroot : x.root? = some table) (hpath : c.fieldPath x = .ok p) (hrange : ∀ s ∈ x.steps, s.InRange) :
    (∀ s ∈ x.steps, s.IsPlain) ↔
      ∀ y q, y.root? = some table → c.fieldPath y = .ok q →
        (∀ s ∈ y.steps, s.InRange ∧ s.IsPlain) → y.steps ≠ x.steps → q.jsonPath ≠ p.jsonPath := by
  obtain ⟨rfl, first, others, hsteps⟩ := fieldPath_of_table htable hroot hpath
  constructor
  · intro hplain y q hy hq hys hne heq
    obtain ⟨rfl, -⟩ := fieldPath_of_table htable hy hq
    exact hne (eq_of_chars_eq hys (fun s hs => ⟨hrange s hs, hplain s hs⟩) (jsonPath_eq_iff.1 heq))
  · intro hseparate
    rw [hsteps] at hrange
    obtain ⟨-, hothers⟩ := List.forall_mem_cons.1 hrange
    -- The access with the steps that the path is read as cannot be another one.
    obtain ⟨label, rest, hfield, hchars⟩ := exists_plain_field first.toList
    obtain ⟨ss, hss, hchars'⟩ := exists_plain hothers
    obtain ⟨y, hy, hysteps, hq⟩ := exists_fieldPath htable label (rest ++ ss)
    have hys : ∀ s ∈ y.steps, s.InRange ∧ s.IsPlain := by
      rw [hysteps, ← List.cons_append]
      exact List.forall_mem_append.2 ⟨hfield, hss⟩
    have hsame : y.steps = x.steps := by
      by_contra hne
      apply hseparate y _ hy hq hys hne
      rw [jsonPath_eq_iff, hsteps, ← List.cons_append, chars_append, hchars, hchars', ← text_field,
        ← chars_singleton, ← chars_append]
      rfl
    rw [← hsame]
    exact fun s hs => (hys s hs).2

/-- A key with a point in it is read as two fields. -/
theorem isPlain_iff_jsonPath_ne_key :
    let c := Context.of "person" .empty (.ofNames ["person"])
    let x : Expr := .subscript (.attr (.name "person") "x") (.literal (.str "a.b"))
    c.scope.resolve "person" = .table ∧ x.root? = some "person" ∧
      c.fieldPath x = .ok ⟨.table "person" false, x.steps⟩ ∧ (∀ s ∈ x.steps, s.InRange) ∧
      ¬ ∀ y q, y.root? = some "person" → c.fieldPath y = .ok q →
        (∀ s ∈ y.steps, s.InRange ∧ s.IsPlain) → y.steps ≠ x.steps → q.jsonPath ≠ "$.x.a.b" := by
  intro c x
  have htable : c.scope.resolve "person" = .table := by cbv
  have hpath : c.fieldPath x = .ok ⟨.table "person" false, x.steps⟩ := by cbv
  have hrange : ∀ s ∈ x.steps, s.InRange := by simp [x, Expr.steps, segment?, InRange]
  have hplain : ¬ ∀ s ∈ x.steps, s.IsPlain := by simp [x, Expr.steps, segment?, IsPlain]
  exact ⟨htable, rfl, hpath, hrange, mt (isPlain_iff_jsonPath_ne htable rfl hpath hrange).2 hplain⟩

end Sql

end DocQuery
