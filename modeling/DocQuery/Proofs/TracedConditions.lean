import DocQuery.Proofs.Alike
import DocQuery.Proofs.Statements

/-! # Conditions that are given as traces

A condition that is given as a trace is compiled in its nested form. Joins and membership tests are
looked for among the operands of the outermost connective only, so nesting can hide them: a chain of
three or more operands keeps its first operand, and all others become one.

* `Expr.JoinsLead`, `Membership.Gathered`: nesting hides no join and no membership test.
* `withoutJoins_nest`, `split_nest`: then a condition is taken apart as its nested form is.
* `compile_trace_alike`: then both are refused, or both are compiled to statements over the same
  tables.
-/

set_option autoImplicit false

namespace DocQuery

open Sql

/-- In a conjunction of three or more operands, at most the first is a join. -/
def Expr.JoinsLead (e : Expr) (tables : Tables) : Prop :=
  ∀ first second third others, e = .boolean .and (first :: second :: third :: others) →
    ∀ x ∈ second :: third :: others, ∀ j : JoinCondition, j.Equates tables → x ≠ j.comparison

/-- In a disjunction of three or more operands, the membership test occurs in all operands after the
first or in none of them. -/
def Membership.Gathered (m : Membership) (e : Expr) : Prop :=
  ∀ first second third others, e = .boolean .or (first :: second :: third :: others) →
    (∀ x ∈ second :: third :: others, m.occursIn x = true) ∨
      ∀ x ∈ second :: third :: others, m.occursIn x = false

/-! ## Taking a condition apart -/

/-- A connective of a tree of the grammar has two operands or more, and the nested form of anything
else is something else. -/
theorem Parsed.connective_cases {e : Expr} (h : Parsed e) (op : BoolOp) :
    ((∀ operands, e ≠ .boolean op operands) ∧ ∀ operands, e.nest ≠ .boolean op operands) ∨
    (∃ first second, e = .boolean op [first, second]) ∨
    ∃ first second third others, e = .boolean op (first :: second :: third :: others) := by
  cases h with
  | boolean op' first second others =>
    by_cases hop : op' = op
    · subst hop
      cases others with
      | nil => exact .inr (.inl ⟨first, second, rfl⟩)
      | cons third others => exact .inr (.inr ⟨first, second, third, others, rfl⟩)
    · obtain ⟨es, hes⟩ := Expr.exists_rightNested op' (Expr.nestAll (first :: second :: others))
      rw [Expr.nest, hes]
      refine .inl ⟨fun operands h => ?_, fun operands h => ?_⟩ <;> cases h <;> exact hop rfl
  | _ => exact .inl ⟨nofun, nofun⟩

section Operands

variable {op : BoolOp} {p : Expr → Bool} (hp : ∀ x : Expr, p x.nest = p x)
include hp

theorem ofOperands_filter_pair (a b : Expr) :
    Expr.ofOperands? op ([a.nest, b.nest].filter p) =
      (Expr.ofOperands? op ([a, b].filter p)).map Expr.nest := by
  simp only [List.filter_cons, hp]
  cases p a <;> cases p b <;> rfl

/-- Operands that are kept or dropped together may as well be kept or dropped as one. -/
theorem ofOperands_filter_chain (a b c : Expr) {others : List Expr} (kept : Bool)
    (hkept : ∀ x ∈ b :: c :: others, p x = kept)
    (hnested : p (Expr.rightNested op (Expr.nestAll (b :: c :: others))) = kept) :
    Expr.ofOperands? op
        ([a.nest, Expr.rightNested op (Expr.nestAll (b :: c :: others))].filter p) =
      (Expr.ofOperands? op ((a :: b :: c :: others).filter p)).map Expr.nest := by
  have hothers : (b :: c :: others).filter p = if kept then b :: c :: others else [] := by
    cases kept with
    | true => exact List.filter_eq_self.2 hkept
    | false => exact List.filter_eq_nil_iff.2 fun x hx => by simp [hkept x hx]
  rw [List.filter_cons (x := a), hothers]
  simp only [List.filter_cons, List.filter_nil, hp, hnested]
  cases p a <;> cases kept <;> rfl

end Operands

/-! ## Joins -/

theorem Expr.JoinsLead.joinCondition_eq_none {tables : Tables} {first second third x : Expr}
    {others : List Expr}
    (h : (Expr.boolean .and (first :: second :: third :: others)).JoinsLead tables)
    (hx : x ∈ second :: third :: others) (hparsed : Parsed x) : x.joinCondition? tables = none := by
  refine Option.eq_none_iff_forall_ne_some.2 fun j hj => ?_
  obtain ⟨heq, hequates⟩ := (joinCondition_eq_some_iff hparsed).1 hj
  exact h first second third others rfl x hx j hequates heq

section Joins

variable {tables : Tables} {e : Expr}

theorem joinCondition_rightNested (op : BoolOp) (es : List Expr) :
    (Expr.rightNested op es).joinCondition? tables = none := by
  obtain ⟨operands, h⟩ := Expr.exists_rightNested op es
  rw [h]
  rfl

/-- Nesting hides the joins after the first operand, and no others. -/
theorem exists_hidden (h : Parsed e) (tables : Tables) : ∃ hidden : List JoinCondition,
    e.conjuncts.filterMap (Expr.joinCondition? tables) =
      e.nest.conjuncts.filterMap (Expr.joinCondition? tables) ++ hidden ∧
    (e.JoinsLead tables → hidden = []) := by
  obtain ⟨hne, hne'⟩ | ⟨a, b, rfl⟩ | ⟨a, b, c, others, rfl⟩ := h.connective_cases .and
  · refine ⟨[], ?_, fun _ => rfl⟩
    rw [Expr.conjuncts.eq_2 _ hne, Expr.conjuncts.eq_2 _ hne']
    simp [List.filterMap_cons, Expr.joinCondition_nest]
  · refine ⟨[], ?_, fun _ => rfl⟩
    simp [Expr.nest, Expr.nestAll, Expr.rightNested, Expr.conjuncts, List.filterMap_cons,
      Expr.joinCondition_nest]
  · refine ⟨(b :: c :: others).filterMap (Expr.joinCondition? tables), ?_, fun hlead => ?_⟩
    · simp only [Expr.nest, Expr.nestAll, Expr.rightNested, Expr.conjuncts]
      rw [← List.singleton_append, List.filterMap_append]
      congr 1
      simp [List.filterMap_cons, Expr.joinCondition_nest, joinCondition_rightNested]
    · exact List.filterMap_eq_nil_iff.2 fun x hx =>
        hlead.joinCondition_eq_none hx (h.operands x (List.mem_cons_of_mem _ hx))

theorem isUsed_nest (used : List JoinCondition) (e : Expr) :
    e.nest.isUsed tables used = e.isUsed tables used := by
  rw [Expr.isUsed, Expr.joinCondition_nest, Expr.isUsed]

theorem withoutJoins_nest (h : Parsed e) (hlead : e.JoinsLead tables) (used : List JoinCondition) :
    e.nest.withoutJoins? tables used = (e.withoutJoins? tables used).map Expr.nest := by
  have hp : ∀ x : Expr, (!x.nest.isUsed tables used) = !x.isUsed tables used :=
    fun x => congrArg _ (isUsed_nest used x)
  obtain ⟨hne, hne'⟩ | ⟨a, b, rfl⟩ | ⟨a, b, c, others, rfl⟩ := h.connective_cases .and
  · rw [Expr.withoutJoins?.eq_2 _ _ _ hne, Expr.withoutJoins?.eq_2 _ _ _ hne', isUsed_nest]
    split <;> rfl
  · exact ofOperands_filter_pair hp a b
  · refine ofOperands_filter_chain hp a b c true (fun x hx => ?_) ?_
    · have hnone := hlead.joinCondition_eq_none hx (h.operands x (List.mem_cons_of_mem _ hx))
      simp [Expr.isUsed, hnone]
    · simp [Expr.isUsed, joinCondition_rightNested]

end Joins

/-! ## Membership tests -/

theorem split_of_ofOperands {m : Membership} {es es' : List Expr}
    (hwithout : Expr.ofOperands? .or (es'.filter (!m.occursIn ·)) =
      (Expr.ofOperands? .or (es.filter (!m.occursIn ·))).map Expr.nest)
    (hwithin : Expr.ofOperands? .or (es'.filter m.occursIn) =
      (Expr.ofOperands? .or (es.filter m.occursIn)).map Expr.nest) :
    m.split? (.boolean .or es') =
      (m.split? (.boolean .or es)).map fun p => (p.1.nest, p.2.nest) := by
  rw [Membership.split?, Membership.split?, hwithout, hwithin]
  cases Expr.ofOperands? .or (es.filter (!m.occursIn ·)) <;>
    cases Expr.ofOperands? .or (es.filter m.occursIn) <;> rfl

theorem split_nest {e : Expr} {m : Membership} (h : Parsed e) (hg : m.Gathered e) :
    m.split? e.nest = (m.split? e).map fun p => (p.1.nest, p.2.nest) := by
  have hwithin := Expr.occursIn_nest m
  have hwithout : ∀ x : Expr, (!m.occursIn x.nest) = !m.occursIn x :=
    fun x => congrArg _ (hwithin x)
  obtain ⟨hne, hne'⟩ | ⟨a, b, rfl⟩ | ⟨a, b, c, others, rfl⟩ := h.connective_cases .or
  · rw [Membership.split?.eq_2 _ _ hne, Membership.split?.eq_2 _ _ hne']
    rfl
  · exact split_of_ofOperands (ofOperands_filter_pair hwithout a b)
      (ofOperands_filter_pair hwithin a b)
  · obtain ⟨kept, hkept⟩ : ∃ kept, ∀ x ∈ b :: c :: others, m.occursIn x = kept :=
      (hg a b c others rfl).elim (fun h => ⟨true, h⟩) fun h => ⟨false, h⟩
    have hnested : m.occursIn (Expr.rightNested .or (Expr.nestAll (b :: c :: others))) = kept := by
      rw [Expr.occursIn_nested]
      cases kept with
      | true => exact List.any_eq_true.2 ⟨b, List.mem_cons_self, hkept b List.mem_cons_self⟩
      | false => exact List.any_eq_false.2 fun x hx => by simp [hkept x hx]
    exact split_of_ofOperands
      (ofOperands_filter_chain hwithout a b c (!kept) (fun x hx => congrArg _ (hkept x hx))
        (congrArg _ hnested))
      (ofOperands_filter_chain hwithin a b c kept hkept hnested)

theorem exists_ofOperands {op : BoolOp} {es : List Expr} :
    (∃ e, Expr.ofOperands? op es = some e) ↔ es ≠ [] := by
  match es with
  | [] => simp [Expr.ofOperands?]
  | [_] => simp [Expr.ofOperands?]
  | _ :: _ :: _ => simp [Expr.ofOperands?]

/-- A disjunction is split where some disjunct has the test and some has not. -/
theorem exists_split {m : Membership} {operands : List Expr} :
    (∃ p, m.split? (.boolean .or operands) = some p) ↔
      (∃ x ∈ operands, m.occursIn x = false) ∧ ∃ x ∈ operands, m.occursIn x = true := by
  have hsome : ∀ p : Expr → Bool,
      (∃ e, Expr.ofOperands? .or (operands.filter p) = some e) ↔ ∃ x ∈ operands, p x = true := by
    intro p
    rw [exists_ofOperands, ne_eq, List.filter_eq_nil_iff]
    simp
  have hwithout := hsome (!m.occursIn ·)
  simp only [Bool.not_eq_true'] at hwithout
  rw [← hwithout, ← hsome m.occursIn, Membership.split?]
  constructor
  · rintro ⟨p, hp⟩
    obtain ⟨without, hw, hp⟩ := Option.bind_eq_some_iff.1 hp
    obtain ⟨within, hv, -⟩ := Option.bind_eq_some_iff.1 hp
    exact ⟨⟨without, hw⟩, within, hv⟩
  · rintro ⟨⟨without, hw⟩, within, hv⟩
    exact ⟨(without, within), by rw [hw, hv]; rfl⟩

/-- Where the nested form of a condition is split, the condition itself is. -/
theorem exists_split_of_nest {e : Expr} {m : Membership} (h : Parsed e)
    (hsplit : ∃ p, m.split? e.nest = some p) : ∃ p, m.split? e = some p := by
  obtain ⟨hne, hne'⟩ | ⟨a, b, rfl⟩ | ⟨a, b, c, others, rfl⟩ := h.connective_cases .or
  · obtain ⟨p, hp⟩ := hsplit
    rw [Membership.split?.eq_2 _ _ hne'] at hp
    cases hp
  · change ∃ p, m.split? (.boolean .or [a.nest, b.nest]) = some p at hsplit
    rw [exists_split] at hsplit ⊢
    simpa [Expr.occursIn_nest] using hsplit
  · change ∃ p, m.split? (.boolean .or
      [a.nest, .rightNested .or (Expr.nestAll (b :: c :: others))]) = some p at hsplit
    rw [exists_split] at hsplit ⊢
    -- The nested rest of the chain has the test where some operand in it has.
    have hnested := Expr.occursIn_nested m .or (b :: c :: others)
    simp only [List.mem_cons, List.not_mem_nil, or_false, exists_eq_or_imp, exists_eq_left,
      Expr.occursIn_nest, hnested] at hsplit
    cases ha : m.occursIn a with
    | true =>
      have hb := List.any_eq_false.1 (hsplit.1.resolve_left (by simp [ha])) b List.mem_cons_self
      exact ⟨⟨b, by simp, by simpa using hb⟩, a, by simp, ha⟩
    | false =>
      obtain ⟨x, hx, htest⟩ := List.any_eq_true.1 (hsplit.2.resolve_left (by simp [ha]))
      exact ⟨⟨a, by simp, ha⟩, x, List.mem_cons_of_mem _ hx, htest⟩

/-! ## Statements -/

theorem predicate_alike {e : Expr} (h : Parsed e) (c : Context) :
    Alike (fun p q => p.isSome = q.isSome) (c.predicate e) (c.predicate e.nest) :=
  (h.nestsAlike.eval c).bind fun _ _ hvw => conditionOf_alike hvw

/-- The layout of a request for whole documents without an order. -/
def Compiler.documents (c : Compiler) (base : String) (condition : Option Expr)
    (joins : OrderedMap JoinCondition) : Layout :=
  ⟨c, base, ⟨[], true, condition, []⟩, joins⟩

section Statements

variable {c : Compiler} {base : String} {joins : OrderedMap JoinCondition}
  {whole whole' : Option Expr}

theorem select_documents (e : Option Expr) (m : Option Membership) (union : Bool) :
    (c.documents base whole joins).select e m union = do
      let tested ← m.mapM fun m => (c.documents base none joins).expand m.target m.array
      let x := (c.documents base none joins).inner m tested.isSome union
      let own ← e.mapM x.predicate
      return (⟨[x.document], ⟨base, tested, joins⟩, Layout.both own.join none, []⟩, x) := by
  rw [Layout.select]
  refine congrArg _ (funext fun tested => ?_)
  cases tested <;> cases union <;> rfl

theorem predicates_alike {e : Option Expr} (h : ∀ x ∈ e, Parsed x) (c : Context) :
    Alike (fun _ _ => True) (e.mapM c.predicate) ((e.map Expr.nest).mapM c.predicate) := by
  cases e with
  | none => exact .ok trivial
  | some e => exact (predicate_alike (h e rfl) c).map fun _ _ _ => trivial

theorem select_alike {e : Option Expr} (h : ∀ x ∈ e, Parsed x) (m : Option Membership)
    (union : Bool) :
    Alike (fun s s' => s.1.source = s'.1.source)
      ((c.documents base whole joins).select e m union)
      ((c.documents base whole' joins).select (e.map Expr.nest) m union) := by
  rw [select_documents, select_documents]
  refine (Alike.refl _).bind fun tested tested' htested => ?_
  subst htested
  exact (predicates_alike h _).bind fun _ _ _ => .ok rfl

/-- Two queries have the same number of statements, over the same tables. -/
def Query.SameSources (q q' : Query) : Prop :=
  q.branches.map (·.source) = q'.branches.map (·.source)

theorem single_alike {e : Option Expr} (h : ∀ x ∈ e, Parsed x) (m : Option Membership) :
    Alike Query.SameSources ((c.documents base whole joins).single e m)
      ((c.documents base whole' joins).single (e.map Expr.nest) m) :=
  (select_alike h m false).bind fun s s' hs => .ok (by simp [Query.SameSources, Query.branches, hs])

theorem union_alike {without within : Expr} (hwithout : Parsed without) (hwithin : Parsed within)
    (m : Membership) :
    Alike Query.SameSources ((c.documents base whole joins).union m without within)
      ((c.documents base whole' joins).union m without.nest within.nest) := by
  have hparsed : ∀ {e : Expr}, Parsed e → ∀ x ∈ some e, Parsed x := by
    intro e he x hx
    cases hx
    exact he
  refine (select_alike (hparsed hwithout) none true).bind fun s s' hs => ?_
  refine (select_alike (hparsed hwithin) (some m) true).bind fun t t' ht => .ok ?_
  simp [Query.SameSources, Query.branches, hs, ht]

end Statements

/-! ## Layouts -/

/-- The layout of the request for the documents that meet a condition. -/
def Compiler.asking (c : Compiler) (base : String) (e : Expr) : Layout :=
  c.documents base (some e) (c.joins base ⟨[], true, some e, []⟩)

section Layouts

variable {c : Compiler} {base : String} {e : Expr}

/-- A join of the nested form is a join of the condition itself. -/
theorem joins_nest_subset (h : Parsed e) :
    (c.asking base e.nest).joins ⊆ (c.asking base e).joins := by
  obtain ⟨hidden, hconditions, -⟩ := exists_hidden h c.tables
  intro x hx
  simp only [Compiler.asking, Compiler.documents, Compiler.joins, Compiler.referenced,
    Option.toList_some, List.append_nil, List.foldl_cons, List.foldl_nil,
    Expr.referencedTables_nest] at hx ⊢
  obtain ⟨htable, hfind⟩ := mem_joins.1 hx
  refine mem_joins.2 ⟨htable, ?_⟩
  rw [hconditions, List.find?_append, hfind]
  rfl

theorem joins_nest (h : Parsed e) (hlead : e.JoinsLead c.tables) :
    (c.asking base e.nest).joins = (c.asking base e).joins := by
  obtain ⟨hidden, hconditions, hnil⟩ := exists_hidden h c.tables
  rw [hnil hlead, List.append_nil] at hconditions
  simp only [Compiler.asking, Compiler.documents, Compiler.joins, Compiler.referenced,
    Option.toList_some, List.append_nil, List.foldl_cons, List.foldl_nil,
    Expr.referencedTables_nest, Expr.joins, hconditions]

theorem asking_nest (h : Parsed e) (hlead : e.JoinsLead c.tables) :
    c.asking base e.nest = c.documents base (some e.nest) (c.asking base e).joins := by
  rw [← joins_nest h hlead]
  rfl

theorem condition_nest (h : Parsed e) (hlead : e.JoinsLead c.tables) :
    (c.asking base e.nest).condition = (c.asking base e).condition.map Expr.nest := by
  rw [Layout.condition, joins_nest h hlead]
  exact withoutJoins_nest h hlead _

theorem parsed_condition (h : Parsed e) : ∀ d ∈ (c.asking base e).condition, Parsed d :=
  fun _ hd => h.withoutJoins hd

theorem membership_nest (h : Parsed e) (hlead : e.JoinsLead c.tables) :
    (c.asking base e.nest).membership = (c.asking base e).membership := by
  rw [Layout.membership, condition_nest h hlead, Layout.membership]
  cases hd : (c.asking base e).condition with
  | none => rfl
  | some d => exact Expr.membership_nest (parsed_condition h d hd) base _

/-- What is left of a condition is one of its conjuncts or a conjunction. -/
theorem withoutJoins_cases {used : List JoinCondition} {d : Expr}
    (h : e.withoutJoins? c.tables used = some d) :
    d ∈ e.conjuncts ∨ ∃ operands, d = .boolean .and operands := by
  unfold Expr.withoutJoins? at h
  split at h
  · rename_i operands
    have hsub : ∀ x ∈ operands.filter (!Expr.isUsed c.tables used ·), x ∈ operands :=
      fun x hx => List.mem_of_mem_filter hx
    generalize operands.filter (!Expr.isUsed c.tables used ·) = kept at h hsub
    match kept, h with
    | [x], h =>
      cases h
      exact .inl (hsub _ List.mem_cons_self)
    | _ :: _ :: _, h =>
      cases h
      exact .inr ⟨_, rfl⟩
  · rename_i hne
    split at h
    · cases h
    · cases h
      rw [Expr.conjuncts.eq_2 _ hne]
      exact .inl List.mem_cons_self

/-- What is left of the nested form of a long conjunction is a conjunction: the operands after the
first stay together. -/
theorem withoutJoins_nested_chain {tables : Tables} {used : List JoinCondition} {a b x d : Expr}
    {others : List Expr}
    (h : (Expr.boolean .and (a :: b :: x :: others)).nest.withoutJoins? tables used = some d) :
    ∃ operands, d = .boolean .and operands := by
  have hnested : (Expr.rightNested .and (Expr.nestAll (b :: x :: others))).isUsed tables used =
      false := by
    rw [Expr.isUsed, joinCondition_rightNested]
    rfl
  change Expr.withoutJoins? tables used
    (.boolean .and [a.nest, .rightNested .and (Expr.nestAll (b :: x :: others))]) = some d at h
  rw [Expr.withoutJoins?] at h
  simp only [List.filter_cons, hnested] at h
  cases ha : a.nest.isUsed tables used with
  | true =>
    rw [ha] at h
    cases h
    exact Expr.exists_rightNested _ _
  | false =>
    rw [ha] at h
    cases h
    exact ⟨_, rfl⟩

/-- Where the nested form of a condition gives a union, the condition itself does. -/
theorem splits_of_nest (h : Parsed e) {d : Expr} {m : Membership} {p : Expr × Expr}
    (hd : (c.asking base e.nest).condition = some d)
    (hm : (c.asking base e.nest).membership = some m) (hsplit : m.split? d = some p) :
    ∃ d' p', (c.asking base e).condition = some d' ∧ (c.asking base e).membership = some m ∧
      m.split? d' = some p' := by
  -- A conjunction of three or more operands stays one, and only a disjunction is split.
  have hlead : e.JoinsLead c.tables → ∃ d' p', (c.asking base e).condition = some d' ∧
      (c.asking base e).membership = some m ∧ m.split? d' = some p' := by
    intro hlead
    rw [condition_nest h hlead] at hd
    rw [membership_nest h hlead] at hm
    obtain ⟨d', hd', rfl⟩ := Option.map_eq_some_iff.1 hd
    obtain ⟨p', hp'⟩ := exists_split_of_nest (parsed_condition h d' hd') ⟨p, hsplit⟩
    exact ⟨d', p', hd', hm, hp'⟩
  obtain ⟨hne, -⟩ | ⟨a, b, rfl⟩ | ⟨a, b, x, others, rfl⟩ := h.connective_cases .and
  · exact hlead fun _ _ _ _ heq => absurd heq (hne _)
  · exact hlead nofun
  · obtain ⟨operands, rfl⟩ := withoutJoins_nested_chain hd
    cases hsplit

end Layouts

/-! ## Queries -/

/-- The query for the documents that meet a condition. -/
def Compiler.answer (c : Compiler) (base : String) (e : Expr) : Except Error Query :=
  let l := c.asking base e
  match l.membership, l.condition.bind fun d => l.membership.bind (·.split? d) with
  | some m, some (without, within) => l.union m without within
  | _, _ => l.single l.condition l.membership

section Queries

variable {c : Compiler} {base : String} {e : Expr}

theorem parts_document {source : Source} (he : source.expr = .ok e) :
    Request.parts ⟨base, .document, some source, []⟩ = .ok ⟨[], true, some e, []⟩ := by
  change ((some <$> source.expr : Except Error (Option Expr)) >>= _) = _
  rw [he]
  rfl

theorem compile_eq_answer (hbase : c.tables.contains base = true) {source : Source}
    (he : source.expr = .ok e) :
    c.compile ⟨base, .document, some source, []⟩ = c.answer base e := by
  rw [Compiler.compile, parts_document he, hbase]
  rfl

theorem answer_alike (h : Parsed e) (hlead : e.JoinsLead c.tables)
    (htests : ∀ d ∈ e.conjuncts, ∀ m ∈ d.membership? base (.of c.env c.tables), m.Gathered d) :
    Alike Query.SameSources (c.answer base e) (c.answer base e.nest) := by
  rw [Compiler.answer, Compiler.answer, membership_nest h hlead, condition_nest h hlead,
    asking_nest h hlead]
  have hparsed := @parsed_condition c base e h
  cases hd : (c.asking base e).condition with
  | none =>
    rw [Layout.membership, hd]
    exact single_alike (by simp) none
  | some d =>
    rw [hd] at hparsed
    cases hm : (c.asking base e).membership with
    | none => exact single_alike hparsed none
    | some m =>
      have hgathered : m.Gathered d := by
        obtain hconjunct | ⟨operands, rfl⟩ := withoutJoins_cases hd
        · rw [Layout.membership, hd] at hm
          exact htests d hconjunct m hm
        · exact nofun
      simp only [Option.map_some, Option.bind_some, split_nest (hparsed d rfl) hgathered]
      cases hsplit : m.split? d with
      | none => exact single_alike hparsed (some m)
      | some p =>
        obtain ⟨hwithout, hwithin⟩ := (hparsed d rfl).split hsplit
        exact union_alike hwithout hwithin m

/-- Nesting never adds a statement or a join. -/
theorem branches_nest (h : Parsed e) {q q' : Query} (hq : (c.asking base e).Queries q)
    (hq' : (c.asking base e.nest).Queries q') :
    q'.branches.length ≤ q.branches.length ∧
      ∀ s ∈ q.branches, ∀ s' ∈ q'.branches, s'.source.joins ⊆ s.source.joins := by
  refine ⟨?_, fun s hs s' hs' => ?_⟩
  · cases hq' with
    | single _ hone =>
      obtain ⟨s, c, texts, -, -, rfl⟩ := Layout.single_eq_ok hone
      cases q <;> simp [Query.branches]
    | union hd hm hsplit htwo =>
      obtain ⟨first, second, c, d, -, -, rfl⟩ := Layout.union_eq_ok htwo
      obtain ⟨d, p, hd, hm, hsplit⟩ := splits_of_nest h hd hm hsplit
      cases hq with
      | single hwhole => cases (hwhole d _ hd hm).symm.trans hsplit
      | union _ _ _ htwo =>
        obtain ⟨first, second, c, d, -, -, rfl⟩ := Layout.union_eq_ok htwo
        exact Nat.le_refl 2
  · rw [(hq.source s hs).2, (hq'.source s' hs').2]
    exact joins_nest_subset h

theorem queries_document {source : Source} (he : source.expr = .ok e) {q : Query}
    (hq : c.compile ⟨base, .document, some source, []⟩ = .ok q) : (c.asking base e).Queries q := by
  obtain ⟨-, parts, hparts, hq⟩ := queries_of_compile hq
  cases hparts.symm.trans (parts_document he)
  exact hq

end Queries

/-! ## Traces of conditions -/

theorem bodyOf_nest {e : Expr} {steps : List Step} (h : e.lower = .ok steps) :
    Source.bodyOf e.nest = .ok e.nest := by
  cases e with
  | lambda params rest named body =>
    cases params <;> cases rest <;> cases named <;> simp [Expr.lower, Expr.notLowerable] at h
  | boolean op operands =>
    obtain ⟨es, hes⟩ := Expr.exists_rightNested op (Expr.nestAll operands)
    rw [Expr.nest, hes]
    rfl
  | _ => rfl

/-- The text that is recovered from the trace of a condition is read as its nested form. -/
theorem expr_trace {t : String} {trace : Trace} (htrace : Trace.ofText t = .ok trace)
    (hparams : trace.params = []) :
    ∃ e, (Source.text t).expr = .ok e ∧ Parsed e ∧ (e.Recoverable → trace.code.length < 2 ^ 31 →
      (Source.trace trace).expr = .ok e.nest) := by
  obtain ⟨tree, hparse, htrace⟩ := bind_eq_ok htrace
  obtain ⟨e, steps, hbody, hsteps, rfl⟩ := ofExpr_eq_ok htrace hparams
  have hexpr : (Source.text t).expr = .ok e := by
    rw [Source.expr, Source.toText]
    exact (congrArg (· >>= _) hparse).trans hbody
  refine ⟨e, hexpr, parsed_of_expr hexpr, fun hrecoverable hlength => ?_⟩
  obtain ⟨d, hspell, hpush⟩ := (parsed_of_expr hexpr).recovered hrecoverable steps hsteps
  have hd : Expr.parse d = .ok e.nest := (hspell.loosen (by decide)).parse
  rw [Source.expr, Source.toText, text_whole hpush hlength]
  exact (congrArg (· >>= _) hd).trans (bodyOf_nest hsteps)

theorem compile_unknown {c : Compiler} {base : String} (h : c.tables.contains base = false)
    (what : Projection) (condition : Option Source) (order : List SortKey) :
    c.compile ⟨base, what, condition, order⟩ = .error (.mismatch base .unknownTable) := by
  rw [Compiler.compile]
  simp [h]

/-- A condition and its trace are compiled alike where nesting hides no join and no membership test:
both are refused, or both give the same number of statements, over the same tables. In any case the
trace gives no more statements than the condition, and no other joins. -/
theorem compile_trace_alike {t : String} {trace : Trace} (htrace : Trace.ofText t = .ok trace)
    (hparams : trace.params = []) (c : Compiler) (base : String) :
    ∃ e, (Source.text t).expr = .ok e ∧
      ((∀ x, ¬(Expr.literal (.float x)).Inside e) →
        (∀ n label, ¬(Expr.attr (.literal (.int n)) label).Inside e) →
        trace.code.length < 2 ^ 31 →
        (e.JoinsLead c.tables →
          (∀ d ∈ e.conjuncts, ∀ m ∈ d.membership? base (.of c.env c.tables), m.Gathered d) →
          (∃ q q', c.compile ⟨base, .document, some (.text t), []⟩ = .ok q ∧
            c.compile ⟨base, .document, some (.trace trace), []⟩ = .ok q' ∧
            q.branches.map (·.source) = q'.branches.map (·.source)) ∨
          ∃ x y, c.compile ⟨base, .document, some (.text t), []⟩ = .error x ∧
            c.compile ⟨base, .document, some (.trace trace), []⟩ = .error y) ∧
        ∀ q q', c.compile ⟨base, .document, some (.text t), []⟩ = .ok q →
          c.compile ⟨base, .document, some (.trace trace), []⟩ = .ok q' →
          q'.branches.length ≤ q.branches.length ∧
            ∀ s ∈ q.branches, ∀ s' ∈ q'.branches, s'.source.joins ⊆ s.source.joins) := by
  obtain ⟨e, he, hparsed, hnest⟩ := expr_trace htrace hparams
  refine ⟨e, he, fun hfloat hdigits hlength => ?_⟩
  have he' := hnest ⟨hfloat, hdigits⟩ hlength
  refine ⟨fun hlead htests => ?_, fun q q' hq hq' =>
    branches_nest hparsed (queries_document he hq) (queries_document he' hq')⟩
  cases hbase : c.tables.contains base with
  | false => exact .inr ⟨_, _, compile_unknown hbase .., compile_unknown hbase ..⟩
  | true =>
    rw [compile_eq_answer hbase he, compile_eq_answer hbase he']
    have halike := answer_alike hparsed hlead htests
    generalize c.answer base e = r, c.answer base e.nest = s at halike
    cases halike with
    | ok h => exact .inl ⟨_, _, rfl, rfl, h⟩
    | error x y => exact .inr ⟨x, y, rfl, rfl⟩

theorem compile_trace_alike_join : ∃ (e : Expr) (trace : Trace) (q q' : Query),
    Trace.ofText "f.ref == p.ref and v in p.xs and v.y" = .ok trace ∧ trace.params = [] ∧
    (Source.text "f.ref == p.ref and v in p.xs and v.y").expr = .ok e ∧
    (∀ x, ¬(Expr.literal (.float x)).Inside e) ∧
    (∀ n label, ¬(Expr.attr (.literal (.int n)) label).Inside e) ∧
    trace.code.length < 2 ^ 31 ∧ e.JoinsLead ⟨.ofList ["f", "p"]⟩ ∧
    (∀ d ∈ e.conjuncts, ∀ m ∈ d.membership? "p" (.of .empty ⟨.ofList ["f", "p"]⟩), m.Gathered d) ∧
    Compiler.compile ⟨.empty, ⟨.ofList ["f", "p"]⟩⟩
      ⟨"p", .document, some (.text "f.ref == p.ref and v in p.xs and v.y"), []⟩ = .ok q ∧
    Compiler.compile ⟨.empty, ⟨.ofList ["f", "p"]⟩⟩ ⟨"p", .document, some (.trace trace), []⟩ = .ok q' ∧
    q.branches.map (fun s => (s.source.expansion.map (·.target), s.source.joins.map (·.1))) =
      [(some "v", ["f"])] ∧
    q.branches.map (·.source) = q'.branches.map (·.source) := by
  let join : Expr := .compare (.attr (.name "f") "ref") [.eq] [.attr (.name "p") "ref"]
  let test : Expr := .compare (.name "v") [.elemOf] [.attr (.name "p") "xs"]
  let field : Expr := .attr (.name "v") "y"
  let e : Expr := .boolean .and [join, test, field]
  have hsources : (fun q : Query => q.branches.map fun s =>
      (s.source.expansion.map (·.target), s.source.joins.map (·.1))) <$>
      Compiler.compile ⟨.empty, ⟨.ofList ["f", "p"]⟩⟩
        ⟨"p", .document, some (.text "f.ref == p.ref and v in p.xs and v.y"), []⟩ =
      .ok [(some "v", ["f"])] := by cbv
  obtain ⟨t, ht⟩ : ∃ t, t = "f.ref == p.ref and v in p.xs and v.y" := ⟨_, rfl⟩
  rw [← ht] at hsources ⊢
  have hparse : Expr.parse t = .ok e := by
    rw [ht]
    cbv
  have hinside : ∀ x : Expr, x.Inside e → x ∈ [e, join, test, field, .attr (.name "f") "ref",
      .attr (.name "p") "ref", .attr (.name "p") "xs", .name "f", .name "p", .name "v"] :=
    fun x hx => hx.mem_of_closed List.mem_cons_self (by simp [e, join, test, field, Expr.parts])
  have hfloat : ∀ x, ¬(Expr.literal (.float x)).Inside e := fun x hx => by
    simpa [e, join, test, field] using hinside _ hx
  have hdigits : ∀ n label, ¬(Expr.attr (.literal (.int n)) label).Inside e := fun n label hx => by
    simpa [e, join, test, field] using hinside _ hx
  have hlead : e.JoinsLead ⟨.ofList ["f", "p"]⟩ := by
    rintro _ _ _ _ heq x hx j - rfl
    cases (Expr.boolean.inj heq).2
    simp [JoinCondition.comparison, test, field] at hx
  have htests : ∀ d ∈ e.conjuncts, ∀ m ∈ d.membership? "p" (.of .empty ⟨.ofList ["f", "p"]⟩),
      m.Gathered d := by
    rintro d hd m - _ _ _ _ rfl
    simp [e, Expr.conjuncts, join, test, field] at hd
  obtain ⟨steps, hsteps, hlength⟩ : ∃ steps, e.lower = .ok steps ∧
      (Step.whole steps).length < 2 ^ 31 := ⟨_, rfl, by decide⟩
  have htrace : Trace.ofText t = .ok ⟨[], Step.whole steps⟩ := by
    rw [Trace.ofText, hparse]
    change Trace.ofBody [] e = _
    rw [Trace.ofBody, hsteps]
    rfl
  have hsource : (Source.text t).expr = .ok e := by
    rw [Source.expr, Source.toText]
    exact (congrArg (· >>= _) hparse).trans rfl
  obtain ⟨q, hq, hbranches⟩ := map_eq_ok hsources
  obtain ⟨e', hexpr, halike⟩ := compile_trace_alike htrace rfl ⟨.empty, ⟨.ofList ["f", "p"]⟩⟩ "p"
  cases Except.ok.inj (hexpr.symm.trans hsource)
  obtain ⟨_, q', hr, hq', hsame⟩ | ⟨x, y, hx, -⟩ :=
    (halike hfloat hdigits hlength).1 hlead htests
  · cases Except.ok.inj (hr.symm.trans hq)
    exact ⟨e, _, q, q', htrace, rfl, hexpr, hfloat, hdigits, hlength, hlead, htests, hq, hq',
      hbranches, hsame⟩
  · cases hx.symm.trans hq

/-- A join that is the last of three operands is hidden from the trace. -/
example :
    ((do
      let c : Compiler := ⟨.empty, ⟨.ofList ["f", "p"]⟩⟩
      let trace ← Trace.ofText "p.x and p.y and f.ref == p.ref"
      let q ← c.compile ⟨"p", .document, some (.text "p.x and p.y and f.ref == p.ref"), []⟩
      let q' ← c.compile ⟨"p", .document, some (.trace trace), []⟩
      return (q.branches ++ q'.branches).map (·.source.joins.map (·.1))) :
      Except Error (List (List String))) = .ok [["f"], []] := by
  cbv

end DocQuery
