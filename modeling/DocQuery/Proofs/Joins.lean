import DocQuery.Proofs.Conditions
import DocQuery.Pattern.Join

/-! # Joins and what they leave of a condition

A join stands for a conjunct that equates handles of two tables. Recognizing joins and removing them
from the condition are two passes over it, and they have to agree: what is removed is exactly what
some join says.

* `JoinCondition.comparison`, `JoinCondition.Equates`: the conjunct that a join stands for.
* `joinCondition_eq_some_iff`: nothing else is recognized in a tree of the grammar.
* `mem_joins`: the condition under which a table is joined is the first one that names it.
* `holds_iff_joins`: the joins and the rest of a condition say what the condition says.
-/

set_option autoImplicit false

namespace DocQuery

/-! ## Equalities of handles -/

/-- The labels of fields that hold identifiers of records. -/
def IsHandle (label : String) : Prop :=
  label = "handle" ∨ label = "ref" ∨ "_handle".toList <:+ label.toList

theorem isHandle_iff {label : String} : isHandle label = true ↔ IsHandle label := by
  simp [isHandle, IsHandle, or_assoc]

namespace JoinCondition

/-- The comparison that the condition stands for. -/
def comparison (j : JoinCondition) : Expr :=
  .compare (.attr (.name j.leftTable) j.leftLabel) [.eq] [.attr (.name j.rightTable) j.rightLabel]

/-- The condition equates fields of two known tables that hold identifiers of records. -/
structure Equates (j : JoinCondition) (tables : Tables) : Prop where
  left : tables.contains j.leftTable = true
  right : tables.contains j.rightTable = true
  distinct : j.leftTable ≠ j.rightTable
  leftHandle : IsHandle j.leftLabel
  rightHandle : IsHandle j.rightLabel

/-- The table is one of the two. -/
def Names (j : JoinCondition) (table : String) : Prop :=
  j.leftTable = table ∨ j.rightTable = table

theorem comparison_injective {j k : JoinCondition} (h : j.comparison = k.comparison) : j = k := by
  obtain ⟨a, b, c, d⟩ := j
  obtain ⟨a', b', c', d'⟩ := k
  simp only [comparison, Expr.compare.injEq, Expr.attr.injEq, Expr.name.injEq, List.cons.injEq]
    at h
  obtain ⟨⟨rfl, rfl⟩, -, ⟨rfl, rfl⟩, -⟩ := h
  rfl

theorem involves_iff {j : JoinCondition} {table : String} :
    j.involves table = true ↔ j.Names table := by
  simp [involves, Names]

end JoinCondition

theorem chain_ne_nil {e : Expr} {p : String × List String} (h : e.chain? = some p) : p.2 ≠ [] := by
  fun_induction Expr.chain? e generalizing p with
  | case1 root label =>
    cases h
    simp
  | case2 value label =>
    obtain ⟨q, -, rfl⟩ := Option.map_eq_some_iff.1 h
    simp
  | case3 => cases h

theorem chain_eq_singleton {e : Expr} {root label : String} (h : e.chain? = some (root, [label])) :
    e = .attr (.name root) label := by
  rw [Expr.chain?.eq_def] at h
  split at h
  · cases h
    rfl
  · obtain ⟨q, hq, heq⟩ := Option.map_eq_some_iff.1 h
    have hne := chain_ne_nil hq
    have hlength : q.2.length + 1 = 1 := by
      have := congrArg (fun p => p.2.length) heq
      simpa using this
    have hzero : q.2.length = 0 := by omega
    exact absurd (List.length_eq_zero_iff.1 hzero) hne
  · cases h

theorem tableField_eq_some_iff {tables : Tables} {e : Expr} {table label : String} :
    e.tableField? tables = some (table, label) ↔
      e = .attr (.name table) label ∧ tables.contains table = true := by
  constructor
  · intro h
    unfold Expr.tableField? at h
    split at h
    · rename_i root field hchain
      split at h
      · cases h
        exact ⟨chain_eq_singleton hchain, ‹_›⟩
      · cases h
    · cases h
  · rintro ⟨rfl, hknown⟩
    simp [Expr.tableField?, Expr.chain?, hknown]

theorem joinCondition_comparison {tables : Tables} {j : JoinCondition} (h : j.Equates tables) :
    j.comparison.joinCondition? tables = some j := by
  have hleft : Expr.tableField? tables (.attr (.name j.leftTable) j.leftLabel) =
      some (j.leftTable, j.leftLabel) := tableField_eq_some_iff.2 ⟨rfl, h.left⟩
  have hright : Expr.tableField? tables (.attr (.name j.rightTable) j.rightLabel) =
      some (j.rightTable, j.rightLabel) := tableField_eq_some_iff.2 ⟨rfl, h.right⟩
  rw [JoinCondition.comparison, Expr.joinCondition?, hleft, hright]
  simp [h.distinct, isHandle_iff.2 h.leftHandle, isHandle_iff.2 h.rightHandle]

/-- A tree of the grammar is recognized as a join exactly when it is the comparison of one. -/
theorem joinCondition_eq_some_iff {tables : Tables} {e : Expr} {j : JoinCondition} (he : Parsed e) :
    e.joinCondition? tables = some j ↔ e = j.comparison ∧ j.Equates tables := by
  constructor
  · intro h
    cases he with
    | compare hleft links some operands =>
      -- The grammar gives a comparison as many operators as operands, so one operator means one
      -- operand.
      match links with
      | [] => exact absurd rfl some
      | _ :: _ :: _ => simp [Expr.joinCondition?] at h
      | [(op, right)] =>
        rw [Expr.joinCondition?.eq_def] at h
        split at h
        · rename_i left right' rest heq
          simp only [List.map_cons, List.map_nil, Expr.compare.injEq, List.cons.injEq] at heq
          obtain ⟨rfl, ⟨rfl, -⟩, rfl, rfl⟩ := heq
          obtain ⟨⟨leftTable, leftLabel⟩, hl, h⟩ := Option.bind_eq_some_iff.1 h
          obtain ⟨⟨rightTable, rightLabel⟩, hr, h⟩ := Option.bind_eq_some_iff.1 h
          dsimp only at h
          split at h
          · rename_i hhandles
            cases h
            obtain ⟨rfl, hleftKnown⟩ := tableField_eq_some_iff.1 hl
            obtain ⟨rfl, hrightKnown⟩ := tableField_eq_some_iff.1 hr
            exact ⟨rfl, hleftKnown, hrightKnown, hhandles.1, isHandle_iff.1 hhandles.2.1,
              isHandle_iff.1 hhandles.2.2⟩
          · cases h
        · cases h
    | _ => cases h
  · rintro ⟨rfl, h⟩
    exact joinCondition_comparison h

/-! ## Tables whose fields are named -/

theorem mem_referencedTables {tables : Tables} {base table : String} {e : Expr} :
    table ∈ e.referencedTables base tables ↔ table ≠ base ∧ tables.contains table = true ∧
      ∃ label, Expr.attr (.name table) label ∈ e.nodes := by
  rw [Expr.referencedTables, NameSet.mem_ofList, List.mem_filterMap]
  constructor
  · rintro ⟨x, hx, h⟩
    rw [Expr.referencedTable?.eq_def] at h
    split at h
    · split at h
      · rename_i hknown
        cases h
        exact ⟨hknown.1, hknown.2, _, hx⟩
      · cases h
    · cases h
  · rintro ⟨hbase, hknown, label, hx⟩
    exact ⟨_, hx, by simp [Expr.referencedTable?, hbase, hknown]⟩

/-! ## Conjuncts -/

theorem Parsed.conjuncts {e x : Expr} (h : Parsed e) (hx : x ∈ e.conjuncts) : Parsed x := by
  rw [Expr.conjuncts.eq_def] at hx
  split at hx
  · exact h.operands x hx
  · cases List.mem_singleton.1 hx
    exact h

theorem holds_iff_conjuncts {truth : Expr → Prop} {e : Expr} :
    e.Holds truth ↔ ∀ x ∈ e.conjuncts, x.Holds truth := by
  rw [Expr.conjuncts.eq_def]
  split
  · exact Expr.holds_and
  · simp

theorem holds_comparison {truth : Expr → Prop} {j : JoinCondition} :
    j.comparison.Holds truth ↔ truth j.comparison :=
  Expr.holds_atom rfl

/-- The conditions of the joins of a tree are those whose comparisons are conjuncts of it. -/
theorem mem_conditions {tables : Tables} {e : Expr} {j : JoinCondition} (he : Parsed e) :
    j ∈ e.conjuncts.filterMap (Expr.joinCondition? tables) ↔
      j.comparison ∈ e.conjuncts ∧ j.Equates tables := by
  rw [List.mem_filterMap]
  constructor
  · rintro ⟨x, hx, hj⟩
    obtain ⟨rfl, h⟩ := (joinCondition_eq_some_iff (he.conjuncts hx)).1 hj
    exact ⟨hx, h⟩
  · rintro ⟨hx, h⟩
    exact ⟨_, hx, joinCondition_comparison h⟩

theorem mem_joins {tables : Tables} {referenced : NameSet} {e : Expr} {x : String × JoinCondition} :
    x ∈ e.joins referenced tables ↔ x.1 ∈ referenced ∧
      (e.conjuncts.filterMap (Expr.joinCondition? tables)).find? (·.involves x.1) = some x.2 :=
  OrderedMap.mem_assign

/-- The condition of a join is a conjunct. -/
theorem comparison_mem_conjuncts {tables : Tables} {referenced : NameSet} {e : Expr} (he : Parsed e)
    {x : String × JoinCondition} (hx : x ∈ e.joins referenced tables) :
    x.2.comparison ∈ e.conjuncts ∧ x.2.Equates tables := by
  have hfind := (mem_joins.1 hx).2
  exact (mem_conditions he).1 (List.mem_of_find?_eq_some hfind)

/-! ## What is left -/

theorem isUsed_iff {tables : Tables} {used : List JoinCondition} {e : Expr} (he : Parsed e) :
    e.isUsed tables used = true ↔ ∃ j ∈ used, e = j.comparison ∧ j.Equates tables := by
  simp only [Expr.isUsed, Option.any_eq_true, List.contains_iff_mem,
    joinCondition_eq_some_iff he]
  constructor
  · rintro ⟨j, hj, hused⟩
    exact ⟨j, hused, hj⟩
  · rintro ⟨j, hused, hj⟩
    exact ⟨j, hj, hused⟩

theorem holds_ofOperands_and {truth : Expr → Prop} {es : List Expr} :
    (∀ e ∈ Expr.ofOperands? .and es, e.Holds truth) ↔ ∀ e ∈ es, e.Holds truth := by
  match es with
  | [] => simp [Expr.ofOperands?]
  | [e] => simp [Expr.ofOperands?]
  | _ :: _ :: _ => simp [Expr.ofOperands?, Expr.holds_and]

theorem holds_withoutJoins {truth : Expr → Prop} {tables : Tables} {used : List JoinCondition}
    {e : Expr} :
    (∀ rest ∈ e.withoutJoins? tables used, rest.Holds truth) ↔
      ∀ x ∈ e.conjuncts, x.isUsed tables used = false → x.Holds truth := by
  rw [Expr.withoutJoins?.eq_def, Expr.conjuncts.eq_def]
  split
  · rw [holds_ofOperands_and]
    simp
  · split
    · simp_all
    · simp_all

/-- A condition holds exactly when all its joins do and what is left of it does. -/
theorem holds_iff_joins {t : String} {p : Expr} (hp : Expr.parse t = .ok p) (tables : Tables)
    (referenced : NameSet) (truth : Expr → Prop) :
    p.Holds truth ↔
      (∀ x ∈ p.joins referenced tables, truth x.2.comparison) ∧
      ∀ rest ∈ p.withoutJoins? tables ((p.joins referenced tables).map (·.2)), rest.Holds truth := by
  have hparsed := parsed_of_parse hp
  rw [holds_withoutJoins, holds_iff_conjuncts]
  constructor
  · intro hall
    refine ⟨fun x hx => ?_, fun e he _ => hall e he⟩
    have hconjunct := (comparison_mem_conjuncts hparsed hx).1
    exact holds_comparison.1 (hall _ hconjunct)
  · rintro ⟨hjoins, hrest⟩ e he
    cases hused : e.isUsed tables ((p.joins referenced tables).map (·.2)) with
    | false => exact hrest e he hused
    | true =>
      -- A conjunct that was removed is the comparison of some join, perhaps written twice.
      obtain ⟨j, hj, rfl, -⟩ := (isUsed_iff (hparsed.conjuncts he)).1 hused
      obtain ⟨x, hx, rfl⟩ := OrderedMap.mem_map.1 hj
      exact holds_comparison.2 (hjoins x hx)

theorem holds_iff_joins_repeated :
    let tables : Tables := ⟨.ofList ["f", "p"]⟩
    ∃ (p rest : Expr) (j : JoinCondition),
      Expr.parse "f.ref == p.ref and p.x and f.ref == p.ref and f.handle == p.ref" = .ok p ∧
      (p.joins (.ofList ["f"]) tables).entries = [("f", j)] ∧ p.withoutJoins? tables [j] = some rest ∧
      (p.Holds (· = j.comparison) ↔
        j.comparison = j.comparison ∧ rest.Holds (· = j.comparison)) := by
  intro tables
  let j : JoinCondition := ⟨"f", "ref", "p", "ref"⟩
  let k : JoinCondition := ⟨"f", "handle", "p", "ref"⟩
  let x : Expr := .attr (.name "p") "x"
  let p : Expr := .boolean .and [j.comparison, x, j.comparison, k.comparison]
  have hparse : Expr.parse "f.ref == p.ref and p.x and f.ref == p.ref and f.handle == p.ref" =
      .ok p := by cbv
  have hjoins : (p.joins (.ofList ["f"]) tables).entries = [("f", j)] := by decide
  have hused : j.comparison.isUsed tables [j] = true ∧ x.isUsed tables [j] = false ∧
      k.comparison.isUsed tables [j] = false := by decide
  have hrest : p.withoutJoins? tables [j] = some (.boolean .and [x, k.comparison]) := by
    simp [p, Expr.withoutJoins?, hused, Expr.ofOperands?]
  have h := holds_iff_joins hparse tables (.ofList ["f"]) (· = j.comparison)
  have hused' : (p.joins (.ofList ["f"]) tables).map (·.2) = [j] := by
    rw [OrderedMap.map, hjoins, List.map_singleton]
  simp only [← OrderedMap.mem_entries, hjoins, hused', hrest] at h
  exact ⟨p, _, j, hparse, hjoins, hrest, by simpa using h⟩

end DocQuery
