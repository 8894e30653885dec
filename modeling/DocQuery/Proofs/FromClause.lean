import DocQuery.Proofs.Statements
import DocQuery.Proofs.Accesses

/-! # The tables that a statement reads

Every statement of a query reads its base table, at most one array, and the joined tables in
increasing order. An array is expanded for a membership test or for a comprehension, a table is joined
for a conjunct of the condition, and nothing else is read.

* `JoinCondition.IsFirst`: the conjunct under which a table is joined.
* `mem_referencedTables_of_comparison`: a conjunct that equates handles names both of its tables, so
  none of them is overlooked.
* `Request.Iterates`, `Expansion.Expands`: the array over which a statement iterates, and what is
  written for it.
* `source_compile`: what the statements of a compiled query read.
-/

set_option autoImplicit false

namespace DocQuery

open Sql Token

variable {tables : Tables} {base table : String}

/-! ## The first condition that names a table -/

/-- The condition is the first among some expressions that equates handles and names the table. -/
def JoinCondition.IsFirst (j : JoinCondition) (tables : Tables) (table : String)
    (es : List Expr) : Prop :=
  ∃ before after, es = before ++ j.comparison :: after ∧ j.Equates tables ∧ j.Names table ∧
    ∀ k : JoinCondition, k.comparison ∈ before → k.Equates tables → ¬ k.Names table

theorem isFirst_cons {j : JoinCondition} {e : Expr} {es : List Expr} :
    j.IsFirst tables table (e :: es) ↔
      (e = j.comparison ∧ j.Equates tables ∧ j.Names table) ∨
      (j.IsFirst tables table es ∧
        ∀ k : JoinCondition, e = k.comparison → k.Equates tables → ¬ k.Names table) := by
  constructor
  · rintro ⟨before, after, hes, hequates, hnames, hbefore⟩
    match before with
    | [] =>
      cases hes
      exact .inl ⟨rfl, hequates, hnames⟩
    | b :: before =>
      cases hes
      refine .inr ⟨⟨before, after, rfl, hequates, hnames, ?_⟩, ?_⟩
      · exact fun k hk => hbefore k (List.mem_cons_of_mem _ hk)
      · rintro k rfl
        exact hbefore k List.mem_cons_self
  · rintro (⟨rfl, hequates, hnames⟩ | ⟨⟨before, after, rfl, hequates, hnames, hbefore⟩, hfirst⟩)
    · exact ⟨[], es, rfl, hequates, hnames, nofun⟩
    · refine ⟨e :: before, after, rfl, hequates, hnames, fun k hk => ?_⟩
      obtain hk | hk := List.mem_cons.1 hk
      · exact hfirst k hk.symm
      · exact hbefore k hk

/-- The search for the condition of a table finds the first one that names it. -/
theorem find_conditions_iff {es : List Expr} (hes : ∀ e ∈ es, Parsed e) {j : JoinCondition} :
    (es.filterMap (Expr.joinCondition? tables)).find? (·.involves table) = some j ↔
      j.IsFirst tables table es := by
  induction es with
  | nil => simp [JoinCondition.IsFirst]
  | cons e es ih =>
    obtain ⟨he, hes⟩ := List.forall_mem_cons.1 hes
    rw [isFirst_cons, ← ih hes]
    cases hk : e.joinCondition? tables with
    | none =>
      rw [List.filterMap_cons_none hk]
      have hnone : ∀ k : JoinCondition, e = k.comparison → ¬ k.Equates tables := by
        rintro k rfl hequates
        cases hk.symm.trans (joinCondition_comparison hequates)
      constructor
      · exact fun h => .inr ⟨h, fun k heq hequates => absurd hequates (hnone k heq)⟩
      · rintro (⟨heq, hequates, -⟩ | ⟨h, -⟩)
        · exact absurd hequates (hnone j heq)
        · exact h
    | some k =>
      rw [List.filterMap_cons_some hk, List.find?_cons]
      obtain ⟨rfl, hequates⟩ := (joinCondition_eq_some_iff he).1 hk
      by_cases hnames : k.Names table
      · rw [JoinCondition.involves_iff.2 hnames]
        constructor
        · rintro ⟨⟩
          exact .inl ⟨rfl, hequates, hnames⟩
        · rintro (⟨heq, -⟩ | ⟨-, hfirst⟩)
          · rw [JoinCondition.comparison_injective heq]
          · exact absurd hnames (hfirst k rfl hequates)
      · have hinvolves : k.involves table = false :=
          Bool.eq_false_iff.2 fun h => hnames (JoinCondition.involves_iff.1 h)
        rw [hinvolves]
        constructor
        · refine fun h => .inr ⟨h, fun k' heq _ => ?_⟩
          rwa [← JoinCondition.comparison_injective heq]
        · rintro (⟨heq, -, hj⟩ | ⟨h, -⟩)
          · rw [JoinCondition.comparison_injective heq] at hnames
            exact absurd hj hnames
          · exact h

/-! ## The tables that are considered -/

theorem mem_nodes_of_conjunct {e x y : Expr} (hx : x ∈ e.conjuncts) (hy : y ∈ x.nodes) :
    y ∈ e.nodes := by
  rw [Expr.conjuncts.eq_def] at hx
  split at hx
  · exact List.mem_cons_of_mem _ (Expr.mem_nodesOfAll.2 ⟨x, hx, hy⟩)
  · cases List.mem_singleton.1 hx
    exact hy

theorem mem_nodes_comparison {j : JoinCondition} (h : j.Names table) :
    ∃ label, Expr.attr (.name table) label ∈ j.comparison.nodes := by
  obtain rfl | rfl := h
  · exact ⟨j.leftLabel, by simp [JoinCondition.comparison, Expr.nodes]⟩
  · exact ⟨j.rightLabel, by simp [JoinCondition.comparison, Expr.nodes, Expr.nodesOfAll]⟩

theorem JoinCondition.Equates.contains {j : JoinCondition} (h : j.Equates tables)
    (hnames : j.Names table) : tables.contains table = true := by
  obtain rfl | rfl := hnames
  · exact h.left
  · exact h.right

/-- A conjunct that equates handles mentions fields of both tables. -/
theorem mem_referencedTables_of_comparison {e : Expr} {j : JoinCondition}
    (hj : j.comparison ∈ e.conjuncts) (hequates : j.Equates tables) (hnames : j.Names table)
    (hbase : table ≠ base) : table ∈ e.referencedTables base tables := by
  obtain ⟨label, hlabel⟩ := mem_nodes_comparison hnames
  have hnode := mem_nodes_of_conjunct hj hlabel
  exact mem_referencedTables.2 ⟨hbase, hequates.contains hnames, label, hnode⟩

section Referenced

variable {c : Compiler} {p : Parts}

theorem ne_base_of_mem_referenced (h : table ∈ c.referenced base p) : table ≠ base := by
  obtain ⟨e, -, he⟩ := mem_referenced.1 h
  exact (mem_referencedTables.1 he).1

end Referenced

/-! ## The tables that are joined -/

section Compiled

variable {c : Compiler} {p : Parts}

/-- A table other than the base is joined under the first conjunct that names it. -/
theorem mem_compiler_joins (hparsed : ∀ e ∈ p.condition, Parsed e) {x : String × JoinCondition} :
    x ∈ c.joins base p ↔
      x.1 ≠ base ∧ ∃ e ∈ p.condition, x.2.IsFirst c.tables x.1 e.conjuncts := by
  rw [Compiler.joins.eq_def]
  cases hcondition : p.condition with
  | none => simp
  | some e =>
    have hconjuncts : ∀ y ∈ e.conjuncts, Parsed y := fun y hy => (hparsed e hcondition).conjuncts hy
    simp only [mem_joins, find_conditions_iff hconjuncts, Option.mem_some_iff, exists_eq_left']
    constructor
    · rintro ⟨hreferenced, hfirst⟩
      exact ⟨ne_base_of_mem_referenced hreferenced, hfirst⟩
    · rintro ⟨hbase, hfirst⟩
      refine ⟨mem_referenced.2 ⟨e, by simp [hcondition], ?_⟩, hfirst⟩
      obtain ⟨before, after, heq, hequates, hnames, -⟩ := hfirst
      exact mem_referencedTables_of_comparison (by simp [heq]) hequates hnames hbase

theorem exists_isFirst_iff {e : Expr} (he : Parsed e) :
    (∃ j : JoinCondition, j.IsFirst tables table e.conjuncts) ↔
      ∃ j : JoinCondition, j.comparison ∈ e.conjuncts ∧ j.Equates tables ∧ j.Names table := by
  constructor
  · rintro ⟨j, before, after, heq, hequates, hnames, -⟩
    exact ⟨j, by simp [heq], hequates, hnames⟩
  · rintro ⟨j, hj, hequates, hnames⟩
    have hmem := (mem_conditions he).2 ⟨hj, hequates⟩
    have hsome : ((e.conjuncts.filterMap (Expr.joinCondition? tables)).find?
        (·.involves table)).isSome := by
      rw [List.find?_isSome]
      exact ⟨j, hmem, JoinCondition.involves_iff.2 hnames⟩
    obtain ⟨k, hk⟩ := Option.isSome_iff_exists.1 hsome
    exact ⟨k, (find_conditions_iff fun y hy => he.conjuncts hy).1 hk⟩

theorem joined_iff (hparsed : ∀ e ∈ p.condition, Parsed e) :
    table ∈ (c.joins base p).keys ↔ c.tables.contains table = true ∧ table ≠ base ∧
      ∃ e ∈ p.condition, ∃ j : JoinCondition,
        j.comparison ∈ e.conjuncts ∧ j.Equates c.tables ∧ j.Names table := by
  rw [OrderedMap.keys, ← NameSet.mem_toList, List.mem_map]
  constructor
  · rintro ⟨x, hx, rfl⟩
    obtain ⟨hbase, e, he, hfirst⟩ := (mem_compiler_joins hparsed).1 hx
    obtain ⟨j, hj, hequates, hnames⟩ := (exists_isFirst_iff (hparsed e he)).1 ⟨_, hfirst⟩
    exact ⟨hequates.contains hnames, hbase, e, he, j, hj, hequates, hnames⟩
  · rintro ⟨-, hbase, e, he, hj⟩
    obtain ⟨j, hfirst⟩ := (exists_isFirst_iff (hparsed e he)).2 hj
    exact ⟨(table, j), (mem_compiler_joins hparsed).2 ⟨hbase, e, he, hfirst⟩, rfl⟩

end Compiled

/-! ## The array that is expanded -/

section Tests

variable {scope : Scope} {used : List JoinCondition} {e : Expr}

theorem membership_of_isUsed (h : e.isUsed tables used = true) : e.membership? base scope = none := by
  obtain ⟨j, hj, -⟩ := (Option.any_eq_true _ _).1 h
  rw [Expr.joinCondition?.eq_def] at hj
  split at hj
  · simp [Expr.membership?, Expr.asMembership?, Expr.membershipParts?]
  · cases hj

theorem membership_ofOperands {es : List Expr} :
    (Expr.ofOperands? .and es).bind (Expr.membership? base scope) =
      Expr.membershipAmong? base scope es := by
  match es with
  | [] => rfl
  | [e] => simp [Expr.ofOperands?, Expr.membershipAmong?]
  | e :: e' :: es => rfl

theorem membershipAmong_filter {keep : Expr → Bool}
    (h : ∀ e, keep e = false → e.membership? base scope = none) (es : List Expr) :
    Expr.membershipAmong? base scope (es.filter keep) = Expr.membershipAmong? base scope es := by
  induction es with
  | nil => rfl
  | cons e es ih =>
    cases hkeep : keep e with
    | true => rw [List.filter_cons_of_pos hkeep, Expr.membershipAmong?, ih, Expr.membershipAmong?]
    | false =>
      rw [List.filter_cons_of_neg (by simp [hkeep]), ih, Expr.membershipAmong?, h e hkeep]
      rfl

/-- No membership test is lost with the equalities that joins stand for. -/
theorem membership_withoutJoins :
    (e.withoutJoins? tables used).bind (Expr.membership? base scope) = e.membership? base scope := by
  rw [Expr.withoutJoins?.eq_def]
  split
  · rename_i operands
    have hused : ∀ e : Expr, (!e.isUsed tables used) = false → e.membership? base scope = none :=
      fun e he => membership_of_isUsed (by simpa using he)
    rw [membership_ofOperands, membershipAmong_filter hused, Expr.membership?]
  · split
    · rename_i hused
      exact (membership_of_isUsed hused).symm
    · rfl

end Tests

theorem Expr.exists_root_of_chain {e : Expr} (h : e.chain?.isSome = true) :
    ∃ id, e.root? = some id := by
  fun_induction Expr.chain? e with
  | case1 id label => exact ⟨id, rfl⟩
  | case2 value label _ ih => exact ih (by simpa using h)
  | case3 => cases h

/-- The expansion is that of an array in the documents of a known table, which is named, under a
name. -/
structure Expansion.Expands (x : Expansion) (tables : Tables) (array : Expr) : Prop where
  isName : IsName x.target
  path : ∃ table, tables.contains table = true ∧ array.root? = some table ∧
    x.array = ⟨.table table true, array.steps⟩

theorem Layout.expands_of_expand {l : Layout} {target : String} {array : Expr} {x : Expansion}
    (hname : IsName target) (hchain : array.chain?.isSome = true)
    (hx : l.expand target array = .ok x) :
    x.target = target ∧ x.Expands l.compiler.tables array := by
  obtain ⟨p, hp, hx⟩ := bind_eq_ok hx
  cases hx
  obtain ⟨table, hroot⟩ := Expr.exists_root_of_chain hchain
  obtain ⟨hresolve, rfl⟩ := Sql.fieldPath_of_root rfl hroot hp
  refine ⟨rfl, hname, table, ?_, hroot, by simp [Context.rootOf, Context.qualified]⟩
  exact Scope.contains_of_resolve hresolve

/-- A statement of a query iterates over an array under a name. The last statement does so for the
membership test of the condition: it is the only one, or that for the disjuncts with the test. Every
statement does so for the comprehension that is all that is selected. -/
inductive Request.Iterates (r : Request) (c : Compiler) (q : Query) (s : Select) :
    String → Expr → Prop
  | test {source : Source} {e : Expr} {m : Membership} (hsource : source ∈ r.condition)
      (he : source.expr = .ok e) (hm : e.membership? r.table (.of c.env c.tables) = some m)
      (hlast : q.branches.getLast? = some s) : Iterates r c q s m.target m.array
  | comprehension {source : Source} {e : Expr} {a : ArrayComprehension}
      (hsource : r.what.sources = [source]) (he : source.expr = .ok e)
      (ha : e.comprehension? = .ok (some a)) : Iterates r c q s a.target a.array

theorem chain_of_membership {scope : Scope} {e : Expr} {m : Membership} (h : Parsed e)
    (hm : e.membership? base scope = some m) : m.array.chain?.isSome = true := by
  obtain ⟨x, -, hm⟩ := h.atom_of_membership hm
  rw [Expr.asMembership?] at hm
  split at hm
  · split at hm
    · rename_i hcond
      cases hm
      obtain ⟨p, hp, -⟩ := (Option.any_eq_true _ _).1 (Bool.and_eq_true_iff.1 hcond).1
      simp [hp]
    · cases hm
  · cases hm

theorem chain_of_comprehension {e : Expr} {a : ArrayComprehension}
    (ha : e.comprehension? = .ok (some a)) : a.array.chain?.isSome = true := by
  rw [Expr.comprehension?.eq_def] at ha
  split at ha
  · cases ha
  · split at ha
    · cases ha
      assumption
    · cases ha
  · cases ha

theorem Layout.membership_eq_some {l : Layout} {m : Membership} :
    l.membership = some m ↔ ∃ e ∈ l.parts.condition,
      e.membership? l.base (.of l.compiler.env l.compiler.tables) = some m := by
  rw [Layout.membership, Layout.condition, Option.bind_assoc]
  simp only [membership_withoutJoins, Option.bind_eq_some_iff, Option.mem_def]

theorem Layout.comprehension_eq_some {l : Layout} {a : ArrayComprehension} :
    l.comprehension? = .ok (some a) ↔ ∃ e, l.parts.what = [e] ∧ e.comprehension? = .ok (some a) := by
  rw [Layout.comprehension?.eq_def]
  split
  · rename_i e he
    simp [he]
  · rename_i hne
    constructor
    · rintro ⟨⟩
    · rintro ⟨e, he, -⟩
      exact absurd he (hne e)

/-- The last statement of a query is that of the membership test. -/
theorem Layout.Queries.exists_selected {l : Layout} {q : Query} (hq : l.Queries q) {s : Select}
    (hs : s ∈ q.branches) : ∃ condition m union c x y a o f,
      l.Selected condition m union s c x y a o f ∧
      (q.branches.getLast? = some s ∧ m = l.membership ∨
        q.branches.getLast? ≠ some s ∧ m = none) := by
  cases hq with
  | union _ hm _ hq =>
    obtain ⟨first, second, c, d, hfirst, hsecond, rfl⟩ := Layout.union_eq_ok hq
    by_cases hlast : s = second
    · obtain ⟨x, y, a, o, f, hselected⟩ := Layout.selected_of_select hsecond
      rw [hlast]
      exact ⟨_, _, _, _, _, _, _, _, _, hselected, .inl ⟨rfl, hm.symm⟩⟩
    · obtain ⟨x, y, a, o, f, hselected⟩ := Layout.selected_of_select hfirst
      obtain rfl : s = first := by
        simpa [Query.branches, hlast] using hs
      refine ⟨_, _, _, _, _, _, _, _, _, hselected, .inr ⟨?_, rfl⟩⟩
      simpa [Query.branches] using Ne.symm hlast
  | single _ hq =>
    obtain ⟨s', c, texts, hs', -, rfl⟩ := Layout.single_eq_ok hq
    obtain rfl : s = s' := by simpa [Query.branches] using hs
    obtain ⟨x, y, a, o, f, hselected⟩ := Layout.selected_of_select hs'
    exact ⟨_, _, _, _, _, _, _, _, _, hselected, .inl ⟨rfl, rfl⟩⟩

theorem Layout.mem_expansion {tested iterated expanded : Option Expansion}
    (h : Layout.expansion tested iterated = .ok expanded) {x : Expansion} :
    x ∈ expanded ↔ x ∈ tested ∨ x ∈ iterated := by
  refine ⟨Layout.Proper.expansion_cases h, ?_⟩
  rw [Layout.expansion.eq_def] at h
  split at h
  · split at h
    · rename_i heq
      cases h
      simp [heq]
    · cases h
  · cases h
    simp
  · cases h
    simp

section Iterations

variable {c : Compiler} {r : Request} {q : Query} {s : Select} {p : Parts}

theorem Request.Reads.what_eq_singleton (h : r.Reads p) {e : Expr} :
    p.what = [e] ↔ ∃ source, r.what.sources = [source] ∧ source.expr = .ok e := by
  have hread := forall₂_of_mapM h.what
  generalize r.what.sources = sources, p.what = es at hread ⊢
  constructor
  · rintro rfl
    cases hread with
    | cons hsource hnil =>
      cases hnil
      exact ⟨_, rfl, hsource⟩
  · rintro ⟨source, rfl, he⟩
    cases hread with
    | cons hsource hnil =>
      cases hnil
      rw [Except.ok.inj (he.symm.trans hsource)]

/-- A test or a comprehension has a name and an array, which is expanded under the name. -/
theorem Request.Iterates.expands {target : String} {array : Expr} {x : Expansion}
    (h : r.Iterates c q s target array) (hx : (c.layout r.table p).expand target array = .ok x) :
    x.target = target ∧ x.Expands c.tables array := by
  cases h with
  | test _ he hm =>
    have hparsed := parsed_of_expr he
    exact Layout.expands_of_expand (hparsed.membership hm).1 (chain_of_membership hparsed hm) hx
  | comprehension _ he ha =>
    exact Layout.expands_of_expand ((parsed_of_expr he).comprehension ha).target
      (chain_of_comprehension ha) hx

/-- Nothing is expanded but what the statement iterates over. -/
theorem Layout.Queries.iterates_of_mem (hreads : r.Reads p) (hq : (c.layout r.table p).Queries q)
    (hs : s ∈ q.branches) {x : Expansion} (hx : x ∈ s.source.expansion) :
    ∃ target array, r.Iterates c q s target array ∧
      (c.layout r.table p).expand target array = .ok x := by
  obtain ⟨_, m, _, _, _, _, a, _, _, hselected, hm⟩ := hq.exists_selected hs
  obtain hx | hx := (Layout.mem_expansion hselected.expansion).1 hx
  · obtain ⟨m, hmem, hx⟩ := mapM_option_eq_ok hselected.tested x hx
    obtain ⟨hlast, rfl⟩ | ⟨-, rfl⟩ := hm
    · obtain ⟨e, he, hm⟩ := Layout.membership_eq_some.1 hmem
      obtain ⟨source, hsource, hexpr⟩ := hreads.mem_condition.1 he
      exact ⟨_, _, .test hsource hexpr hm hlast, hx⟩
    · cases hmem
  · obtain ⟨a, rfl, hx⟩ := mapM_option_eq_ok hselected.iterated x hx
    obtain ⟨e, he, ha⟩ := Layout.comprehension_eq_some.1 hselected.comprehension
    obtain ⟨source, hsource, hexpr⟩ := hreads.what_eq_singleton.1 he
    exact ⟨_, _, .comprehension hsource hexpr ha, hx⟩

/-- All that a statement iterates over is expanded. -/
theorem Layout.Queries.mem_of_iterates (hreads : r.Reads p) (hq : (c.layout r.table p).Queries q)
    (hs : s ∈ q.branches) {target : String} {array : Expr} (h : r.Iterates c q s target array) :
    ∃ x ∈ s.source.expansion, (c.layout r.table p).expand target array = .ok x := by
  obtain ⟨_, m, _, _, _, _, a, _, _, hselected, hm⟩ := hq.exists_selected hs
  simp only [Layout.mem_expansion hselected.expansion]
  cases h with
  | @test source e m' hsource he hmem hlast =>
    have hwhole : e ∈ (c.layout r.table p).parts.condition :=
      hreads.mem_condition.2 ⟨source, hsource, he⟩
    obtain ⟨-, rfl⟩ | ⟨hnot, -⟩ := hm
    · have hm' := Layout.membership_eq_some.2 ⟨e, hwhole, hmem⟩
      obtain ⟨x, hx, hexpand⟩ := mem_of_mapM_option hselected.tested hm'
      exact ⟨x, .inl hx, hexpand⟩
    · exact absurd hlast hnot
  | @comprehension source e a' hsource he ha =>
    have hwhole : (c.layout r.table p).parts.what = [e] :=
      hreads.what_eq_singleton.2 ⟨source, hsource, he⟩
    have ha' := Layout.comprehension_eq_some.2 ⟨e, hwhole, ha⟩
    cases hselected.comprehension.symm.trans ha'
    obtain ⟨x, hx, hexpand⟩ := mem_of_mapM_option hselected.iterated rfl
    exact ⟨x, .inr hx, hexpand⟩

end Iterations

/-! ## Statements -/

theorem From.sql_eq (f : From) : f.sql = f.base ++
    (f.expansion.elim "" fun x => ", json_each(" ++ x.array.arguments ++ ") AS " ++ x.target) ++
    String.join (f.joins.map fun x => " INNER JOIN " ++ x.1 ++ " ON " ++
      JoinCondition.fieldOf x.2.leftTable x.2.leftLabel ++ " = " ++
      JoinCondition.fieldOf x.2.rightTable x.2.rightLabel) := by
  have hword : " " ++ JoinCondition.keyword ++ " " = " INNER JOIN " := by decide
  have hjoin : (fun x : String × JoinCondition => " " ++ x.2.sql x.1) = fun x =>
      " INNER JOIN " ++ x.1 ++ " ON " ++ JoinCondition.fieldOf x.2.leftTable x.2.leftLabel ++
        " = " ++ JoinCondition.fieldOf x.2.rightTable x.2.rightLabel := by
    funext x
    rw [JoinCondition.sql, ← hword]
    simp only [String.append_assoc]
  have hexpansion : ∀ x : Expansion, ", " ++ x.array.expansion x.target =
      ", json_each(" ++ x.array.arguments ++ ") AS " ++ x.target := by
    intro x
    have hstart : ", " ++ "json_each(" = ", json_each(" := by decide
    rw [FieldPath.expansion, ← hstart]
    simp only [String.append_assoc]
  rw [From.sql, hjoin]
  cases f.expansion with
  | none => rfl
  | some x => rw [Option.elim_some, ← hexpansion]

/-- Every statement of a query reads the base table; an array exactly if the statement iterates over
one, under the name of that iteration; and the joined tables in increasing order. The joined tables are
the known tables beside the base that some conjunct of the condition equates with another one, each
under the first conjunct that names it. -/
theorem source_compile {c : Compiler} {r : Request} {q : Query} (hq : c.compile r = .ok q)
    {s : Select} (hs : s ∈ q.branches) :
    s.source.base = r.table ∧
    (∀ target array, r.Iterates c q s target array →
      ∃ x, s.source.expansion = some x ∧ x.target = target ∧ x.Expands c.tables array) ∧
    (∀ x ∈ s.source.expansion,
      ∃ array, r.Iterates c q s x.target array ∧ x.Expands c.tables array) ∧
    s.source.joins.keys.toList.Pairwise (· < ·) ∧
    (∀ table, table ∈ s.source.joins.keys ↔
      c.tables.contains table = true ∧ table ≠ r.table ∧
        ∃ e, (∃ source ∈ r.condition, source.expr = .ok e) ∧
          ∃ j : JoinCondition, j.comparison ∈ e.conjuncts ∧ j.Equates c.tables ∧ j.Names table) ∧
    (∀ x ∈ s.source.joins, ∃ e, (∃ source ∈ r.condition, source.expr = .ok e) ∧
      x.2.IsFirst c.tables x.1 e.conjuncts) ∧
    s.source.sql = s.source.base ++
      (s.source.expansion.elim "" fun x =>
        ", json_each(" ++ x.array.arguments ++ ") AS " ++ x.target) ++
      String.join (s.source.joins.map fun x => " INNER JOIN " ++ x.1 ++ " ON " ++
        JoinCondition.fieldOf x.2.leftTable x.2.leftLabel ++ " = " ++
        JoinCondition.fieldOf x.2.rightTable x.2.rightLabel) := by
  obtain ⟨htable, parts, hparts, hq⟩ := queries_of_compile hq
  have hreads := Request.reads_of_parts hparts
  have hparsed := hreads.parsed.2.1
  obtain ⟨hbase, hjoins⟩ := hq.source s hs
  have hlayout : s.source.joins = c.joins r.table parts := hjoins
  refine ⟨hbase, fun target array h => ?_, fun x hx => ?_, s.source.joins.keys.increasing,
    fun table => ?_, fun x hx => ?_, From.sql_eq _⟩
  · obtain ⟨x, hx, hexpand⟩ := hq.mem_of_iterates hreads hs h
    exact ⟨x, hx, h.expands hexpand⟩
  · obtain ⟨target, array, h, hexpand⟩ := hq.iterates_of_mem hreads hs hx
    obtain ⟨rfl, hexpands⟩ := h.expands hexpand
    exact ⟨array, h, hexpands⟩
  · simp only [hlayout, ← hreads.mem_condition]
    exact joined_iff hparsed
  · rw [hlayout] at hx
    obtain ⟨-, e, he, hfirst⟩ := (mem_compiler_joins hparsed).1 hx
    exact ⟨e, hreads.mem_condition.1 he, hfirst⟩

theorem source_compile_two :
    let tables : Tables := ⟨.ofList ["f", "p", "q"]⟩
    ∃ (q : Query) (s : Select),
      Compiler.compile ⟨.empty, tables⟩
        ⟨"p", .document, some (.text "q.ref == f.ref and v in p.xs"), []⟩ = .ok q ∧
      s ∈ q.branches ∧
      (s.source.expansion.map (·.target), s.source.joins.keys.toList) = (some "v", ["f", "q"]) ∧
      "f" ∈ s.source.joins.keys ∧ "q" ∈ s.source.joins.keys ∧
      ∃ x, s.source.expansion = some x ∧ x.target = "v" ∧
        x.Expands tables (.attr (.name "p") "xs") := by
  intro tables
  let j : JoinCondition := ⟨"q", "ref", "f", "ref"⟩
  let test : Expr := .compare (.name "v") [.elemOf] [.attr (.name "p") "xs"]
  let r : Request := ⟨"p", .document, some (.text "q.ref == f.ref and v in p.xs"), []⟩
  have hcompile : (fun q : Query => q.branches.map fun s =>
      (s.source.expansion.map (·.target), s.source.joins.keys.toList)) <$>
      Compiler.compile ⟨.empty, tables⟩ r = .ok [(some "v", ["f", "q"])] := by cbv
  have he : Source.expr (.text "q.ref == f.ref and v in p.xs") =
      .ok (.boolean .and [j.comparison, test]) := by cbv
  have hequates : j.Equates tables :=
    ⟨by decide, by decide, by decide, .inr (.inl rfl), .inr (.inl rfl)⟩
  obtain ⟨q, hq, hsources⟩ := map_eq_ok hcompile
  obtain ⟨s, hbranches, hread⟩ := List.map_eq_singleton_iff.1 hsources
  have hs : s ∈ q.branches := by simp [hbranches]
  have hlast : q.branches.getLast? = some s := by simp [hbranches]
  have hiterates : r.Iterates ⟨.empty, tables⟩ q s "v" (.attr (.name "p") "xs") :=
    .test (m := ⟨"v", .attr (.name "p") "xs"⟩) rfl he rfl hlast
  obtain ⟨-, hexpansion, -, -, hjoined, -⟩ := source_compile hq hs
  have hnamed : ∀ table, table ≠ "p" → j.Names table → tables.contains table = true →
      table ∈ s.source.joins.keys := fun table hbase hnames hknown =>
    (hjoined table).2 ⟨hknown, hbase, _, ⟨_, rfl, he⟩, j, List.mem_cons_self, hequates, hnames⟩
  exact ⟨q, s, hq, hs, hread, hnamed "f" (by decide) (.inr rfl) (by decide),
    hnamed "q" (by decide) (.inl rfl) (by decide), hexpansion _ _ hiterates⟩

end DocQuery
