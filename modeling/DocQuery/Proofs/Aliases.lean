import DocQuery.Proofs.Branches

/-! # The aliases of ordered unions

An ordered union is read from outside by its aliases alone, and these are written in four places: on
the columns and on the sort keys of each statement, and in the columns and the order of the query
around them.

* `Projection.width`: the number of columns that a request selects.
* `Layout.Lists`: the columns and the sort keys of a statement are those of the request.
* `aliases_compile`: all four places number the same columns and the same sort keys. A union without
  an order has no aliases and no query around it.
-/

set_option autoImplicit false

namespace DocQuery

open Sql

/-! ## Select lists -/

/-- Texts under a name, each with its place. -/
def numbered (name : String) (texts : List String) : List String :=
  texts.mapIdx fun i text => text ++ " AS " ++ (name ++ toString i)

/-- The text of a statement with the given select list. -/
def Select.listing (s : Select) (items : List String) : String :=
  "SELECT " ++ commaJoined items ++ " FROM " ++ s.source.sql ++
    s.predicate.elim "" (" WHERE " ++ ·)

theorem aliased_eq_mapIdx (label : Nat → String) (i : Nat) (ts : List String) :
    aliased label i ts = ts.mapIdx fun j t => t ++ " AS " ++ label (j + i) := by
  induction ts generalizing i with
  | nil => rfl
  | cons t ts ih =>
    rw [aliased, ih, List.mapIdx_cons, Nat.zero_add]
    simp only [Nat.add_assoc, Nat.add_comm i 1]

theorem aliased_columnAlias (ts : List String) : aliased columnAlias 0 ts = numbered "_col_" ts :=
  aliased_eq_mapIdx columnAlias 0 ts

theorem aliased_orderAlias (ts : List String) : aliased orderAlias 0 ts = numbered "_order_" ts :=
  aliased_eq_mapIdx orderAlias 0 ts

theorem commaJoined_append {ss : List String} (h : ss ≠ []) (ts : List String) :
    commaJoined (ss ++ ts) = commaJoined ss ++ String.join (ts.map (", " ++ ·)) := by
  induction ts generalizing ss with
  | nil => simp
  | cons t ts ih =>
    have hlast : commaJoined (ss ++ [t]) = commaJoined ss ++ (", " ++ t) := by
      unfold commaJoined
      rw [String.intercalate_append_of_ne_nil h (by simp), String.intercalate_singleton,
        String.append_assoc]
    rw [List.append_cons, ih (by simp), hlast, List.map_cons, String.join_cons, String.append_assoc]

theorem Select.sql_of_ordering_nil {s : Select} (h : s.ordering = []) :
    s.sql = s.listing s.columns := by
  unfold Select.sql Select.projection Select.listing
  rw [h]
  cases s.predicate <;> simp [aliased]

theorem Select.sql_of_ordering_ne_nil {s : Select} (hordering : s.ordering ≠ [])
    (hcolumns : s.columns ≠ []) :
    s.sql = s.listing (numbered "_col_" s.columns ++ numbered "_order_" s.ordering) := by
  have hne : numbered "_col_" s.columns ≠ [] := by simpa [numbered] using hcolumns
  unfold Select.sql Select.projection Select.listing
  rw [if_neg (by simpa using hordering), aliased_columnAlias, aliased_orderAlias,
    commaJoined_append hne]
  cases s.predicate <;> simp [String.append_assoc]

/-! ## Columns and sort keys of a request -/

/-- The number of columns that are selected. -/
def Projection.width : Projection → Nat
  | document => 1
  | one _ => 1
  | many sources => sources.length

/-- The expressions of a request are as many as it has columns, and its sort keys keep their
directions. -/
structure Request.Counts (r : Request) (p : Parts) : Prop where
  what : if p.document then p.what = [] ∧ r.what.width = 1 else p.what.length = r.what.width
  order : p.order.map (·.2) = r.order.map (·.descending)

theorem directions_of_mapM {keys : List SortKey} {order : List (Expr × Bool)}
    (h : keys.mapM (fun o => do pure (← o.source.expr, o.descending)) = .ok order) :
    order.map (·.2) = keys.map (·.descending) := by
  have hall := forall₂_of_mapM h
  clear h
  induction hall with
  | nil => rfl
  | cons hkey _ ih =>
    obtain ⟨e, -, hkey⟩ := bind_eq_ok hkey
    cases hkey
    rw [List.map_cons, List.map_cons, ih]

theorem Request.counts_of_parts {r : Request} {p : Parts} (h : r.parts = .ok p) : r.Counts p := by
  obtain ⟨table, what, condition, order⟩ := r
  cases what with
  | document =>
    obtain ⟨es, hes, h⟩ := bind_eq_ok h
    obtain ⟨condition, -, h⟩ := bind_eq_ok h
    obtain ⟨order, horder, h⟩ := bind_eq_ok h
    cases hes
    cases h
    exact ⟨⟨rfl, rfl⟩, directions_of_mapM horder⟩
  | one source =>
    obtain ⟨e, -, h⟩ := bind_eq_ok h
    obtain ⟨es, hes, h⟩ := bind_eq_ok h
    obtain ⟨condition, -, h⟩ := bind_eq_ok h
    obtain ⟨order, horder, h⟩ := bind_eq_ok h
    cases hes
    cases h
    exact ⟨rfl, directions_of_mapM horder⟩
  | many sources =>
    obtain ⟨es, hes, h⟩ := bind_eq_ok h
    obtain ⟨condition, -, h⟩ := bind_eq_ok h
    obtain ⟨order, horder, h⟩ := bind_eq_ok h
    cases h
    exact ⟨(forall₂_of_mapM hes).length_eq.symm, directions_of_mapM horder⟩

namespace Layout

variable {l : Layout}

/-- The columns and the sort keys of a statement of a union are those of the request, compiled in the
context of the statement. -/
structure Lists (l : Layout) (m : Option Membership) (s : Select) : Prop where
  columns : ∃ a, l.comprehension? = .ok a ∧
    if l.parts.document then s.columns = [(l.inner m s.source.expansion.isSome true).document]
    else List.Forall₂ (fun e text => (l.inner m s.source.expansion.isSome true).compile e = .ok text)
      (l.parts.columns a) s.columns
  ordering : List.Forall₂ (fun o text => ∃ key,
      (l.inner m s.source.expansion.isSome true).compile o.1 = .ok key ∧
      text = if key = documentColumn ∧ !l.joins.isEmpty then l.base ++ "." ++ documentColumn else key)
    l.parts.order s.ordering

theorem lists_of_select {condition : Option Expr} {m : Option Membership} {s : Select} {c : Context}
    (h : l.select condition m true = .ok (s, c)) : l.Lists m s := by
  have hordering := orderTexts_of_select h
  obtain ⟨x, y, a, p, q, hs⟩ := selected_of_select h
  have hcolumns := hs.columns
  rw [hs.context] at hordering hcolumns
  refine ⟨⟨a, hs.comprehension, ?_⟩, ?_⟩
  · split
    · rename_i hdocument
      unfold Layout.columns at hcolumns
      rw [if_pos hdocument] at hcolumns
      exact (Except.ok.inj hcolumns).symm
    · rename_i hdocument
      have hall := compileAll_of_columns (Bool.eq_false_iff.2 hdocument) hcolumns
      rw [← mapM_compile] at hall
      exact forall₂_of_mapM hall
  · refine (forall₂_of_mapM hordering).imp fun o text ho => ?_
    obtain ⟨key, hkey, ho⟩ := bind_eq_ok ho
    exact ⟨key, hkey, (Except.ok.inj ho).symm⟩

/-- A comprehension stands for one column, as it is selected alone. -/
theorem length_columns {a : Option ArrayComprehension} (h : l.comprehension? = .ok a) :
    (l.parts.columns a).length = l.parts.what.length := by
  cases a with
  | none => rfl
  | some x =>
    unfold comprehension? at h
    split at h
    · rename_i e he
      rw [he]
      rfl
    · cases h

theorem Lists.length {r : Request} (hcounts : r.Counts l.parts) {m : Option Membership} {s : Select}
    (h : l.Lists m s) : s.columns.length = r.what.width ∧ s.ordering.length = r.order.length := by
  obtain ⟨⟨a, ha, hcolumns⟩, hordering⟩ := h
  constructor
  · have hwhat := hcounts.what
    split at hcolumns
    · rename_i hdocument
      rw [if_pos hdocument] at hwhat
      rw [hcolumns, hwhat.2]
      rfl
    · rename_i hdocument
      rw [if_neg hdocument] at hwhat
      rw [← hcolumns.length_eq, length_columns ha, hwhat]
  · rw [← hordering.length_eq, ← List.length_map (·.2), hcounts.order, List.length_map]

theorem unionColumns_eq {r : Request} (hcounts : r.Counts l.parts) (horder : r.order ≠ [])
    (hwidth : r.what.width ≠ 0) :
    l.unionColumns = (List.range r.what.width).map fun i => "_col_" ++ toString i := by
  have hlength : max 1 l.parts.what.length = r.what.width := by
    have hwhat := hcounts.what
    split at hwhat
    · rw [hwhat.1, hwhat.2]
      rfl
    · omega
  have hnonempty : l.parts.order ≠ [] := by
    intro hnil
    have heq := hcounts.order
    rw [hnil] at heq
    exact horder (List.map_eq_nil_iff.1 heq.symm)
  unfold unionColumns
  rw [if_neg (by simpa using hnonempty), hlength]
  rfl

theorem map_unionOrder {r : Request} (hcounts : r.Counts l.parts) :
    l.unionOrder.map OrderTerm.sql = r.order.mapIdx fun i key =>
      "_order_" ++ toString i ++ if key.descending then " DESC" else "" := by
  have hdirections : l.directions = r.order.map (·.descending) := hcounts.order
  unfold unionOrder
  rw [hdirections, List.mapIdx_eq_zipIdx_map, List.zipIdx_map, List.map_map, List.map_map]
  apply List.map_congr_left
  rintro ⟨key, i⟩ -
  show (if key.descending then orderAlias i ++ " DESC" else orderAlias i) =
    orderAlias i ++ if key.descending then " DESC" else ""
  split
  · rfl
  · exact String.append_empty.symm

end Layout

/-! ## Compiled unions -/

namespace Query

variable {first second : Select} {columns : List String}

theorem sql_union_nil :
    (union first second columns []).sql = first.sql ++ " UNION " ++ second.sql ++ ";" := by
  simp [sql, orderText?, order, branches]

theorem sql_union {terms : List OrderTerm} (h : terms ≠ []) :
    (union first second columns terms).sql = "SELECT " ++ commaJoined columns ++ " FROM (" ++
      (first.sql ++ " UNION " ++ second.sql) ++ ") ORDER BY " ++
      commaJoined (terms.map OrderTerm.sql) ++ ";" := by
  simp [sql, orderText?, order, branches, isUnion, Query.columns, h]

end Query

/-- An ordered union with `n` columns and `k` sort keys selects `_col_0` to `_col_(n-1)` and sorts by
`_order_0` to `_order_(k-1)`, and each of its statements gives these names to its columns and its
sort keys. Without an order, the statements stand alone and have no aliases. -/
theorem aliases_compile {c : Compiler} {r : Request} {q : Query} (hq : c.compile r = .ok q)
    (hunion : q.isUnion = true) :
    ∃ (parts : Parts) (m : Membership) (first second : Select),
      r.parts = .ok parts ∧ (c.layout r.table parts).membership = some m ∧
      q.branches = [first, second] ∧
      (c.layout r.table parts).Lists none first ∧
      (c.layout r.table parts).Lists (some m) second ∧
      (∀ s ∈ q.branches,
        s.columns.length = r.what.width ∧ s.ordering.length = r.order.length) ∧
      (r.order ≠ [] → r.what.width ≠ 0 →
        q.sql = "SELECT " ++
          commaJoined ((List.range r.what.width).map fun i => "_col_" ++ toString i) ++ " FROM (" ++
          (first.sql ++ " UNION " ++ second.sql) ++ ") ORDER BY " ++
          commaJoined (r.order.mapIdx fun i key =>
            "_order_" ++ toString i ++ if key.descending then " DESC" else "") ++ ";" ∧
        ∀ s ∈ q.branches,
          s.sql = s.listing (numbered "_col_" s.columns ++ numbered "_order_" s.ordering)) ∧
      (r.order = [] →
        q.sql = first.sql ++ " UNION " ++ second.sql ++ ";" ∧
        ∀ s ∈ q.branches, s.sql = s.listing s.columns) := by
  obtain ⟨-, parts, hparts, hq⟩ := queries_of_compile hq
  have hcounts : r.Counts (c.layout r.table parts).parts := Request.counts_of_parts hparts
  cases hq with
  | single _ hq =>
    obtain ⟨s, _, _, -, -, rfl⟩ := Layout.single_eq_ok hq
    cases hunion
  | @union e without within m _ he hm hsplit hq =>
    obtain ⟨first, second, c₁, c₂, hfirst, hsecond, rfl⟩ := Layout.union_eq_ok hq
    have hlists := Layout.lists_of_select hfirst
    have hlists' := Layout.lists_of_select hsecond
    have hlength : ∀ s ∈ [first, second],
        s.columns.length = r.what.width ∧ s.ordering.length = r.order.length := by
      simpa using And.intro (hlists.length hcounts) (hlists'.length hcounts)
    have hterms := (c.layout r.table parts).map_unionOrder hcounts
    refine ⟨parts, m, first, second, hparts, hm, rfl, hlists, hlists', hlength,
      fun horder hwidth => ⟨?_, fun s hs => ?_⟩, fun horder => ⟨?_, fun s hs => ?_⟩⟩
    · have hne : (c.layout r.table parts).unionOrder ≠ [] := by
        intro hnil
        rw [hnil] at hterms
        exact horder (List.mapIdx_eq_nil_iff.1 hterms.symm)
      rw [Query.sql_union hne, hterms, Layout.unionColumns_eq hcounts horder hwidth]
    · obtain ⟨hcolumns, hordering⟩ := hlength s hs
      refine Select.sql_of_ordering_ne_nil (fun hnil => horder ?_) fun hnil => hwidth ?_
      · rw [hnil] at hordering
        exact List.length_eq_zero_iff.1 hordering.symm
      · rw [← hcolumns, hnil]
        rfl
    · rw [horder] at hterms
      rw [List.map_eq_nil_iff.1 hterms]
      exact Query.sql_union_nil
    · refine Select.sql_of_ordering_nil (List.length_eq_zero_iff.1 ?_)
      rw [(hlength s hs).2, horder]
      rfl

/-- Two columns, of which the variable of the test is read in the second statement only, and two sort
keys. -/
theorem aliases_compile_descending : ∃ (q : Query) (first second : Select),
    Compiler.compile ⟨.empty, ⟨.ofList ["person"]⟩⟩
      ⟨"person", .many [.text "v.role", .text "person.handle"],
        some (.text "person.gender == 1 or v in person.refs"),
        [⟨.text "person.change", true⟩, ⟨.text "v", false⟩]⟩ = .ok q ∧ q.isUnion = true ∧
    q.branches = [first, second] ∧
    q.sql = "SELECT " ++ "_col_0, _col_1" ++ " FROM (" ++ (first.sql ++ " UNION " ++ second.sql) ++
      ") ORDER BY " ++ "_order_0 DESC, _order_1" ++ ";" := by
  have hunion : Query.isUnion <$> Compiler.compile ⟨.empty, ⟨.ofList ["person"]⟩⟩
      ⟨"person", .many [.text "v.role", .text "person.handle"],
        some (.text "person.gender == 1 or v in person.refs"),
        [⟨.text "person.change", true⟩, ⟨.text "v", false⟩]⟩ = .ok true := by cbv
  obtain ⟨q, hq, hunion⟩ := map_eq_ok hunion
  obtain ⟨_, _, first, second, -, -, hbranches, -, -, -, hsql, -⟩ := aliases_compile hq hunion
  refine ⟨q, first, second, hq, hunion, hbranches, ?_⟩
  exact (hsql (by simp) (by decide)).1.trans (by rfl)

end DocQuery
