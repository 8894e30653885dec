import DocQuery.Proofs.Joins
import DocQuery.Proofs.Values
import DocQuery.Query.Compile

/-! # Statements hold nothing else

The text of a compiled query is one statement: what requests hold stays inside strings, names and
parentheses of it, whatever texts or traces they are given as.

* `Parsed.membership`, `Parsed.comprehension`, `Parsed.withoutJoins`: what is taken from a tree of
  the grammar is such a tree again.
* `Layout.Selected`, `Layout.Queries`: how a statement and a query come about.
* `Select.Proper`, `Query.Proper`: the texts in a statement are fragments.
* `isStatement_compile`: the text of a compiled query is one statement.
-/

set_option autoImplicit false

namespace DocQuery

open Sql Token

/-! ## What is taken from an expression -/

theorem parsed_ofOperands {op : BoolOp} {es : List Expr} {e : Expr} (h : ∀ e ∈ es, Parsed e)
    (he : Expr.ofOperands? op es = some e) : Parsed e := by
  match es with
  | [] => cases he
  | [_] =>
    cases he
    exact h e List.mem_cons_self
  | x :: y :: others =>
    cases he
    exact .boolean op x y others h

theorem Parsed.withoutJoins {tables : Tables} {used : List JoinCondition} {e e' : Expr}
    (h : Parsed e) (he : e.withoutJoins? tables used = some e') : Parsed e' := by
  rw [Expr.withoutJoins?.eq_def] at he
  split at he
  · exact parsed_ofOperands (fun x hx => h.operands x (List.mem_filter.1 hx).1) he
  · split at he
    · cases he
    · cases he
      exact h

theorem withoutJoins_nil {tables : Tables} {e : Expr} (h : Parsed e) :
    e.withoutJoins? tables [] = some e := by
  have hused : ∀ x, Expr.isUsed tables [] x = false := by
    intro x
    cases hx : x.joinCondition? tables <;> simp [Expr.isUsed, hx]
  rw [Expr.withoutJoins?.eq_def]
  split
  · rename_i operands
    have hall : operands.filter (!Expr.isUsed tables [] ·) = operands := by
      simp [hused]
    rw [hall]
    cases h with
    | boolean => rfl
  · simp [hused]

theorem Parsed.split {m : Membership} {e without within : Expr} (h : Parsed e)
    (he : m.split? e = some (without, within)) : Parsed without ∧ Parsed within := by
  rw [Membership.split?.eq_def] at he
  split at he
  · obtain ⟨a, ha, he⟩ := Option.bind_eq_some_iff.1 he
    obtain ⟨b, hb, he⟩ := Option.bind_eq_some_iff.1 he
    cases he
    exact ⟨parsed_ofOperands (fun x hx => h.operands x (List.mem_filter.1 hx).1) ha,
      parsed_ofOperands (fun x hx => h.operands x (List.mem_filter.1 hx).1) hb⟩
  · cases he

/-- A membership test is about a name and a tree of the grammar. -/
def Membership.Proper (m : Membership) : Prop := IsName m.target ∧ Parsed m.array

theorem Parsed.comparison {left : Expr} {ops : List CmpOp} {operands : List Expr}
    (h : Parsed (.compare left ops operands)) : Parsed left ∧ ∀ e ∈ operands, Parsed e := by
  cases h with
  | compare hleft links _ operands =>
    refine ⟨hleft, fun e he => ?_⟩
    obtain ⟨l, hl, rfl⟩ := List.mem_map.1 he
    exact operands l hl

theorem Parsed.asMembership {base : String} {scope : Scope} {e : Expr} {m : Membership}
    (h : Parsed e) (hm : e.asMembership? base scope = some m) : m.Proper := by
  rw [Expr.asMembership?] at hm
  split at hm
  · rename_i id array hparts
    rw [Expr.membershipParts?.eq_def] at hparts
    split at hparts
    · split at hparts
      · cases hparts
        split at hm
        · cases hm
          obtain ⟨hleft, hoperands⟩ := h.comparison
          cases hleft with
          | name hname => exact ⟨hname, hoperands _ List.mem_cons_self⟩
        · cases hm
      · cases hparts
    · cases hparts
  · cases hm

theorem Parsed.membership {base : String} {scope : Scope} {e : Expr} {m : Membership}
    (h : Parsed e) (hm : e.membership? base scope = some m) : m.Proper := by
  obtain ⟨x, hx, hm⟩ := h.atom_of_membership hm
  exact (h.atom hx).asMembership hm

/-- A comprehension that is selected is about a name and trees of the grammar. -/
structure ArrayComprehension.Proper (x : ArrayComprehension) : Prop where
  target : IsName x.target
  array : Parsed x.array
  element : Parsed x.element
  condition : ∀ e ∈ x.condition, Parsed e

theorem Parsed.comprehensionParts {e element : Expr} {clauses : List (Clause Expr)} (h : Parsed e)
    (he : e.comprehensionParts? = some (element, clauses)) :
    Parsed element ∧ ∀ c ∈ clauses,
      IsName c.target ∧ Parsed c.source ∧ ∀ e ∈ c.conditions, Parsed e := by
  cases h with
  | listComp helement clauses _ targets sources conditions =>
    cases he
    exact ⟨helement, fun c hc => ⟨targets c hc, sources c hc, conditions c hc⟩⟩
  | generator helement clauses _ targets sources conditions =>
    cases he
    exact ⟨helement, fun c hc => ⟨targets c hc, sources c hc, conditions c hc⟩⟩
  | _ => cases he

theorem Parsed.comprehension {e : Expr} {x : ArrayComprehension} (h : Parsed e)
    (hx : e.comprehension? = .ok (some x)) : x.Proper := by
  rw [Expr.comprehension?] at hx
  split at hx
  · cases hx
  · rename_i hparts
    split at hx
    · cases hx
      obtain ⟨helement, hclauses⟩ := h.comprehensionParts hparts
      obtain ⟨htarget, hsource, hconditions⟩ := hclauses _ List.mem_cons_self
      exact ⟨htarget, hsource, helement, fun e he => parsed_ofOperands hconditions he⟩
    · cases hx
  · cases hx

/-! ## Joins -/

/-- The table that is joined and the two tables of the condition are words. -/
structure JoinProper (j : String × JoinCondition) : Prop where
  table : IsWord j.1
  left : IsWord j.2.leftTable
  right : IsWord j.2.rightTable

/-- All tables have identifiers for names. -/
def Tables.Named (t : Tables) : Prop := ∀ name ∈ t.names, IsIdentifier name.toList

theorem Tables.Named.isWord {t : Tables} {name : String} (h : t.Named)
    (hname : t.contains name = true) : IsWord name :=
  isWord_of_isIdentifier (h name (NameSet.contains_eq_true.1 hname))

theorem contains_of_joinCondition {t : Tables} {e : Expr} {j : JoinCondition}
    (h : e.joinCondition? t = some j) :
    t.contains j.leftTable = true ∧ t.contains j.rightTable = true := by
  rw [Expr.joinCondition?.eq_def] at h
  split at h
  · obtain ⟨⟨leftTable, leftLabel⟩, hleft, h⟩ := Option.bind_eq_some_iff.1 h
    obtain ⟨⟨rightTable, rightLabel⟩, hright, h⟩ := Option.bind_eq_some_iff.1 h
    dsimp only at h
    split at h
    · cases h
      exact ⟨(tableField_eq_some_iff.1 hleft).2, (tableField_eq_some_iff.1 hright).2⟩
    · cases h
  · cases h

theorem mem_foldl_referenced {c : Compiler} {base table : String} {es : List Expr}
    {found : NameSet} :
    table ∈ es.foldl (fun found e => found.union (e.referencedTables base c.tables)) found ↔
      table ∈ found ∨ ∃ e ∈ es, table ∈ e.referencedTables base c.tables := by
  induction es generalizing found with
  | nil => simp
  | cons e es ih => simp [ih, NameSet.mem_union, or_assoc]

theorem mem_referenced {c : Compiler} {base table : String} {p : Parts} :
    table ∈ c.referenced base p ↔
      ∃ e ∈ p.condition.toList ++ p.what, table ∈ e.referencedTables base c.tables := by
  rw [Compiler.referenced, mem_foldl_referenced]
  simp

theorem contains_of_referenced {c : Compiler} {base name : String} {p : Parts}
    (h : name ∈ c.referenced base p) : c.tables.contains name = true := by
  obtain ⟨e, -, he⟩ := mem_referenced.1 h
  exact (mem_referencedTables.1 he).2.1

theorem proper_joins {c : Compiler} (hc : c.tables.Named) {base : String} {p : Parts} :
    ∀ j ∈ c.joins base p, JoinProper j := by
  intro j hj
  rw [Compiler.joins] at hj
  split at hj
  · obtain ⟨htable, hfind⟩ := mem_joins.1 hj
    obtain ⟨e, -, he⟩ := List.mem_filterMap.1 (List.mem_of_find?_eq_some hfind)
    obtain ⟨hleft, hright⟩ := contains_of_joinCondition he
    exact ⟨hc.isWord (contains_of_referenced htable), hc.isWord hleft, hc.isWord hright⟩
  · exact absurd hj (OrderedMap.not_mem_empty j)

/-! ## Texts of statements -/

/-- The texts in the tables of a statement are fragments. -/
structure From.Proper (f : From) : Prop where
  base : IsWord f.base
  expansion : ∀ x ∈ f.expansion, Fragment x.array.root.document ∧ IsWord x.target
  joins : ∀ j ∈ f.joins, JoinProper j

/-- The texts in a statement are fragments. -/
structure Select.Proper (s : Select) : Prop where
  columns : ∀ t ∈ s.columns, Fragment t
  source : s.source.Proper
  predicate : ∀ p ∈ s.predicate, Fragment p
  ordering : ∀ t ∈ s.ordering, Fragment t

/-- The texts in a query are fragments. -/
structure Query.Proper (q : Query) : Prop where
  branches : ∀ s ∈ q.branches, s.Proper
  columns : ∀ t ∈ q.columns, Fragment t
  order : ∀ t ∈ q.order, Fragment t.text

theorem fragment_fieldOf {table : String} (h : IsWord table) (label : String) :
    Fragment (JoinCondition.fieldOf table label) :=
  FieldPath.fragment_field (Root.fragment_table h true)

theorem JoinProper.fragment {j : String × JoinCondition} (h : JoinProper j) :
    Fragment (j.2.sql j.1) := by
  have hleft := fragment_fieldOf h.left j.2.leftLabel
  have hright := fragment_fieldOf h.right j.2.rightLabel
  unfold JoinCondition.sql
  exact .ofParts [.word JoinCondition.keyword, .word " ", .hole j.1, .word " ON ",
    .hole (JoinCondition.fieldOf j.2.leftTable j.2.leftLabel), .word " = ",
    .hole (JoinCondition.fieldOf j.2.rightTable j.2.rightLabel)] (by simp [Part.text]) rfl
    (by simp [h.table.fragment, hleft, hright])

theorem From.Proper.fragment {f : From} (h : f.Proper) : Fragment f.sql := by
  have hjoins : Fragment (String.join (f.joins.map fun j => " " ++ j.2.sql j.1)) := by
    refine fragment_join fun t ht => ?_
    obtain ⟨j, hj, rfl⟩ := OrderedMap.mem_map.1 ht
    exact .append (fun _ => rfl) (h.joins j hj).fragment
  unfold From.sql
  refine .append (h.base.fragment.append ?_) hjoins
  split
  · rename_i x hx
    obtain ⟨harray, htarget⟩ := h.expansion x hx
    exact .append (fun _ => rfl) (FieldPath.fragment_expansion harray htarget.fragment)
  · exact fragment_empty

theorem fragment_nat (i : Nat) : Fragment (toString i) := fragment_int i

theorem fragment_columnAlias (i : Nat) : Fragment (columnAlias i) :=
  .append (fun _ => rfl) (fragment_nat i)

theorem fragment_orderAlias (i : Nat) : Fragment (orderAlias i) :=
  .append (fun _ => rfl) (fragment_nat i)

theorem fragment_aliased {label : Nat → String} (hlabel : ∀ i, Fragment (label i))
    {ts : List String} (h : ∀ t ∈ ts, Fragment t) (i : Nat) :
    ∀ t ∈ aliased label i ts, Fragment t := by
  induction ts generalizing i with
  | nil => simp [aliased]
  | cons t ts ih =>
    have hfirst : Fragment (t ++ " AS " ++ label i) :=
      ((h t List.mem_cons_self).append fun _ => rfl).append (hlabel i)
    simpa [aliased, hfirst] using ih (fun u hu => h u (List.mem_cons_of_mem _ hu)) (i + 1)

theorem Select.Proper.fragment {s : Select} (h : s.Proper) : Fragment s.sql := by
  have hprojection : Fragment s.projection := by
    refine fragment_commaJoined ?_
    split
    · exact h.columns
    · exact fragment_aliased fragment_columnAlias h.columns 0
  have hordering : Fragment (String.join ((aliased orderAlias 0 s.ordering).map (", " ++ ·))) := by
    refine fragment_join fun t ht => ?_
    obtain ⟨u, hu, rfl⟩ := List.mem_map.1 ht
    exact .append (fun _ => rfl) (fragment_aliased fragment_orderAlias h.ordering 0 u hu)
  unfold Select.sql
  refine ((((Fragment.append (fun _ => rfl) hprojection).append hordering).append
    fun _ => rfl).append h.source.fragment).append ?_
  split
  · rename_i condition hc
    exact .append (fun _ => rfl) (h.predicate condition hc)
  · exact fragment_empty

theorem OrderTerm.fragment {t : OrderTerm} (h : Fragment t.text) : Fragment t.sql := by
  unfold OrderTerm.sql
  split
  · exact h.append fun _ => rfl
  · exact h

/-- The text of a query is a fragment and a semicolon. -/
theorem Query.Proper.fragment {q : Query} (h : q.Proper) :
    ∃ body, q.sql = body ++ ";" ∧ Fragment body := by
  have hstatements : Fragment (" UNION ".intercalate (q.branches.map Select.sql)) := by
    refine fragment_intercalate (fun _ => rfl) fun t ht => ?_
    obtain ⟨s, hs, rfl⟩ := List.mem_map.1 ht
    exact (h.branches s hs).fragment
  have horder : ∀ order ∈ q.orderText?, Fragment order := by
    intro order ho
    rw [Query.orderText?] at ho
    split at ho
    · cases ho
    · cases ho
      refine fragment_commaJoined fun t ht => ?_
      obtain ⟨u, hu, rfl⟩ := List.mem_map.1 ht
      exact OrderTerm.fragment (h.order u hu)
  unfold Query.sql
  dsimp only
  split
  · exact ⟨_, rfl, hstatements⟩
  · rename_i order ho
    split
    · exact ⟨_, rfl, .ofParts [.word "SELECT ", .hole (commaJoined q.columns), .word " FROM (",
        .hole (" UNION ".intercalate (q.branches.map Select.sql)), .word ") ORDER BY ", .hole order]
        (by simp [Part.text]) rfl
        (by simp [fragment_commaJoined h.columns, hstatements, horder order ho])⟩
    · exact ⟨_, rfl, (hstatements.append fun _ => rfl).append (horder order ho)⟩

/-! ## Requests -/

theorem fragment_predicate {c : Context} {e : Expr} (h : Compiles e) {sql : String}
    (hs : c.predicate e = .ok (some sql)) : Fragment sql := by
  obtain ⟨v, hv, hs⟩ := bind_eq_ok hs
  exact Context.fragment_sqlOf (h.eval c v hv) (sqlOf_of_conditionOf hs)

/-- How a statement comes about: the arrays of the membership test and of the comprehension, and the
conditions of the request and of the comprehension. -/
structure Layout.Selected (l : Layout) (condition : Option Expr) (m : Option Membership)
    (union : Bool) (s : Select) (c : Context) (x y : Option Expansion)
    (a : Option ArrayComprehension) (p q : Option (Option String)) : Prop where
  tested : m.mapM (fun m => l.expand m.target m.array) = .ok x
  comprehension : l.comprehension? = .ok a
  iterated : a.mapM (fun a => l.expand a.target a.array) = .ok y
  expansion : Layout.expansion x y = .ok s.source.expansion
  context : c = l.inner m s.source.expansion.isSome union
  base : s.source.base = l.base
  joins : s.source.joins = l.joins
  columns : l.columns c a = .ok s.columns
  ordering : s.ordering = [] ∨ l.orderTexts c = .ok s.ordering
  own : condition.mapM c.predicate = .ok p
  filter : (a.bind (·.condition)).mapM c.predicate = .ok q
  predicate : s.predicate = Layout.both p.join q.join

theorem Layout.selected_of_select {l : Layout} {condition : Option Expr} {m : Option Membership}
    {union : Bool} {s : Select} {c : Context} (hs : l.select condition m union = .ok (s, c)) :
    ∃ tested iterated comprehension own filter,
      l.Selected condition m union s c tested iterated comprehension own filter := by
  obtain ⟨tested, htested, hs⟩ := bind_eq_ok hs
  obtain ⟨comprehension, hcomprehension, hs⟩ := bind_eq_ok hs
  obtain ⟨iterated, hiterated, hs⟩ := bind_eq_ok hs
  obtain ⟨expanded, hexpanded, hs⟩ := bind_eq_ok hs
  obtain ⟨columns, hcolumns, hs⟩ := bind_eq_ok hs
  obtain ⟨ordering, hordering, hs⟩ : ∃ ordering : List String,
      (ordering = [] ∨ l.orderTexts (l.inner m expanded.isSome union) = .ok ordering) ∧ (do
      let own ← condition.mapM (l.inner m expanded.isSome union).predicate
      let filter ← (comprehension.bind (·.condition)).mapM
        (l.inner m expanded.isSome union).predicate
      return ((⟨columns, ⟨l.base, expanded, l.joins⟩, Layout.both own.join filter.join, ordering⟩ :
        Select), l.inner m expanded.isSome union)) = .ok (s, c) := by
    dsimp only at hs
    split at hs
    · obtain ⟨ordering, hordering, hs⟩ := bind_eq_ok hs
      exact ⟨ordering, .inr hordering, hs⟩
    · exact ⟨[], .inl rfl, hs⟩
  obtain ⟨own, hown, hs⟩ := bind_eq_ok hs
  obtain ⟨filter, hfilter, hs⟩ := bind_eq_ok hs
  cases hs
  exact ⟨tested, iterated, comprehension, own, filter, htested, hcomprehension, hiterated,
    hexpanded, rfl, rfl, rfl, hcolumns, hordering, hown, hfilter, rfl⟩

theorem Layout.union_eq_ok {l : Layout} {m : Membership} {without within : Expr} {q : Query}
    (h : l.union m without within = .ok q) : ∃ first second c d,
    l.select (some without) none true = .ok (first, c) ∧
    l.select (some within) (some m) true = .ok (second, d) ∧
    q = .union first second l.unionColumns l.unionOrder := by
  obtain ⟨⟨first, c⟩, hfirst, h⟩ := bind_eq_ok h
  obtain ⟨⟨second, d⟩, hsecond, h⟩ := bind_eq_ok h
  cases h
  exact ⟨first, second, c, d, hfirst, hsecond, rfl⟩

theorem Layout.single_eq_ok {l : Layout} {condition : Option Expr} {m : Option Membership}
    {q : Query} (h : l.single condition m = .ok q) : ∃ s c texts,
    l.select condition m false = .ok (s, c) ∧ l.orderTexts c = .ok texts ∧
    q = .single s ((texts.zip l.directions).map fun t => ⟨t.1, t.2⟩) := by
  obtain ⟨⟨s, c⟩, hs, h⟩ := bind_eq_ok h
  obtain ⟨texts, htexts, h⟩ := bind_eq_ok h
  cases h
  exact ⟨s, c, texts, hs, htexts, rfl⟩

/-- The names in a layout are words, its expressions are trees of the grammar. -/
structure Layout.Proper (l : Layout) : Prop where
  base : IsWord l.base
  what : ∀ e ∈ l.parts.what, Parsed e
  order : ∀ o ∈ l.parts.order, Parsed o.1
  joins : ∀ j ∈ l.joins, JoinProper j

namespace Layout.Proper

variable {l : Layout}

theorem comprehension (h : l.Proper) {x : ArrayComprehension}
    (hx : l.comprehension? = .ok (some x)) : x.Proper := by
  rw [Layout.comprehension?] at hx
  split at hx
  · rename_i e he
    exact (h.what e (by simp [he])).comprehension hx
  · cases hx

theorem expand {target : String} {array : Expr} {x : Expansion} (ht : IsName target)
    (ha : Parsed array) (hx : l.expand target array = .ok x) :
    Fragment x.array.root.document ∧ IsWord x.target := by
  obtain ⟨p, hp, hx⟩ := bind_eq_ok hx
  cases hx
  exact ⟨Context.fragment_fieldPath ha.compiles hp, isWord_of_isIdentifier ht.1⟩

theorem columns (h : l.Proper) {c : Context} (hc : IsWord c.base)
    {comprehension : Option ArrayComprehension} (hcomp : ∀ x ∈ comprehension, x.Proper)
    {texts : List String} (ht : l.columns c comprehension = .ok texts) :
    ∀ t ∈ texts, Fragment t := by
  unfold Layout.columns at ht
  split at ht
  · cases ht
    intro t ht
    cases List.mem_singleton.1 ht
    exact Root.fragment_table hc c.qualify
  · split at ht
    · rename_i x
      obtain ⟨t, hx, ht⟩ := bind_eq_ok ht
      cases ht
      simpa using Context.fragment_compile (hcomp x rfl).element.compiles hx
    · intro t hmem
      obtain ⟨e, he, hs⟩ := mapM_list_eq_ok ht t hmem
      exact Context.fragment_compile (h.what e he).compiles hs

theorem orderTexts (h : l.Proper) {c : Context} {texts : List String}
    (ht : l.orderTexts c = .ok texts) : ∀ t ∈ texts, Fragment t := by
  intro t hmem
  obtain ⟨o, ho, hs⟩ := mapM_list_eq_ok ht t hmem
  obtain ⟨text, htext, hs⟩ := bind_eq_ok hs
  cases hs
  split
  · exact .append (h.base.fragment.append fun _ => rfl) fun _ => rfl
  · exact Context.fragment_compile (h.order o ho).compiles htext

/-- The condition of a statement is made of those of the request and of the comprehension. -/
theorem both {a b : Option String} (ha : ∀ s ∈ a, Fragment s) (hb : ∀ s ∈ b, Fragment s) :
    ∀ s ∈ Layout.both a b, Fragment s := by
  match a, b with
  | some x, some y =>
    rintro _ ⟨⟩
    exact .ofParts [.word "(", .hole x, .word " AND ", .hole y, .word ")"] (by simp [Part.text]) rfl
      (by simp [ha x rfl, hb y rfl])
  | some x, none => exact ha
  | none, b => exact hb

theorem fragment_join_predicate {c : Context} {condition : Option Expr}
    (h : ∀ e ∈ condition, Parsed e) {p : Option (Option String)}
    (hp : condition.mapM c.predicate = .ok p) : ∀ s ∈ p.join, Fragment s := by
  intro s hs
  obtain ⟨e, he, hpred⟩ := mapM_option_eq_ok hp _ (Option.join_eq_some_iff.1 hs)
  exact fragment_predicate (h e he).compiles hpred

theorem expansion_cases {tested iterated expanded : Option Expansion}
    (h : Layout.expansion tested iterated = .ok expanded) {x : Expansion} (hx : x ∈ expanded) :
    x ∈ tested ∨ x ∈ iterated := by
  rw [Layout.expansion.eq_def] at h
  split at h
  · split at h
    · cases h
      exact .inl hx
    · cases h
  · cases h
    exact .inl hx
  · cases h
    exact .inr hx

theorem select (h : l.Proper) {condition : Option Expr} (hcondition : ∀ e ∈ condition, Parsed e)
    {m : Option Membership} (hm : ∀ x ∈ m, x.Proper) {union : Bool} {s : Select} {c : Context}
    (hs : l.select condition m union = .ok (s, c)) : s.Proper := by
  obtain ⟨tested, iterated, comprehension, own, filter, hs⟩ := Layout.selected_of_select hs
  have hcomprehension : ∀ x ∈ comprehension, x.Proper := by
    rintro x rfl
    exact h.comprehension hs.comprehension
  have htested : ∀ x ∈ tested, Fragment x.array.root.document ∧ IsWord x.target := by
    intro x hx
    obtain ⟨y, hy, hxy⟩ := mapM_option_eq_ok hs.tested x hx
    exact expand (hm y hy).1 (hm y hy).2 hxy
  have hiterated : ∀ x ∈ iterated, Fragment x.array.root.document ∧ IsWord x.target := by
    intro x hx
    obtain ⟨y, hy, hxy⟩ := mapM_option_eq_ok hs.iterated x hx
    exact expand (hcomprehension y hy).target (hcomprehension y hy).array hxy
  have hexpansion : ∀ x ∈ s.source.expansion, Fragment x.array.root.document ∧ IsWord x.target := by
    intro x hx
    obtain hx | hx := expansion_cases hs.expansion hx
    · exact htested x hx
    · exact hiterated x hx
  have hfilter : ∀ e ∈ comprehension.bind (·.condition), Parsed e := by
    intro e he
    obtain ⟨x, hx, he⟩ := Option.bind_eq_some_iff.1 he
    exact (hcomprehension x hx).condition e he
  have hbase : IsWord c.base := by
    rw [hs.context]
    exact h.base
  refine ⟨h.columns hbase hcomprehension hs.columns, ⟨?_, hexpansion, ?_⟩, ?_, ?_⟩
  · rw [hs.base]
    exact h.base
  · rw [hs.joins]
    exact h.joins
  · rw [hs.predicate]
    exact both (fragment_join_predicate hcondition hs.own)
      (fragment_join_predicate hfilter hs.filter)
  · obtain hnone | hordering := hs.ordering
    · rw [hnone]
      exact nofun
    · exact h.orderTexts hordering

theorem single (h : l.Proper) {condition : Option Expr} (hcondition : ∀ e ∈ condition, Parsed e)
    {m : Option Membership} (hm : ∀ x ∈ m, x.Proper) {q : Query}
    (hq : l.single condition m = .ok q) : q.Proper := by
  obtain ⟨s, c, texts, hs, htexts, rfl⟩ := Layout.single_eq_ok hq
  refine ⟨by simpa [Query.branches] using h.select hcondition hm hs, nofun, fun t ht => ?_⟩
  obtain ⟨⟨text, descending⟩, hmem, rfl⟩ := List.mem_map.1 ht
  exact h.orderTexts htexts text (List.of_mem_zip hmem).1

theorem union (h : l.Proper) {m : Membership} (hm : m.Proper) {without within : Expr}
    (hwithout : Parsed without) (hwithin : Parsed within) {q : Query}
    (hq : l.union m without within = .ok q) : q.Proper := by
  obtain ⟨first, second, c, d, hfirst, hsecond, rfl⟩ := Layout.union_eq_ok hq
  have hfirstProper := h.select (fun e he => Option.some.inj he ▸ hwithout) (by simp) hfirst
  have hsecondProper := h.select (fun e he => Option.some.inj he ▸ hwithin)
    (fun x hx => Option.some.inj hx ▸ hm) hsecond
  refine ⟨by simpa [Query.branches] using ⟨hfirstProper, hsecondProper⟩, fun t ht => ?_,
    fun t ht => ?_⟩
  · replace ht : t ∈ l.unionColumns := ht
    rw [Layout.unionColumns] at ht
    split at ht
    · cases ht
    · obtain ⟨i, -, rfl⟩ := List.mem_map.1 ht
      exact fragment_columnAlias i
  · obtain ⟨d, -, rfl⟩ := List.mem_map.1 ht
    exact fragment_orderAlias d.2

end Layout.Proper

/-- The sources of what is selected. -/
def Projection.sources : Projection → List Source
  | document => []
  | one source => [source]
  | many sources => sources

/-- How the expressions of a request come about. -/
structure Request.Reads (r : Request) (p : Parts) : Prop where
  what : r.what.sources.mapM Source.expr = .ok p.what
  document : p.document = true ↔ r.what = .document
  condition : r.condition.mapM Source.expr = .ok p.condition
  order : r.order.mapM (fun o => do pure (← o.source.expr, o.descending)) = .ok p.order

theorem Request.reads_of_parts {r : Request} {p : Parts} (h : r.parts = .ok p) : r.Reads p := by
  obtain ⟨table, what, condition, order⟩ := r
  obtain ⟨es, hes, document, hdocument, h⟩ : ∃ es : List Expr,
      what.sources.mapM Source.expr = .ok es ∧
      ∃ document, (document = true ↔ what = .document) ∧ (do
      let condition ← condition.mapM Source.expr
      let order ← order.mapM fun (o : SortKey) => do pure (← o.source.expr, o.descending)
      return (⟨es, document, condition, order⟩ : Parts)) = .ok p := by
    cases what with
    | document => exact ⟨[], rfl, true, by simp, h⟩
    | one source =>
      obtain ⟨e, he, h⟩ := bind_eq_ok h
      exact ⟨[e], by simp [Projection.sources, he], false, by simp, h⟩
    | many sources =>
      obtain ⟨es, hes, h⟩ := bind_eq_ok h
      exact ⟨es, hes, false, by simp, h⟩
  obtain ⟨condition', hcondition, h⟩ := bind_eq_ok h
  obtain ⟨order', horder, h⟩ := bind_eq_ok h
  cases h
  exact ⟨hes, hdocument, hcondition, horder⟩

theorem Request.Reads.what_of_document {r : Request} {p : Parts} (h : r.Reads p)
    (hr : r.what = .document) : p.what = [] := by
  have hwhat := h.what
  rw [hr] at hwhat
  exact (Except.ok.inj hwhat).symm

theorem Request.Reads.mem_condition {r : Request} {p : Parts} (h : r.Reads p) {e : Expr} :
    e ∈ p.condition ↔ ∃ source ∈ r.condition, source.expr = .ok e := by
  refine ⟨mapM_option_eq_ok h.condition e, ?_⟩
  rintro ⟨source, hsource, he⟩
  have hcondition := h.condition
  rw [Option.mem_def.1 hsource] at hcondition
  obtain ⟨e', he', heq⟩ := map_eq_ok hcondition
  cases he.symm.trans he'
  exact heq.symm

theorem Request.Reads.parsed {r : Request} {p : Parts} (h : r.Reads p) :
    (∀ e ∈ p.what, Parsed e) ∧ (∀ e ∈ p.condition, Parsed e) ∧ ∀ o ∈ p.order, Parsed o.1 := by
  refine ⟨fun e he => ?_, fun e he => ?_, fun o ho => ?_⟩
  · obtain ⟨source, -, hsource⟩ := mapM_list_eq_ok h.what e he
    exact parsed_of_expr hsource
  · obtain ⟨source, -, hsource⟩ := h.mem_condition.1 he
    exact parsed_of_expr hsource
  · obtain ⟨key, -, hkey⟩ := mapM_list_eq_ok h.order o ho
    obtain ⟨e, he, hkey⟩ := bind_eq_ok hkey
    cases hkey
    exact parsed_of_expr he

def Compiler.layout (c : Compiler) (base : String) (p : Parts) : Layout :=
  ⟨c, base, p, c.joins base p⟩

/-- The condition of a request without the equalities that its joins stand for. -/
def Layout.condition (l : Layout) : Option Expr :=
  l.parts.condition.bind (Expr.withoutJoins? l.compiler.tables (l.joins.map (·.2)))

def Layout.membership (l : Layout) : Option Membership :=
  l.condition.bind (Expr.membership? l.base (.of l.compiler.env l.compiler.tables))

/-- A query is a union where its condition can be split, and a single statement otherwise. -/
inductive Layout.Queries (l : Layout) : Query → Prop
  | union {e without within : Expr} {m : Membership} {q : Query} (he : l.condition = some e)
      (hm : l.membership = some m) (hsplit : m.split? e = some (without, within))
      (hq : l.union m without within = .ok q) : Queries l q
  | single {q : Query} (hwhole : ∀ e m, l.condition = some e → l.membership = some m →
      m.split? e = none) (hq : l.single l.condition l.membership = .ok q) : Queries l q

/-- All statements of a query read the base table and the joined tables of its layout. -/
theorem Layout.Queries.source {l : Layout} {q : Query} (hq : l.Queries q) :
    ∀ s ∈ q.branches, s.source.base = l.base ∧ s.source.joins = l.joins := by
  have hselect : ∀ {condition : Option Expr} {m : Option Membership} {union : Bool}
      {s : Select} {c : Context}, l.select condition m union = .ok (s, c) →
      s.source.base = l.base ∧ s.source.joins = l.joins := by
    intro condition m union s c hs
    obtain ⟨_, _, _, _, _, hs⟩ := Layout.selected_of_select hs
    exact ⟨hs.base, hs.joins⟩
  cases hq with
  | union _ _ _ hq =>
    obtain ⟨first, second, c, d, hfirst, hsecond, rfl⟩ := Layout.union_eq_ok hq
    simpa [Query.branches] using ⟨hselect hfirst, hselect hsecond⟩
  | single _ hq =>
    obtain ⟨s, c, texts, hs, -, rfl⟩ := Layout.single_eq_ok hq
    simpa [Query.branches] using hselect hs

theorem queries_of_compile {c : Compiler} {r : Request} {q : Query} (hq : c.compile r = .ok q) :
    c.tables.contains r.table = true ∧
      ∃ parts, r.parts = .ok parts ∧ (c.layout r.table parts).Queries q := by
  rw [Compiler.compile] at hq
  split at hq
  · cases hq
  rename_i htable
  obtain ⟨parts, hparts, hq⟩ := bind_eq_ok hq
  refine ⟨by simpa using htable, parts, hparts, ?_⟩
  dsimp only at hq
  split at hq
  · rename_i m without within hm hsplit
    obtain ⟨e, he, hsplit⟩ := Option.bind_eq_some_iff.1 hsplit
    obtain ⟨m', hm', hsplit⟩ := Option.bind_eq_some_iff.1 hsplit
    cases hm.symm.trans hm'
    exact .union he hm hsplit hq
  · rename_i hne
    refine .single (fun e m he hm => ?_) hq
    cases hsplit : m.split? e with
    | none => rfl
    | some pair =>
      refine absurd ?_ (hne m pair.1 pair.2 hm)
      exact Option.bind_eq_some_iff.2 ⟨e, he, Option.bind_eq_some_iff.2 ⟨m, hm, hsplit⟩⟩

theorem proper_compile {c : Compiler} (hc : c.tables.Named) {r : Request} {q : Query}
    (hq : c.compile r = .ok q) : q.Proper := by
  obtain ⟨htable, parts, hparts, hq⟩ := queries_of_compile hq
  obtain ⟨hwhat, hcondition, horder⟩ := (Request.reads_of_parts hparts).parsed
  have hlayout : (c.layout r.table parts).Proper :=
    ⟨hc.isWord htable, hwhat, horder, proper_joins hc⟩
  have hparsed : ∀ e ∈ (c.layout r.table parts).condition, Parsed e := by
    intro e he
    obtain ⟨whole, hwhole, he⟩ := Option.bind_eq_some_iff.1 he
    exact (hcondition whole hwhole).withoutJoins he
  have hmembership : ∀ m ∈ (c.layout r.table parts).membership, m.Proper := by
    intro m hm
    obtain ⟨e, he, hm⟩ := Option.bind_eq_some_iff.1 hm
    exact (hparsed e he).membership hm
  cases hq with
  | union he hm hsplit hq =>
    obtain ⟨hwithout, hwithin⟩ := (hparsed _ he).split hsplit
    exact hlayout.union (hmembership _ hm) hwithout hwithin hq
  | single _ hq => exact hlayout.single hparsed hmembership hq

/-- The query of a request is one statement, whatever texts or traces its expressions are given as
and whatever values the names of the domain have. -/
theorem isStatement_compile {c : Compiler} (hc : ∀ name ∈ c.tables.names, IsIdentifier name.toList)
    {r : Request} {q : Query} (hq : c.compile r = .ok q) :
    ∃ ls, lexemes? q.sql = some ls ∧ IsStatement ls := by
  obtain ⟨body, hbody, hfragment⟩ := (proper_compile hc hq).fragment
  rw [hbody]
  exact Scan.isStatement_of_run (hfragment 0)

theorem isStatement_compile_person : ∃ (q : Query) (ls : List Lexeme),
    (∀ name ∈ NameSet.ofList ["person"], IsIdentifier name.toList) ∧
    Compiler.compile ⟨.empty, ⟨.ofList ["person"]⟩⟩
      ⟨"person", .document, some (.text "person.a['x)'] == \"'; --\" and - -b"), []⟩ = .ok q ∧
    q.sql = "SELECT json_data FROM person WHERE " ++
      "((json_extract(json_data, '$.a.x)') = '''; --') AND -(-(b)));" ∧
    lexemes? q.sql = some ls ∧ IsStatement ls := by
  have hnamed : ∀ name ∈ NameSet.ofList ["person"], IsIdentifier name.toList := by
    intro name hname
    cases List.mem_singleton.1 (NameSet.mem_ofList.1 hname)
    exact ⟨'p', "erson".toList, rfl, by decide, by decide⟩
  have hcompile : Query.sql <$> Compiler.compile ⟨.empty, ⟨.ofList ["person"]⟩⟩
      ⟨"person", .document, some (.text "person.a['x)'] == \"'; --\" and - -b"), []⟩ =
      .ok ("SELECT json_data FROM person WHERE " ++
        "((json_extract(json_data, '$.a.x)') = '''; --') AND -(-(b)));") := by cbv
  obtain ⟨q, hq, hsql⟩ := map_eq_ok hcompile
  obtain ⟨ls, hls, hstatement⟩ := isStatement_compile hnamed hq
  exact ⟨q, ls, hnamed, hq, hsql, hls, hstatement⟩

end DocQuery
