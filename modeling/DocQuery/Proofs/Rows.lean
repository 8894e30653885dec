import DocQuery.Proofs.Statements

/-! # The rows that a membership test selects

A row is selected by what its conditions say: those on the row itself, and those on the elements of
the array that a membership test is about. A statement that expands the array selects a row for the
sake of an element, so a row whose array is empty comes out of the other statement of a union or not
at all.

* `Row`, `Row.Wanted`: what is true of a row, and the rows that a condition asks for.
* `Reading`: a statement of a query and what its predicate says.
* `returned_compile`: the rows that a compiled query returns.
-/

set_option autoImplicit false

namespace DocQuery

open Sql

/-! ## Disjuncts -/

namespace Expr

/-- The conditions of which one is enough. -/
def disjuncts : Expr → List Expr
  | boolean .or operands => operands
  | e => [e]

variable {truth : Expr → Prop} {e : Expr} {es : List Expr}

theorem holds_iff_disjunct : e.Holds truth ↔ ∃ d ∈ e.disjuncts, d.Holds truth := by
  rw [disjuncts.eq_def]
  split
  · exact holds_or
  · simp

theorem holds_ofOperands (h : ofOperands? .or es = some e) :
    e.Holds truth ↔ ∃ d ∈ es, d.Holds truth := by
  match es, h with
  | [_], h =>
    cases h
    simp
  | _ :: _ :: _, h =>
    cases h
    exact holds_or

theorem eq_nil_of_ofOperands {op : BoolOp} (h : ofOperands? op es = none) : es = [] := by
  match es, h with
  | [], _ => rfl
  | [_], h => cases h
  | _ :: _ :: _, h => cases h

theorem beq_self_of_chain {p : String × List String} (h : e.chain? = some p) : (e == e) = true := by
  change beq e e = true
  fun_induction chain? e generalizing p with
  | case1 root label =>
    change (root == root && label == label) = true
    simp
  | case2 value label _ ih =>
    obtain ⟨q, hq, -⟩ := Option.map_eq_some_iff.1 h
    change (beq value value && label == label) = true
    simp [ih hq]
  | case3 => cases h

end Expr

section Membership

variable {base : String} {scope : Scope} {e : Expr} {m : Membership}

theorem isTest_of_asMembership (h : e.asMembership? base scope = some m) : m.isTest e = true := by
  rw [Expr.asMembership?] at h
  split at h
  · rename_i id array hparts
    split at h
    · rename_i hbase
      cases h
      obtain ⟨p, hp, -⟩ : ∃ p, array.chain? = some p ∧ (p.1 == base) = true := by
        simpa [Option.any_eq_true] using (Bool.and_eq_true_iff.1 hbase).1
      simp [Membership.isTest, hparts, Expr.beq_self_of_chain hp]
    · cases h
  · cases h

theorem Parsed.occursIn_of_membership (h : Parsed e) (hm : e.membership? base scope = some m) :
    m.occursIn e = true := by
  obtain ⟨x, hx, hm⟩ := h.atom_of_membership hm
  exact List.any_eq_true.2 ⟨x, hx.mem_nodes, isTest_of_asMembership hm⟩

/-- Some disjunct has the test that was found. -/
theorem Parsed.exists_disjunct (h : Parsed e) (hm : e.membership? base scope = some m) :
    ∃ d ∈ e.disjuncts, m.occursIn d = true := by
  rw [Expr.disjuncts.eq_def]
  split
  · rw [Expr.membership?] at hm
    obtain ⟨d, hd, hm⟩ := exists_of_membershipAmong hm
    exact ⟨d, hd, (h.operands d hd).occursIn_of_membership hm⟩
  · exact ⟨e, List.mem_cons_self, h.occursIn_of_membership hm⟩

theorem holds_of_split {without within : Expr} (h : m.split? e = some (without, within))
    (truth : Expr → Prop) :
    (without.Holds truth ↔ ∃ d ∈ e.disjuncts, m.occursIn d = false ∧ d.Holds truth) ∧
    (within.Holds truth ↔ ∃ d ∈ e.disjuncts, m.occursIn d = true ∧ d.Holds truth) := by
  rw [Membership.split?.eq_def] at h
  split at h
  · obtain ⟨a, ha, h⟩ := Option.bind_eq_some_iff.1 h
    obtain ⟨b, hb, h⟩ := Option.bind_eq_some_iff.1 h
    cases h
    rw [Expr.holds_ofOperands ha, Expr.holds_ofOperands hb]
    simp [Expr.disjuncts, and_assoc]
  · cases h

/-- Without two kinds of disjuncts, all have the test that was found. -/
theorem Parsed.occursIn_of_split_none (h : Parsed e) (hm : e.membership? base scope = some m)
    (hsplit : m.split? e = Option.none) : ∀ d ∈ e.disjuncts, m.occursIn d = true := by
  obtain ⟨x, hx, hoccurs⟩ := h.exists_disjunct hm
  rw [Membership.split?.eq_def] at hsplit
  split at hsplit
  · rename_i operands
    replace hx : x ∈ operands := hx
    obtain ⟨within, hwithin⟩ : ∃ within,
        Expr.ofOperands? .or (operands.filter m.occursIn) = some within := by
      cases hn : Expr.ofOperands? .or (operands.filter m.occursIn) with
      | some within => exact ⟨within, rfl⟩
      | none => exact absurd hoccurs (List.filter_eq_nil_iff.1 (Expr.eq_nil_of_ofOperands hn) x hx)
    have hwithout : Expr.ofOperands? .or (operands.filter (!m.occursIn ·)) = Option.none := by
      cases hn : Expr.ofOperands? .or (operands.filter (!m.occursIn ·)) with
      | none => rfl
      | some without => simp [hn, hwithin] at hsplit
    intro d hd
    simpa using List.filter_eq_nil_iff.1 (Expr.eq_nil_of_ofOperands hwithout) d hd
  · rename_i hor
    intro d hd
    have hself : e.disjuncts = [e] := by
      rw [Expr.disjuncts.eq_def]
      split
      · exact absurd rfl (hor _)
      · rfl
    rw [hself] at hx hd
    rwa [List.mem_singleton.1 hd, ← List.mem_singleton.1 hx]

end Membership

/-! ## Rows -/

/-- Whether a name stands somewhere in an expression. -/
def Expr.mentions (e : Expr) (id : String) : Bool := e.nodes.any (·.asName? == some id)

/-- What is true of a row: the conditions on the row itself that hold, the elements of its array,
and the conditions that hold of each of them. -/
structure Row (α : Type) where
  holds : Expr → Prop
  elements : List α
  holdsAt : α → Expr → Prop

namespace Row

variable {α : Type}

/-- The conditions that are true beside one element of the array, where the test is, or beside none,
where neither the test is nor any condition on an element. -/
def truth (row : Row α) (m : Membership) : Option α → Expr → Prop
  | some x, e =>
    m.isTest e = true ∨ if e.mentions m.target = true then row.holdsAt x e else row.holds e
  | none, e => m.isTest e = false ∧ e.mentions m.target = false ∧ row.holds e

/-- The condition holds of the row beside no element or beside one of its array. -/
def Wanted (row : Row α) (m : Membership) (p : Expr) : Prop :=
  p.Holds (row.truth m none) ∨ ∃ x ∈ row.elements, p.Holds (row.truth m (some x))

variable {row : Row α} {m : Membership} {e : Expr}

theorem truth_some_of_none (x : α) (h : row.truth m none e) : row.truth m (some x) e := by
  obtain ⟨-, hmentions, hholds⟩ := h
  refine .inr ?_
  rw [if_neg (by simp [hmentions])]
  exact hholds

/-- Beside an element, nothing else is true of the conditions on the row. -/
theorem truth_none_of_some {x : α} (htest : m.isTest e = false)
    (hmentions : e.mentions m.target = false) (h : row.truth m (some x) e) :
    row.truth m none e := by
  refine ⟨htest, hmentions, ?_⟩
  obtain h | h := h
  · simp [htest] at h
  · rwa [if_neg (by simp [hmentions])] at h

end Row

/-! ## Readings -/

/-- The context of the conditions of a statement that guarantees a test. -/
def Compiler.conditionContext (c : Compiler) (base : String) (m : Option Membership) : Context :=
  (((Context.of base c.env c.tables).qualified true).iterating (m.map (·.target))).guaranteeing m

/-- A statement together with the condition that its predicate is the text for. -/
structure Reading where
  select : Select
  condition : Option Expr

namespace Reading

/-- The predicate is the text for the condition. A statement that expands an array expands that of
the test, which it guarantees. -/
def Faithful (b : Reading) (c : Compiler) (base : String) (m : Membership) : Prop :=
  match b.select.source.expansion with
  | none => WritesOption (c.conditionContext base none) b.condition b.select.predicate
  | some x =>
    x.target = m.target ∧
    ((Context.of base c.env c.tables).qualified true).fieldPath m.array = .ok x.array ∧
    WritesOption (c.conditionContext base (some m)) b.condition b.select.predicate

/-- The statement returns the row: its condition holds, beside some element where it expands the
array. Without a condition it always does. -/
def Returns {α : Type} (b : Reading) (m : Membership) (row : Row α) : Prop :=
  match b.select.source.expansion with
  | none => ∀ e ∈ b.condition, e.Holds (row.truth m none)
  | some _ => ∃ x ∈ row.elements, ∀ e ∈ b.condition, e.Holds (row.truth m (some x))

end Reading

/-! ## Statements that select documents -/

section Documents

variable {l : Layout} {e : Expr} {s : Select} {c : Context}

theorem Layout.select_document (hwhat : l.parts.what = []) {m : Option Membership} {union : Bool}
    (hnamed : union = true ∨ m.isSome = true) (hs : l.select (some e) m union = .ok (s, c)) :
    m.mapM (fun m => l.expand m.target m.array) = .ok s.source.expansion ∧
    (l.compiler.conditionContext l.base m).predicate e = .ok s.predicate := by
  obtain ⟨x, y, a, p, q, hs⟩ := Layout.selected_of_select hs
  -- Nothing but the document is selected, so there is no comprehension with an array of its own.
  obtain rfl : a = none := by
    have h := hs.comprehension
    rw [Layout.comprehension?, hwhat] at h
    cases h
    rfl
  obtain rfl : y = none := by
    cases hs.iterated
    rfl
  obtain rfl : q = none := by
    cases hs.filter
    rfl
  obtain rfl : x = s.source.expansion := by
    have h := hs.expansion
    cases x with
    | none => exact Except.ok.inj h
    | some x => exact Except.ok.inj h
  have hqualified : (union || !l.joins.isEmpty || s.source.expansion.isSome) = true := by
    obtain rfl | hm := hnamed
    · simp
    · obtain ⟨m, rfl⟩ := Option.isSome_iff_exists.1 hm
      obtain ⟨x, -, hx⟩ := map_eq_ok hs.tested
      simp [← hx]
  have hcontext : c = l.compiler.conditionContext l.base m := by
    have htarget : l.target? m = m.map (·.target) := by
      cases m with
      | none => simp [Layout.target?, hwhat]
      | some m => rfl
    rw [hs.context, Layout.inner, hqualified, htarget]
    rfl
  obtain ⟨r, hr, rfl⟩ := map_eq_ok hs.own
  have hpredicate : s.predicate = r := by
    rw [hs.predicate]
    cases r <;> rfl
  rw [hpredicate, ← hcontext]
  exact ⟨hs.tested, hr⟩

theorem grants_none (c : Compiler) (base : String) (truth : Expr → Prop) :
    (c.conditionContext base none).Grants truth := nofun

theorem grants_some (c : Compiler) (base : String) {α : Type} (row : Row α) (m : Membership)
    (x : α) : (c.conditionContext base (some m)).Grants (row.truth m (some x)) :=
  fun _ ht => .inl ht

/-- A statement that expands no array returns the rows of which its condition holds. -/
theorem reading_of_plain (hwhat : l.parts.what = []) (he : Parsed e)
    (m : Membership) (hs : l.select (some e) none true = .ok (s, c)) :
    ∃ b : Reading, b.select = s ∧ b.Faithful l.compiler l.base m ∧
      ∀ {α : Type} (row : Row α), b.Returns m row ↔ e.Holds (row.truth m none) := by
  obtain ⟨hexpansion, hpredicate⟩ := Layout.select_document hwhat (.inl rfl) hs
  replace hexpansion : s.source.expansion = none := (Except.ok.inj hexpansion).symm
  obtain ⟨condition, hwrites, hmeans⟩ := he.means hpredicate
  refine ⟨⟨s, condition⟩, rfl, ?_, fun row => ?_⟩
  · simpa only [Reading.Faithful, hexpansion] using hwrites
  · simp only [Reading.Returns, hexpansion]
    exact hmeans _ (grants_none _ _ _)

/-- A statement that expands the array of a test returns the rows of which its condition holds
beside some element. -/
theorem reading_of_expanded (hwhat : l.parts.what = []) (he : Parsed e)
    {m : Membership} {union : Bool} (hs : l.select (some e) (some m) union = .ok (s, c)) :
    ∃ b : Reading, b.select = s ∧ b.Faithful l.compiler l.base m ∧
      ∀ {α : Type} (row : Row α),
        b.Returns m row ↔ ∃ x ∈ row.elements, e.Holds (row.truth m (some x)) := by
  obtain ⟨hexpansion, hpredicate⟩ := Layout.select_document hwhat (.inr rfl) hs
  obtain ⟨x, hx, hexpanded⟩ := map_eq_ok hexpansion
  obtain ⟨array, harray, hx⟩ := bind_eq_ok hx
  cases hx
  obtain ⟨condition, hwrites, hmeans⟩ := he.means hpredicate
  refine ⟨⟨s, condition⟩, rfl, ?_, fun row => ?_⟩
  · simp only [Reading.Faithful, ← hexpanded]
    exact ⟨trivial, harray, hwrites⟩
  · simp only [Reading.Returns, ← hexpanded]
    simp only [hmeans _ (grants_some _ _ row m _)]

end Documents

/-! ## Queries -/

theorem Layout.Queries.joins {l : Layout} {q : Query} (h : l.Queries q) :
    ∃ s ∈ q.branches, s.source.joins = l.joins := by
  have hsource := h.source
  cases q with
  | single s order => exact ⟨s, List.mem_cons_self, (hsource s List.mem_cons_self).2⟩
  | union s t columns order => exact ⟨s, List.mem_cons_self, (hsource s List.mem_cons_self).2⟩

/-- Without joins, the condition of a layout is that of the request. -/
theorem Layout.condition_of_joins {l : Layout} {p : Expr} (hp : Parsed p) (hjoins : l.joins = .empty)
    (hcondition : l.parts.condition = some p) : l.condition = some p := by
  rw [Layout.condition, hcondition, hjoins]
  exact withoutJoins_nil hp

/-- Some statement returns the row. -/
def Returned {α : Type} (readings : List Reading) (m : Membership) (row : Row α) : Prop :=
  ∃ b ∈ readings, b.Returns m row

/-- The disjuncts without the test are about the row itself. -/
def Membership.Apart (m : Membership) (p : Expr) : Prop :=
  ∀ d ∈ p.disjuncts, m.occursIn d = false → ∀ e : Expr, e.Atom d → e.mentions m.target = false

namespace Row

variable {α : Type} {row : Row α} {m : Membership} {p : Expr}

/-- Some disjunct without the test holds beside no element, or some disjunct with the test holds
beside an element. -/
def Selected (row : Row α) (m : Membership) (p : Expr) : Prop :=
  (∃ d ∈ p.disjuncts, m.occursIn d = false ∧ d.Holds (row.truth m none)) ∨
    ∃ x ∈ row.elements, ∃ d ∈ p.disjuncts, m.occursIn d = true ∧ d.Holds (row.truth m (some x))

theorem Selected.wanted (h : row.Selected m p) : row.Wanted m p := by
  obtain ⟨d, hd, -, hholds⟩ | ⟨x, hx, d, hd, -, hholds⟩ := h
  · exact .inl (Expr.holds_iff_disjunct.2 ⟨d, hd, hholds⟩)
  · exact .inr ⟨x, hx, Expr.holds_iff_disjunct.2 ⟨d, hd, hholds⟩⟩

theorem Wanted.selected (h : row.Wanted m p) (hne : row.elements ≠ []) (hapart : m.Apart p) :
    row.Selected m p := by
  obtain h | ⟨x, hx, h⟩ := h
  · obtain ⟨d, hd, hholds⟩ := Expr.holds_iff_disjunct.1 h
    cases hoccurs : m.occursIn d with
    | false => exact .inl ⟨d, hd, hoccurs, hholds⟩
    | true =>
      -- What holds beside no element goes on holding beside any.
      obtain ⟨x, hx⟩ := List.exists_mem_of_ne_nil _ hne
      exact .inr ⟨x, hx, d, hd, hoccurs, hholds.mono fun e _ => truth_some_of_none x⟩
  · obtain ⟨d, hd, hholds⟩ := Expr.holds_iff_disjunct.1 h
    cases hoccurs : m.occursIn d with
    | true => exact .inr ⟨x, hx, d, hd, hoccurs, hholds⟩
    | false =>
      have htests : ∀ e : Expr, e.Atom d → m.isTest e = false := by
        intro e he
        simpa using List.any_eq_false.1 hoccurs e he.mem_nodes
      exact .inl ⟨d, hd, hoccurs,
        hholds.mono fun e he => truth_none_of_some (htests e he) (hapart d hd hoccurs e he)⟩

theorem selected_of_split {without within : Expr} (h : m.split? p = some (without, within)) :
    row.Selected m p ↔ without.Holds (row.truth m none) ∨
      ∃ x ∈ row.elements, within.Holds (row.truth m (some x)) := by
  rw [Selected, (holds_of_split h _).1]
  simp only [(holds_of_split h _).2]

theorem selected_of_all (h : ∀ d ∈ p.disjuncts, m.occursIn d = true) :
    row.Selected m p ↔ ∃ x ∈ row.elements, p.Holds (row.truth m (some x)) := by
  constructor
  · rintro (⟨d, hd, hoccurs, -⟩ | ⟨x, hx, d, hd, -, hholds⟩)
    · simp [h d hd] at hoccurs
    · exact ⟨x, hx, Expr.holds_iff_disjunct.2 ⟨d, hd, hholds⟩⟩
  · rintro ⟨x, hx, hholds⟩
    obtain ⟨d, hd, hholds⟩ := Expr.holds_iff_disjunct.1 hholds
    exact .inr ⟨x, hx, d, hd, h d hd, hholds⟩

end Row

/-- Exactly the selected rows are returned. -/
theorem exists_readings {l : Layout} {p : Expr} {m : Membership} {q : Query} (hp : Parsed p)
    (hwhat : l.parts.what = []) (hcondition : l.condition = some p) (hm : l.membership = some m)
    (hq : l.Queries q) :
    ∃ readings : List Reading, readings.map (·.select) = q.branches ∧
      (∀ b ∈ readings, b.Faithful l.compiler l.base m) ∧
      ∀ {α : Type} (row : Row α), Returned readings m row ↔ row.Selected m p := by
  cases hq with
  | union he hm' hsplit hq =>
    cases hcondition.symm.trans he
    cases hm.symm.trans hm'
    obtain ⟨first, second, c, d, hfirst, hsecond, rfl⟩ := Layout.union_eq_ok hq
    obtain ⟨hwithout, hwithin⟩ := hp.split hsplit
    obtain ⟨a, rfl, ha, hareturns⟩ := reading_of_plain hwhat hwithout m hfirst
    obtain ⟨b, rfl, hb, hbreturns⟩ := reading_of_expanded hwhat hwithin hsecond
    refine ⟨[a, b], rfl, by simp [ha, hb], fun row => ?_⟩
    rw [Row.selected_of_split hsplit, ← hareturns, ← hbreturns]
    simp [Returned]
  | single hwhole hq =>
    have hall : ∀ d ∈ p.disjuncts, m.occursIn d = true := by
      have hsplit := hwhole p m hcondition hm
      rw [Layout.membership, hcondition] at hm
      exact hp.occursIn_of_split_none hm hsplit
    rw [hcondition, hm] at hq
    obtain ⟨s, c, texts, hs, -, rfl⟩ := Layout.single_eq_ok hq
    obtain ⟨b, rfl, hb, hbreturns⟩ := reading_of_expanded hwhat hp hs
    refine ⟨[b], rfl, by simp [hb], fun row => ?_⟩
    rw [Row.selected_of_all hall, ← hbreturns]
    simp [Returned]

/-- The rows that a request for documents returns, where its condition `p` has the membership test
`m`: those for which some disjunct holds, beside an element if it has the test and beside none if it
has not. They are all wanted. All that are wanted are returned if their array has elements and the
disjuncts without the test are about the row itself. -/
theorem returned_compile {c : Compiler} {r : Request} {source : Source} {p : Expr} {m : Membership}
    {q : Query} (hwhat : r.what = .document) (hcondition : r.condition = some source)
    (hp : source.expr = .ok p) (hm : p.membership? r.table (.of c.env c.tables) = some m)
    (hq : c.compile r = .ok q) (hjoins : ∀ s ∈ q.branches, s.source.joins = .empty) :
    ∃ readings : List Reading, readings.map (·.select) = q.branches ∧
      (∀ b ∈ readings, b.Faithful c r.table m) ∧
      ∀ {α : Type} (row : Row α),
        (Returned readings m row ↔ row.Selected m p) ∧
        (Returned readings m row → row.Wanted m p) ∧
        (row.elements ≠ [] → m.Apart p → (Returned readings m row ↔ row.Wanted m p)) := by
  obtain ⟨-, parts, hparts, hq⟩ := queries_of_compile hq
  have hreads := Request.reads_of_parts hparts
  have hnothing := hreads.what_of_document hwhat
  have hwhole := hreads.mem_condition.2 ⟨source, hcondition, hp⟩
  have hnone : (c.layout r.table parts).joins = .empty := by
    obtain ⟨s, hs, hsame⟩ := hq.joins
    exact hsame.symm.trans (hjoins s hs)
  have hrest : (c.layout r.table parts).condition = some p :=
    Layout.condition_of_joins (parsed_of_expr hp) hnone hwhole
  have htest : (c.layout r.table parts).membership = some m := by
    rw [Layout.membership, hrest]
    exact hm
  obtain ⟨readings, hselects, hfaithful, hreturned⟩ :=
    exists_readings (parsed_of_expr hp) hnothing hrest htest hq
  refine ⟨readings, hselects, hfaithful, fun row => ⟨hreturned row, ?_, fun hne hapart => ?_⟩⟩
  · rw [hreturned row]
    exact Row.Selected.wanted
  · rw [hreturned row]
    exact ⟨Row.Selected.wanted, fun h => h.selected hne hapart⟩

/-- A row whose array is empty is lost although its condition holds of it without the test, because
the disjunction with the test stands inside a conjunction. -/
theorem returned_compile_empty : ∃ (p : Expr) (m : Membership) (q : Query) (readings : List Reading)
      (row : Row Unit),
    Source.expr (.text "(person.gender == 1 or v in person.xs) and person.private") = .ok p ∧
    p.membership? "person" (.of Compiler.genealogy.env Compiler.genealogy.tables) = some m ∧
    Compiler.genealogy.compile ⟨"person", .document,
      some (.text "(person.gender == 1 or v in person.xs) and person.private"), []⟩ = .ok q ∧
    (∀ s ∈ q.branches, s.source.joins = .empty) ∧
    readings.map (·.select) = q.branches ∧
    (∀ b ∈ readings, b.Faithful Compiler.genealogy "person" m) ∧
    row.elements = [] ∧ row.Wanted m p ∧ ¬ Returned readings m row := by
  obtain ⟨m, hmdef⟩ : ∃ m : Membership, m = ⟨"v", .attr (.name "person") "xs"⟩ := ⟨_, rfl⟩
  obtain ⟨p, hpdef⟩ : ∃ p : Expr, p = .boolean .and
      [.boolean .or [.compare (.attr (.name "person") "gender") [.eq] [.literal (.int 1)],
        .compare (.name "v") [.elemOf] [.attr (.name "person") "xs"]],
      .attr (.name "person") "private"] := ⟨_, rfl⟩
  have hall : ∀ d ∈ p.disjuncts, m.occursIn d = true := by
    rw [hpdef, hmdef]
    simp only [Expr.disjuncts, List.mem_singleton, forall_eq]
    decide
  have hwanted : p.Holds (Row.truth (⟨fun _ => True, [], fun _ _ => True⟩ : Row Unit) m none) := by
    rw [hpdef, hmdef, Expr.holds_and]
    simp only [List.forall_mem_cons, List.not_mem_nil, false_imp_iff, implies_true, and_true]
    exact ⟨.any List.mem_cons_self (.atom rfl ⟨rfl, by decide, trivial⟩),
      .atom rfl ⟨rfl, by decide, trivial⟩⟩
  have hm : p.membership? "person" (.of Compiler.genealogy.env Compiler.genealogy.tables) =
      some m := by
    rw [hpdef, hmdef]
    cbv
  obtain ⟨t, ht⟩ : ∃ t, t = "(person.gender == 1 or v in person.xs) and person.private" := ⟨_, rfl⟩
  have hp : Source.expr (.text t) = .ok p := by
    rw [ht, hpdef]
    cbv
  have hcompile : (fun q => q.branches.all (·.source.joins.isEmpty)) <$>
      Compiler.genealogy.compile ⟨"person", .document, some (.text t), []⟩ = .ok true := by
    rw [ht]
    cbv
  rw [← ht]
  obtain ⟨q, hq, hnone⟩ := map_eq_ok hcompile
  have hjoins : ∀ s ∈ q.branches, s.source.joins = .empty := by
    intro s hs
    exact OrderedMap.isEmpty_iff.1 (List.all_eq_true.1 hnone s hs)
  obtain ⟨readings, hselects, hfaithful, hrows⟩ := returned_compile rfl rfl hp hm hq hjoins
  refine ⟨p, m, q, readings, _, hp, hm, hq, hjoins, hselects, hfaithful, rfl, .inl hwanted, ?_⟩
  rw [(hrows _).1, Row.selected_of_all hall]
  simp

end DocQuery
