import DocQuery.Proofs.Places
import DocQuery.Proofs.Rows

/-! # The two kinds of disjuncts

A disjunction is split by what stands inside its operands. All parts of an expression are looked at,
at every depth, except the defaults of parameters.

* `Expr.bodyParts`, `Expr.Reached`: what is looked at, from part to part.
* `Expr.mem_nodes_iff`: the nodes of an expression are all that is reached from it.
* `split_disjunction`: the two kinds of disjuncts, in order, make up the disjunction.
-/

set_option autoImplicit false

namespace DocQuery

namespace Expr

/-- The expressions directly inside an expression, without the defaults of parameters. -/
def bodyParts : Expr → List Expr
  | lambda _ _ _ body => [body]
  | e => e.parts

/-- `x.Reached e`: the expression `x` is `e` or stands in it at some depth. -/
inductive Reached (x : Expr) : Expr → Prop
  | self : Reached x x
  | part {e p : Expr} (hp : p ∈ e.bodyParts) (h : Reached x p) : Reached x e

variable {x e p : Expr}

theorem mem_parts_of_mem_bodyParts (h : p ∈ e.bodyParts) : p ∈ e.parts := by
  cases e with
  | lambda params rest named body => exact List.mem_append_right _ h
  | _ => exact h

theorem nodesOfAll_eq_flatMap (es : List Expr) : nodesOfAll es = es.flatMap nodes := by
  induction es with
  | nil => rfl
  | cons e es ih => rw [nodesOfAll, ih, List.flatMap_cons]

theorem nodesOfOption_eq_flatMap (e : Option Expr) : nodesOfOption e = e.toList.flatMap nodes := by
  cases e with
  | none => rfl
  | some e => simp [nodesOfOption]

theorem nodesOfKeywords_eq_flatMap (keywords : List (Keyword Expr)) :
    nodesOfKeywords keywords = (keywords.map (·.value)).flatMap nodes := by
  induction keywords with
  | nil => rfl
  | cons k keywords ih => rw [nodesOfKeywords, ih, List.map_cons, List.flatMap_cons]

theorem nodesOfClauses_eq_flatMap (clauses : List (Clause Expr)) :
    nodesOfClauses clauses = (clauses.flatMap fun c => c.source :: c.conditions).flatMap nodes := by
  induction clauses with
  | nil => rfl
  | cons c clauses ih =>
    rw [nodesOfClauses, ih, nodesOfAll_eq_flatMap, List.flatMap_cons, List.flatMap_append,
      List.flatMap_cons]

/-- The nodes of an expression are the expression itself and the nodes of its parts, in order. -/
theorem nodes_eq_cons (e : Expr) : e.nodes = e :: e.bodyParts.flatMap nodes := by
  cases e <;> simp [nodes, bodyParts, parts, nodesOfAll_eq_flatMap, nodesOfOption_eq_flatMap,
    nodesOfKeywords_eq_flatMap, nodesOfClauses_eq_flatMap]

theorem mem_nodes_iff : x ∈ e.nodes ↔ x.Reached e := by
  constructor
  · intro h
    induction hn : sizeOf e using Nat.strong_induction_on generalizing e with
    | _ n ih =>
      subst hn
      rw [nodes_eq_cons] at h
      obtain rfl | h := List.mem_cons.1 h
      · exact .self
      · obtain ⟨p, hp, hx⟩ := List.mem_flatMap.1 h
        exact .part hp (ih _ (sizeOf_lt_of_mem_parts (mem_parts_of_mem_bodyParts hp)) hx rfl)
  · intro h
    induction h with
    | self => exact mem_nodes_self x
    | part hp _ ih =>
      rw [nodes_eq_cons]
      exact List.mem_cons_of_mem _ (List.mem_flatMap.2 ⟨_, hp, ih⟩)

/-- The disjunction of several conditions; a single one stands for itself. -/
def disjunction : List Expr → Expr
  | [e] => e
  | es => .boolean .or es

theorem ofOperands?_eq_some_iff {es : List Expr} :
    ofOperands? .or es = some e ↔ es ≠ [] ∧ e = disjunction es := by
  obtain _ | ⟨x, _ | ⟨y, es⟩⟩ := es
  · simp [ofOperands?]
  · simp [ofOperands?, disjunction, eq_comm]
  · simp [ofOperands?, disjunction, eq_comm]

end Expr

namespace Membership

variable {m : Membership} {ds : List Expr} {e : Expr}

theorem occursIn_iff : m.occursIn e = true ↔ ∃ x : Expr, x.Reached e ∧ m.isTest x = true := by
  rw [occursIn, List.any_eq_true]
  simp only [Expr.mem_nodes_iff]

theorem occursIn_eq_false_iff :
    m.occursIn e = false ↔ ∀ x : Expr, x.Reached e → m.isTest x = false := by
  rw [← Bool.not_eq_true, occursIn_iff]
  simp

theorem split?_eq_some_iff {first second : Expr} :
    m.split? (.boolean .or ds) = some (first, second) ↔
      (ds.filter (!m.occursIn ·) ≠ [] ∧ first = .disjunction (ds.filter (!m.occursIn ·))) ∧
      ds.filter m.occursIn ≠ [] ∧ second = .disjunction (ds.filter m.occursIn) := by
  rw [← Expr.ofOperands?_eq_some_iff, ← Expr.ofOperands?_eq_some_iff, split?]
  constructor
  · intro h
    obtain ⟨a, ha, h⟩ := Option.bind_eq_some_iff.1 h
    obtain ⟨b, hb, h⟩ := Option.bind_eq_some_iff.1 h
    cases h
    exact ⟨ha, hb⟩
  · rintro ⟨ha, hb⟩
    rw [ha, hb]
    rfl

theorem isSome_split?_iff : (m.split? (.boolean .or ds)).isSome = true ↔
    (∃ d ∈ ds, m.occursIn d = true) ∧ ∃ d ∈ ds, m.occursIn d = false := by
  have hwithout : ds.filter (!m.occursIn ·) ≠ [] ↔ ∃ d ∈ ds, m.occursIn d = false := by simp
  have hwithin : ds.filter m.occursIn ≠ [] ↔ ∃ d ∈ ds, m.occursIn d = true := by simp
  rw [← hwithin, ← hwithout, Option.isSome_iff_exists]
  constructor
  · rintro ⟨⟨first, second⟩, h⟩
    obtain ⟨hfirst, hsecond⟩ := split?_eq_some_iff.1 h
    exact ⟨hsecond.1, hfirst.1⟩
  · rintro ⟨hsecond, hfirst⟩
    exact ⟨_, split?_eq_some_iff.2 ⟨⟨hfirst, rfl⟩, hsecond, rfl⟩⟩

/-- A disjunction has the test where one of its operands has it. -/
theorem occursIn_disjunction (ds : List Expr) :
    m.occursIn (.disjunction ds) = ds.any m.occursIn := by
  have hboolean : m.occursIn (.boolean .or ds) = ds.any m.occursIn := by
    unfold occursIn
    rw [Expr.nodes, Expr.nodesOfAll_eq_flatMap, List.any_cons, List.any_flatMap]
    rfl
  unfold Expr.disjunction
  split
  · simp
  · exact hboolean

end Membership

/-- The operands of a disjunction by kind: those without the test inside and those with it, both in
order. None is lost and none is doubled. -/
structure Membership.Halves (m : Membership) (ds without within : List Expr) : Prop where
  without_sublist : without.Sublist ds
  within_sublist : within.Sublist ds
  perm : (without ++ within).Perm ds
  without_free : ∀ d ∈ without, ∀ x : Expr, x.Reached d → m.isTest x = false
  within_tested : ∀ d ∈ within, ∃ x : Expr, x.Reached d ∧ m.isTest x = true

theorem Membership.halves_filter (m : Membership) (ds : List Expr) :
    m.Halves ds (ds.filter (!m.occursIn ·)) (ds.filter m.occursIn) where
  without_sublist := List.filter_sublist
  within_sublist := List.filter_sublist
  perm := by simpa using List.filter_append_perm (!m.occursIn ·) ds
  without_free d hd := occursIn_eq_false_iff.1 (by simpa using (List.mem_filter.1 hd).2)
  within_tested d hd := occursIn_iff.1 (List.mem_filter.1 hd).2

/-- A disjunction is split exactly if some operands have a membership test somewhere inside and some
do not. Then its halves are those of either kind, the test is nowhere inside the first half, and both
together say what the disjunction says. -/
theorem split_disjunction (m : Membership) (ds : List Expr) :
    ((m.split? (.boolean .or ds)).isSome = true ↔
      (∃ d ∈ ds, ∃ x : Expr, x.Reached d ∧ m.isTest x = true) ∧
      ∃ d ∈ ds, ∀ x : Expr, x.Reached d → m.isTest x = false) ∧
    ∀ first second, m.split? (.boolean .or ds) = some (first, second) →
      ∃ without within : List Expr, m.Halves ds without within ∧
        first = .disjunction without ∧ second = .disjunction within ∧
        (∀ x : Expr, x.Reached first → m.isTest x = false) ∧
        (∀ value : Expr → Bool, (without.any value || within.any value) = ds.any value) ∧
        ∀ truth, (Expr.boolean .or [first, second]).Holds truth ↔
          (Expr.boolean .or ds).Holds truth := by
  simp only [← Membership.occursIn_iff, ← Membership.occursIn_eq_false_iff]
  refine ⟨Membership.isSome_split?_iff, fun first second h => ?_⟩
  have hhalves := m.halves_filter ds
  obtain ⟨⟨-, hfirst⟩, -, hsecond⟩ := Membership.split?_eq_some_iff.1 h
  refine ⟨_, _, hhalves, hfirst, hsecond, ?_, fun value => ?_, fun truth => ?_⟩
  · rw [hfirst, Membership.occursIn_disjunction]
    simp
  · rw [← List.any_append]
    exact hhalves.perm.any_eq
  · obtain ⟨hwithout, hwithin⟩ := holds_of_split h truth
    have hboth : (∃ e ∈ [first, second], e.Holds truth) ↔ first.Holds truth ∨ second.Holds truth := by
      simp
    rw [Expr.holds_or, Expr.holds_or, hboth, hwithout, hwithin]
    constructor
    · rintro (⟨d, hd, -, hholds⟩ | ⟨d, hd, -, hholds⟩)
      · exact ⟨d, hd, hholds⟩
      · exact ⟨d, hd, hholds⟩
    · rintro ⟨d, hd, hholds⟩
      cases hoccurs : m.occursIn d with
      | false => exact .inl ⟨d, hd, hoccurs, hholds⟩
      | true => exact .inr ⟨d, hd, hoccurs, hholds⟩

/-- The test is an operand, and it is deep inside another one; a single disjunction stands for itself.
-/
theorem split_disjunction_nested : ∃ (m : Membership) (test call choice : Expr),
    test = .compare (.name "v") [.elemOf] [.attr (.name "person") "xs"] ∧
    call = .call (.name "f") [] [⟨some "k", .listComp (.name "w") [⟨"w", .name "ys", [test]⟩]⟩] ∧
    choice = .boolean .or [.name "a", .name "b"] ∧
    m.split? (.boolean .or [call, choice, test]) = some (choice, .boolean .or [call, test]) ∧
    (∀ x : Expr, x.Reached choice → m.isTest x = false) ∧
    ∀ truth, (Expr.boolean .or [choice, .boolean .or [call, test]]).Holds truth ↔
      (Expr.boolean .or [call, choice, test]).Holds truth := by
  let test : Expr := .compare (.name "v") [.elemOf] [.attr (.name "person") "xs"]
  let call : Expr :=
    .call (.name "f") [] [⟨some "k", .listComp (.name "w") [⟨"w", .name "ys", [test]⟩]⟩]
  let choice : Expr := .boolean .or [.name "a", .name "b"]
  let m : Membership := ⟨"v", .attr (.name "person") "xs"⟩
  have hsplit : m.split? (.boolean .or [call, choice, test]) =
      some (choice, .boolean .or [call, test]) := by cbv
  obtain ⟨-, hhalves⟩ := split_disjunction m [call, choice, test]
  obtain ⟨_, _, -, -, -, hfree, -, hholds⟩ := hhalves _ _ hsplit
  exact ⟨m, test, call, choice, rfl, rfl, rfl, hsplit, hfree, hholds⟩

end DocQuery
