import DocQuery.Proofs.Locality
import DocQuery.Proofs.References

/-! # What is left beside a guaranteed test

Where a statement guarantees a membership test, the predicate of a condition is that of what is left
of the condition when the test is true: the test vanishes from conjunctions and makes disjunctions
true.

* `Membership.remainder?`: what is left of a condition.
* `Sql.eval_guaranteeing`: the guarantee makes no difference where the test does not occur.
* `Sql.predicate_guaranteeing`: the predicate of a condition is the SQL for what is left of it.
-/

set_option autoImplicit false

namespace DocQuery

namespace Membership

mutual

/-- What is left of a condition where this test is true. Nothing is left of a condition that is true
then. -/
def remainder? (m : Membership) : Expr → Option Expr
  | .boolean op operands =>
    if op = .or && (remainders m operands).any (·.isNone) then none
    else Expr.ofOperands? op (remainders m operands).reduceOption
  | e => if m.isTest e then none else some e
termination_by structural e => e

/-- What is left of each of several conditions. -/
def remainders (m : Membership) : List Expr → List (Option Expr)
  | [] => []
  | e :: es => remainder? m e :: remainders m es
termination_by structural es => es

end

/-- `m.Combines e`: the condition `e` is built with connectives from the test `m` and from conditions
in which the test does not occur. -/
inductive Combines (m : Membership) : Expr → Prop
  | test {e : Expr} (h : m.isTest e = true) : Combines m e
  | free {e : Expr} (hatom : e.isConnective = false) (h : m.occursIn e = false) : Combines m e
  | connective (op : BoolOp) {operands : List Expr} (h : ∀ e ∈ operands, Combines m e) :
      Combines m (.boolean op operands)

variable {m : Membership} {e : Expr}

theorem remainder_of_isTest (h : m.isTest e = true) : m.remainder? e = none := by
  cases e with
  | boolean op operands => cases h
  | _ => simp [remainder?, h]

theorem remainder_of_not_isTest (hatom : e.isConnective = false) (h : m.isTest e = false) :
    m.remainder? e = some e := by
  cases e with
  | boolean op operands => cases hatom
  | _ => simp [remainder?, h]

theorem isTest_of_not_occursIn (h : m.occursIn e = false) : m.isTest e = false := by
  rw [occursIn, List.any_eq_false] at h
  simpa using h e (Expr.mem_nodes_self e)

theorem not_occursIn_of_ownParts {p : Expr} (h : m.occursIn e = false) (hp : p ∈ e.ownParts) :
    m.occursIn p = false := by
  rw [occursIn, List.any_eq_false] at h ⊢
  exact fun x hx => h x (Expr.mem_nodes_of_ownParts hp hx)

end Membership

namespace Sql

open Context

variable {c : Context} {m : Membership} {e : Expr}

/-! ## Contexts that differ in the guarantee -/

theorem scope_under_guaranteeing (g : Option Membership) (vs : List String) :
    ((c.guaranteeing g).under vs).scope = (c.under vs).scope := by
  induction vs with
  | nil => rfl
  | cons v vs ih =>
    show { ((c.guaranteeing g).under vs).scope with iteration := some v } = _
    rw [ih]
    rfl

/-- What is evaluated outside of the quantifiers in an expression does not hold a test that does not
occur in the expression. -/
theorem Visits.not_occursIn {vs : List String} {x : Expr} (hx : Visits c e vs x) (hvs : vs = [])
    (h : m.occursIn e = false) : m.occursIn x = false := by
  induction hx with
  | self => exact h
  | part hp _ ih =>
    exact ih hvs (Membership.not_occursIn_of_ownParts h (mem_ownParts_of_mem_evaluatedParts hp))
  | inside => simp at hvs

/-- The guarantee makes no difference where the test does not occur. -/
theorem eval_guaranteeing (h : m.occursIn e = false) :
    (c.guaranteeing (some m)).eval e = (c.guaranteeing none).eval e := by
  have hroot : (c.guaranteeing (some m)).rootOf = (c.guaranteeing none).rootOf := rfl
  refine eval_eq_of_visits hroot fun vs x hx => ⟨?_, ?_⟩
  · cases vs with
    | nil => exact Membership.isTest_of_not_occursIn (hx.not_occursIn rfl h)
    | cons v vs => rfl
  · rintro id rfl
    rw [named, named, scope_under_guaranteeing, scope_under_guaranteeing]

/-! ## What is left -/

/-- `Leaves c r x`: the predicate `x` is the SQL for the condition `r`; nothing stands for nothing. -/
def Leaves (c : Context) : Option Expr → Option String → Prop
  | none, none => True
  | some r, some sql => c.predicate r = .ok (some sql)
  | _, _ => False

theorem predicate_eq_ok {v : Value} {x : Option String} (hv : c.eval e = .ok v)
    (hx : c.conditionOf e v = .ok x) : c.predicate e = .ok x := by
  rw [predicate, hv]
  exact hx

/-- The conditions of operands none of which is satisfied. -/
theorem conditions_of_predicates (op : BoolOp) {rs : List Expr} {texts : List String}
    (h : List.Forall₂ (fun r sql => c.predicate r = .ok (some sql)) rs texts) :
    c.conditions op rs = .ok (some texts) := by
  induction h with
  | nil => rfl
  | cons hr _ ih =>
    obtain ⟨v, hv, hx⟩ := bind_eq_ok hr
    rw [conditions, hv]
    simp only [bind, Except.bind, hx, ih]
    rfl

/-- Either a true operand makes a disjunction true, or the conditions are those of what is left of
the operands. -/
theorem leaves_conditions {d : Context} {op : BoolOp} {es : List Expr}
    {answer : Option (List String)}
    (hes : ∀ e ∈ es, ∀ x, c.predicate e = .ok x → Leaves d (m.remainder? e) x)
    (h : c.conditions op es = .ok answer) :
    (op = .or ∧ none ∈ m.remainders es ∧ answer = none) ∨
    ((op = .or → none ∉ m.remainders es) ∧ ∃ texts, answer = some texts ∧
      List.Forall₂ (fun r sql => d.predicate r = .ok (some sql))
        (m.remainders es).reduceOption texts) := by
  induction es generalizing answer with
  | nil =>
    cases h
    exact .inr ⟨fun _ => by simp [Membership.remainders], [], rfl, .nil⟩
  | cons e es ih =>
    obtain ⟨he, hes⟩ := List.forall_mem_cons.1 hes
    rw [conditions] at h
    obtain ⟨v, hv, h⟩ := bind_eq_ok h
    obtain ⟨x, hx, h⟩ := bind_eq_ok h
    have hleaves := he x (predicate_eq_ok hv hx)
    rw [Membership.remainders]
    cases hr : m.remainder? e with
    | none =>
      cases x with
      | some sql => simp [hr, Leaves] at hleaves
      | none =>
        -- Nothing is left of the operand: a disjunction ends here, a conjunction goes on without it.
        dsimp only at h
        split at h
        · cases h
          exact .inl ⟨‹_›, List.mem_cons_self, rfl⟩
        · rename_i hand
          rcases ih hes h with ⟨hor, -⟩ | ⟨-, texts, rfl, hrest⟩
          · exact absurd hor hand
          · exact .inr ⟨fun hor => absurd hor hand, texts, rfl, by simpa using hrest⟩
    | some r =>
      cases x with
      | none => simp [hr, Leaves] at hleaves
      | some sql =>
        obtain ⟨rest, hconditions, h⟩ := bind_eq_ok h
        cases h
        rw [hr] at hleaves
        rcases ih hes hconditions with ⟨hor, hmem, rfl⟩ | ⟨hor, texts, rfl, hrest⟩
        · exact .inl ⟨hor, List.mem_cons_of_mem _ hmem, rfl⟩
        · refine .inr ⟨fun h => by simpa using hor h, sql :: texts, rfl, ?_⟩
          rw [List.reduceOption_cons_of_some]
          exact .cons hleaves hrest

theorem leaves_connected {op : BoolOp} {rs : List Expr} {texts : List String} {x : Option String}
    {whole : Expr} {d : Context}
    (h : List.Forall₂ (fun r sql => c.predicate r = .ok (some sql)) rs texts)
    (hx : d.conditionOf whole (connected op texts) = .ok x) :
    Leaves c (Expr.ofOperands? op rs) x := by
  have hconditions := conditions_of_predicates op h
  rcases h with _ | ⟨hr, _ | ⟨hs, hrest⟩⟩
  · cases hx
    trivial
  · cases hx
    exact hr
  · cases hx
    refine predicate_eq_ok (v := connected op (_ :: _ :: _)) ?_ rfl
    rw [eval, hconditions]
    rfl

theorem leaves_predicate {p : Expr} (h : m.Combines p) {x : Option String}
    (hx : (c.guaranteeing (some m)).predicate p = .ok x) :
    Leaves (c.guaranteeing none) (m.remainder? p) x := by
  induction h generalizing x with
  | @test e h =>
    obtain ⟨v, hv, hx⟩ := bind_eq_ok hx
    have hguaranteed : (c.guaranteeing (some m)).isGuaranteed e = true := h
    rw [eval_of_isGuaranteed hguaranteed] at hv
    cases hv
    cases hx
    rw [Membership.remainder_of_isTest h]
    trivial
  | @free e hatom h =>
    obtain ⟨v, hv, hx⟩ := bind_eq_ok hx
    have htest := Membership.isTest_of_not_occursIn h
    rw [Membership.remainder_of_not_isTest hatom htest]
    have hsatisfied : v ≠ .satisfied := by
      rintro rfl
      have hguaranteed := isGuaranteed_of_eval hatom hv
      exact absurd hguaranteed (by simp [isGuaranteed, guaranteeing, htest])
    obtain ⟨sql, hsql, rfl⟩ := exists_sql_of_conditionOf hx
    rw [isSatisfied_eq_false hsatisfied] at hx ⊢
    rw [eval_guaranteeing h] at hv
    have hroot : (c.guaranteeing (some m)).rootOf = (c.guaranteeing none).rootOf := rfl
    rw [conditionOf_congr hroot] at hx
    exact predicate_eq_ok hv hx
  | connective op _ ih =>
    obtain ⟨v, hv, hx⟩ := bind_eq_ok hx
    rw [eval] at hv
    obtain ⟨answer, hanswer, hv⟩ := bind_eq_ok hv
    rw [Membership.remainder?]
    rcases leaves_conditions (fun e he x => ih e he) hanswer with
      ⟨rfl, hmem, rfl⟩ | ⟨hor, texts, rfl, hrest⟩
    · cases hv
      cases hx
      rw [if_pos (by simpa using hmem)]
      trivial
    · cases hv
      rw [if_neg (by simpa using hor)]
      exact leaves_connected hrest hx

/-- Where a test is guaranteed, the predicate of a condition is the SQL for what is left of it when
the test is true. -/
theorem predicate_guaranteeing {p : Expr} (h : m.Combines p) {x : Option String}
    (hx : (c.guaranteeing (some m)).predicate p = .ok x) :
    (x = none ↔ m.remainder? p = none) ∧ ∀ r, m.remainder? p = some r →
      ∃ sql, x = some sql ∧ (c.guaranteeing none).compile r = .ok sql := by
  have hleaves := leaves_predicate h hx
  cases hr : m.remainder? p with
  | none =>
    cases x with
    | none => simp
    | some sql => simp [hr, Leaves] at hleaves
  | some r =>
    cases x with
    | none => simp [hr, Leaves] at hleaves
    | some sql =>
      rw [hr] at hleaves
      obtain ⟨v, hv, hcondition⟩ := bind_eq_ok hleaves
      refine ⟨by simp, ?_⟩
      rintro _ ⟨⟩
      exact ⟨sql, rfl, compile_eq_ok hv (sqlOf_of_conditionOf hcondition)⟩

theorem predicate_guaranteeing_nested : ∃ p r : Expr,
    let m : Membership := ⟨"v", .attr (.name "person") "xs"⟩
    let c := Context.of "person" .empty (.ofNames ["person"])
    Expr.parse "(a or v in person.xs) and (v in person.xs and person.b == 1) and (c or d)" = .ok p ∧
    Expr.parse "person.b == 1 and (c or d)" = .ok r ∧ m.Combines p ∧ m.remainder? p = some r ∧
    (c.guaranteeing (some m)).predicate p =
      .ok (some "((json_extract(json_data, '$.b') = 1) AND (c OR d))") ∧
    (c.guaranteeing none).compile r = .ok "((json_extract(json_data, '$.b') = 1) AND (c OR d))" := by
  let m : Membership := ⟨"v", .attr (.name "person") "xs"⟩
  let c := Context.of "person" .empty (.ofNames ["person"])
  let test : Expr := .compare (.name "v") [.elemOf] [.attr (.name "person") "xs"]
  let equality : Expr := .compare (.attr (.name "person") "b") [.eq] [.literal (.int 1)]
  let either : Expr := .boolean .or [.name "c", .name "d"]
  let p : Expr := .boolean .and [.boolean .or [.name "a", test], .boolean .and [test, equality], either]
  have hx : (c.guaranteeing (some m)).predicate p =
      .ok (some "((json_extract(json_data, '$.b') = 1) AND (c OR d))") := by cbv
  have hrest : Expr.parse "person.b == 1 and (c or d)" =
      .ok (.boolean .and [equality, either]) := by cbv
  have hparse : Expr.parse "(a or v in person.xs) and (v in person.xs and person.b == 1) and (c or d)" =
      .ok p := by cbv
  have htest : m.Combines test := .test rfl
  have hname : ∀ id, m.Combines (.name id) := fun id => .free rfl rfl
  have hequality : m.Combines equality := .free rfl rfl
  have hp : m.Combines p := by
    refine .connective .and ?_
    simp only [List.forall_mem_cons, List.not_mem_nil, false_imp_iff, implies_true, and_true]
    exact ⟨.connective .or (by simp [hname, htest]), .connective .and (by simp [htest, hequality]),
      .connective .or (by simp [hname])⟩
  have hremainder : m.remainder? p = some (.boolean .and [equality, either]) := rfl
  obtain ⟨_, ⟨⟩, hsql⟩ := (predicate_guaranteeing hp hx).2 _ hremainder
  exact ⟨p, _, hparse, hrest, hp, hremainder, hx, hsql⟩

end Sql

end DocQuery
