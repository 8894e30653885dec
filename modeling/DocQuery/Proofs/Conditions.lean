import DocQuery.Proofs.Evaluation
import DocQuery.Proofs.Parsed

/-! # What conditions say

A condition is built with connectives from conditions that have none. Whether it holds depends only
on those, and the SQL for it says the same, up to the tests that the statement guarantees.

* `Expr.Atom`, `Expr.Holds`: the conditions that a condition is built from, and whether it holds.
* `Sql.Writes`: a text that spells out the connectives of a condition.
* `Parsed.means`: the predicate of a condition says what the condition says.
-/

set_option autoImplicit false

namespace DocQuery

namespace Expr

/-- Whether an expression connects conditions. -/
def isConnective : Expr → Bool
  | boolean .. => true
  | _ => false

/-- `x.Atom e`: the condition `e` is built from `x`, which is not built from others itself. -/
inductive Atom (x : Expr) : Expr → Prop
  | self (h : x.isConnective = false) : Atom x x
  | operand {op : BoolOp} {operands : List Expr} {e : Expr} (he : e ∈ operands) (h : Atom x e) :
      Atom x (.boolean op operands)

/-- The condition holds where `truth` says which of the conditions do that it is built from. -/
inductive Holds (truth : Expr → Prop) : Expr → Prop
  | atom {e : Expr} (h : e.isConnective = false) (ht : truth e) : Holds truth e
  | all {operands : List Expr} (h : ∀ e ∈ operands, Holds truth e) :
      Holds truth (.boolean .and operands)
  | any {operands : List Expr} {e : Expr} (he : e ∈ operands) (h : Holds truth e) :
      Holds truth (.boolean .or operands)

variable {truth truth' : Expr → Prop} {e : Expr} {es operands : List Expr} {op : BoolOp}

theorem holds_atom (h : e.isConnective = false) : e.Holds truth ↔ truth e := by
  refine ⟨fun hholds => ?_, .atom h⟩
  cases hholds with
  | atom _ ht => exact ht
  | all => cases h
  | any => cases h

theorem holds_and : (boolean .and operands).Holds truth ↔ ∀ e ∈ operands, e.Holds truth := by
  refine ⟨fun hholds => ?_, .all⟩
  cases hholds with
  | atom h => cases h
  | all h => exact h

theorem holds_or : (boolean .or operands).Holds truth ↔ ∃ e ∈ operands, e.Holds truth := by
  refine ⟨fun hholds => ?_, fun ⟨e, he, h⟩ => .any he h⟩
  cases hholds with
  | atom h => cases h
  | any he h => exact ⟨_, he, h⟩

theorem holds_singleton : (boolean op [e]).Holds truth ↔ e.Holds truth := by
  cases op with
  | and => simp [holds_and]
  | or => simp [holds_or]

/-- Operands that say the same can stand for each other. -/
theorem holds_cons_congr {x : Expr} {xs : List Expr} (h : x.Holds truth ↔ e.Holds truth)
    (hs : (boolean op xs).Holds truth ↔ (boolean op es).Holds truth) :
    (boolean op (x :: xs)).Holds truth ↔ (boolean op (e :: es)).Holds truth := by
  cases op with
  | and =>
    rw [holds_and, holds_and] at hs
    simp [holds_and, h, hs]
  | or =>
    rw [holds_or, holds_or] at hs
    simp [holds_or, h, hs]

/-- Connectives do not negate: a condition goes on holding where more of its atoms hold. -/
theorem Holds.mono (h : e.Holds truth) (hle : ∀ x : Expr, x.Atom e → truth x → truth' x) :
    e.Holds truth' := by
  induction h with
  | atom h ht => exact .atom h (hle _ (.self h) ht)
  | all _ ih => exact .all fun e he => ih e he fun x hx => hle x (.operand he hx)
  | any he _ ih => exact .any he (ih fun x hx => hle x (.operand he hx))

/-! ## Nodes -/

theorem mem_nodesOfAll {x : Expr} : x ∈ nodesOfAll es ↔ ∃ e ∈ es, x ∈ e.nodes := by
  induction es with
  | nil => simp [nodesOfAll]
  | cons e es ih => simp [nodesOfAll, ih]

theorem mem_nodes_self (e : Expr) : e ∈ e.nodes := by
  cases e <;> simp [nodes]

theorem Atom.mem_nodes {x : Expr} (h : x.Atom e) : x ∈ e.nodes := by
  induction h with
  | self => exact mem_nodes_self x
  | operand he _ ih =>
    rw [nodes]
    exact List.mem_cons_of_mem _ (mem_nodesOfAll.2 ⟨_, he, ih⟩)

end Expr

namespace Sql

/-- `Writes c e sql`: the text `sql` spells out the connectives of `e` and has the SQL for the
conditions that `e` is built from, none of which is guaranteed. -/
inductive Writes (c : Context) : Expr → String → Prop
  | atom {e : Expr} {sql : String} (h : e.isConnective = false) (free : c.isGuaranteed e = false)
      (hs : c.compile e = .ok sql) : Writes c e sql
  | connected (op : BoolOp) (parts : List (Expr × String)) (several : 2 ≤ parts.length)
      (h : ∀ p ∈ parts, Writes c p.1 p.2) :
      Writes c (.boolean op (parts.map (·.1)))
        ("(" ++ (" " ++ connective op ++ " ").intercalate (parts.map (·.2)) ++ ")")

/-- A predicate is the text for a condition; no predicate stands for no condition. -/
def WritesOption (c : Context) : Option Expr → Option String → Prop
  | some e, some sql => Writes c e sql
  | none, none => True
  | _, _ => False

/-- What is guaranteed is true. -/
def Context.Grants (c : Context) (truth : Expr → Prop) : Prop :=
  ∀ t, c.isGuaranteed t = true → truth t

/-- The predicate `p` says what `e` says, wherever the guaranteed test holds. -/
def Means (c : Context) (e : Expr) (p : Option String) : Prop :=
  ∃ condition : Option Expr, WritesOption c condition p ∧
    ∀ truth, c.Grants truth → ((∀ x ∈ condition, x.Holds truth) ↔ e.Holds truth)

/-- The texts say under a connective what the operands say; a disjunction without texts holds. -/
def MeansAll (c : Context) (op : BoolOp) (operands : List Expr) : Option (List String) → Prop
  | some texts => ∃ parts : List (Expr × String), parts.map (·.2) = texts ∧
      (∀ p ∈ parts, Writes c p.1 p.2) ∧ (op = .or → parts.length = operands.length) ∧
      ∀ truth, c.Grants truth →
        ((Expr.boolean op (parts.map (·.1))).Holds truth ↔ (Expr.boolean op operands).Holds truth)
  | none => op = .or ∧ ∀ truth, c.Grants truth → (Expr.boolean .or operands).Holds truth

variable {c : Context} {e : Expr}

/-! ## Conditions that are guaranteed -/

theorem eval_of_isGuaranteed (h : c.isGuaranteed e = true) : c.eval e = .ok .satisfied := by
  have hparts : e.membershipParts? ≠ none := by
    intro hnone
    simp [Context.isGuaranteed, Membership.isTest, hnone] at h
  rw [Expr.membershipParts?.eq_def] at hparts
  split at hparts
  · rw [Context.eval.eq_def]
    dsimp only
    rw [if_pos h]
  · exact absurd rfl hparts

theorem attributeOf_ne_satisfied {whole : Expr} {label : String} {v : Value} :
    c.attributeOf whole label v ≠ .ok .satisfied := by
  intro h
  rw [Context.attributeOf.eq_def] at h
  split at h
  · cases h
  · cases h
  · split at h <;> cases h
  · cases h
  · cases h
  · cases h

theorem itemOf_ne_satisfied {whole index : Expr} {v : Value} :
    Context.itemOf whole index v ≠ .ok .satisfied := by
  intro h
  rw [Context.itemOf.eq_def] at h
  split at h
  · split at h <;> cases h
  · cases h

theorem named_ne_satisfied {id : String} : c.named id ≠ .satisfied := by
  intro h
  rw [Context.named] at h
  split at h <;> cases h

/-- Beside connectives, only the guaranteed test is satisfied. -/
theorem isGuaranteed_of_eval (hatom : e.isConnective = false) (h : c.eval e = .ok .satisfied) :
    c.isGuaranteed e = true := by
  cases e with
  | literal => cases h
  | name id => exact absurd (Except.ok.inj h) named_ne_satisfied
  | attr value label =>
    obtain ⟨v, -, h⟩ := bind_eq_ok h
    exact absurd h attributeOf_ne_satisfied
  | subscript value index =>
    obtain ⟨v, -, h⟩ := bind_eq_ok h
    exact absurd h itemOf_ne_satisfied
  | binary left op right =>
    rw [Context.eval] at h
    obtain ⟨v, -, h⟩ := bind_eq_ok h
    obtain ⟨l, -, h⟩ := bind_eq_ok h
    obtain ⟨w, -, h⟩ := bind_eq_ok h
    obtain ⟨r, -, h⟩ := bind_eq_ok h
    split at h <;> cases h
  | unary op operand =>
    rw [Context.eval] at h
    split at h
    · cases h
    · split at h
      · obtain ⟨v, -, h⟩ := bind_eq_ok h
        obtain ⟨sql, -, h⟩ := bind_eq_ok h
        cases h
      · obtain ⟨v, -, h⟩ := bind_eq_ok h
        unfold Context.signedOf at h
        split at h
        · cases h
        · obtain ⟨sql, -, h⟩ := bind_eq_ok h
          cases h
  | compare left ops operands =>
    cases compared_of_eval h with
    | guaranteed h => exact h
  | boolean => cases hatom
  | conditional test body otherwise =>
    rw [Context.eval] at h
    obtain ⟨v, -, h⟩ := bind_eq_ok h
    obtain ⟨t, -, h⟩ := bind_eq_ok h
    obtain ⟨w, -, h⟩ := bind_eq_ok h
    obtain ⟨b, -, h⟩ := bind_eq_ok h
    obtain ⟨u, -, h⟩ := bind_eq_ok h
    obtain ⟨o, -, h⟩ := bind_eq_ok h
    cases h
  | call callee args keywords =>
    cases called_of_eval h with
    | quantified hq => cases quantified_of_answer hq
  | list items =>
    obtain ⟨texts, -, h⟩ := bind_eq_ok h
    cases h
  | tuple items =>
    obtain ⟨texts, -, h⟩ := bind_eq_ok h
    cases h
  | _ => simp [Context.eval] at h

/-! ## Predicates -/

theorem means_atom (hatom : e.isConnective = false) {p : Option String}
    (h : c.predicate e = .ok p) : Means c e p := by
  obtain ⟨v, hv, h⟩ := bind_eq_ok h
  cases hg : c.isGuaranteed e with
  | true =>
    cases hv.symm.trans (eval_of_isGuaranteed hg)
    cases h
    refine ⟨none, trivial, fun truth hgrants => ?_⟩
    simp [Expr.holds_atom hatom, hgrants e hg]
  | false =>
    cases v with
    | satisfied => simp [isGuaranteed_of_eval hatom hv] at hg
    | _ =>
      obtain ⟨sql, hsql, rfl⟩ := map_eq_ok h
      exact ⟨some e, .atom hatom hg (compile_eq_ok hv hsql), fun truth _ => by simp⟩

theorem means_conditions {op : BoolOp} {es : List Expr}
    (hes : ∀ e ∈ es, ∀ p, c.predicate e = .ok p → Means c e p) {texts : Option (List String)}
    (h : c.conditions op es = .ok texts) : MeansAll c op es texts := by
  -- On the operands: a satisfied one decides a disjunction and leaves a conjunction as it is.
  induction es generalizing texts with
  | nil =>
    cases h
    exact ⟨[], rfl, by simp, fun _ => rfl, fun _ _ => Iff.rfl⟩
  | cons e es ih =>
    replace ih := @ih fun x hx => hes x (List.mem_cons_of_mem _ hx)
    rw [Context.conditions] at h
    obtain ⟨v, hv, h⟩ := bind_eq_ok h
    obtain ⟨p, hp, h⟩ := bind_eq_ok h
    have hpredicate : c.predicate e = .ok p := by
      rw [Context.predicate, hv]
      exact hp
    obtain ⟨condition, hwrites, hmeans⟩ := hes e List.mem_cons_self p hpredicate
    cases p with
    | some sql =>
      cases condition with
      | none => cases hwrites
      | some x =>
        have hx : Writes c x sql := hwrites
        have hsame : ∀ truth, c.Grants truth → (x.Holds truth ↔ e.Holds truth) := by
          simpa using hmeans
        obtain ⟨rest, hrest, h⟩ := bind_eq_ok h
        cases h
        cases rest with
        | none =>
          obtain ⟨rfl, hholds⟩ := ih hrest
          refine ⟨rfl, fun truth hgrants => ?_⟩
          obtain ⟨y, hy, hyholds⟩ := Expr.holds_or.1 (hholds truth hgrants)
          exact .any (List.mem_cons_of_mem _ hy) hyholds
        | some texts =>
          obtain ⟨parts, rfl, hparts, hlength, hholds⟩ := ih hrest
          refine ⟨(x, sql) :: parts, rfl, ?_, ?_, fun truth hgrants => ?_⟩
          · simpa [hx] using hparts
          · exact fun hop => by simp [hlength hop]
          · exact Expr.holds_cons_congr (hsame truth hgrants) (hholds truth hgrants)
    | none =>
      cases condition with
      | some x => cases hwrites
      | none =>
        have hholds : ∀ truth, c.Grants truth → e.Holds truth := by
          simpa using hmeans
        cases op with
        | or =>
          cases h
          exact ⟨rfl, fun truth hgrants => .any List.mem_cons_self (hholds truth hgrants)⟩
        | and =>
          have hrest := ih (show c.conditions .and es = .ok texts from h)
          cases texts with
          | none => cases hrest.1
          | some texts =>
            obtain ⟨parts, rfl, hparts, -, hall⟩ := hrest
            refine ⟨parts, rfl, hparts, by simp, fun truth hgrants => ?_⟩
            rw [hall truth hgrants]
            simp [Expr.holds_and, hholds truth hgrants]

theorem means_boolean {op : BoolOp} {operands : List Expr} (hne : operands ≠ [])
    (hes : ∀ e ∈ operands, ∀ p, c.predicate e = .ok p → Means c e p) {p : Option String}
    (h : c.predicate (.boolean op operands) = .ok p) : Means c (.boolean op operands) p := by
  obtain ⟨v, hv, h⟩ := bind_eq_ok h
  rw [Context.eval] at hv
  obtain ⟨texts, htexts, hv⟩ := bind_eq_ok hv
  have hall := means_conditions hes htexts
  cases texts with
  | none =>
    cases hv
    cases h
    obtain ⟨rfl, hholds⟩ := hall
    exact ⟨none, trivial, fun truth hgrants => by simp [hholds truth hgrants]⟩
  | some texts =>
    cases hv
    obtain ⟨parts, rfl, hparts, hlength, hholds⟩ := hall
    rcases parts with _ | ⟨⟨x, sql⟩, _ | ⟨second, others⟩⟩
    · cases h
      refine ⟨none, trivial, fun truth hgrants => ?_⟩
      cases op with
      | and => simp [← hholds truth hgrants, Expr.holds_and]
      -- Nothing vanishes from a disjunction, and this one has operands.
      | or => exact absurd (List.length_eq_zero_iff.1 (hlength rfl).symm) hne
    · cases h
      refine ⟨some x, hparts (x, sql) List.mem_cons_self, fun truth hgrants => ?_⟩
      rw [← hholds truth hgrants]
      simp [Expr.holds_singleton]
    · cases h
      refine ⟨some (.boolean op (((x, sql) :: second :: others).map (·.1))), ?_,
        fun truth hgrants => ?_⟩
      · exact .connected op ((x, sql) :: second :: others) (by simp) hparts
      · rw [← hholds truth hgrants]
        simp

end Sql

open Sql in
/-- The predicate of a tree of the grammar says what the tree says. -/
theorem Parsed.means {c : Context} {e : Expr} (h : Parsed e) {p : Option String}
    (hp : c.predicate e = .ok p) : Means c e p := by
  induction h generalizing p with
  | boolean op first second others _ ih =>
    exact means_boolean (List.cons_ne_nil _ _) (fun e he p hp => ih e he hp) hp
  | _ => exact means_atom rfl hp

/-! ## Membership tests -/

section Membership

variable {base : String} {scope : Scope} {e : Expr} {m : Membership}

theorem Parsed.operands {op : BoolOp} {operands : List Expr} (h : Parsed (.boolean op operands)) :
    ∀ e ∈ operands, Parsed e := by
  cases h with
  | boolean _ _ _ _ operands => exact operands

theorem Parsed.atom {x : Expr} (h : Parsed e) (hx : x.Atom e) : Parsed x := by
  induction hx with
  | self => exact h
  | operand he _ ih => exact ih (h.operands _ he)

theorem exists_of_membershipAmong {es : List Expr}
    (hm : Expr.membershipAmong? base scope es = some m) :
    ∃ e ∈ es, e.membership? base scope = some m := by
  induction es with
  | nil => cases hm
  | cons e es ih =>
    rw [Expr.membershipAmong?] at hm
    simp only [Option.orElse_eq_orElse, Option.orElse_eq_or, Option.or_eq_some_iff] at hm
    obtain hm | ⟨-, hm⟩ := hm
    · exact ⟨e, List.mem_cons_self, hm⟩
    · obtain ⟨x, hx, hm⟩ := ih hm
      exact ⟨x, List.mem_cons_of_mem _ hx, hm⟩

/-- A membership test that is found is one of the conditions that an expression is built from. -/
theorem Parsed.atom_of_membership (h : Parsed e) (hm : e.membership? base scope = some m) :
    ∃ x : Expr, x.Atom e ∧ x.asMembership? base scope = some m := by
  induction h with
  | boolean op first second others _ ih =>
    rw [Expr.membership?] at hm
    obtain ⟨e, he, hm⟩ := exists_of_membershipAmong hm
    obtain ⟨x, hx, hm⟩ := ih e he hm
    exact ⟨x, .operand he hx, hm⟩
  | _ => exact ⟨_, .self rfl, hm⟩

end Membership

end DocQuery
