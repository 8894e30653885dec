import DocQuery.Proofs.Joins
import DocQuery.Proofs.Recovery

/-! # What nesting leaves alone

Nesting connectives to the right moves no operand past another and touches nothing else, so whatever
is recognized without a look at the shape of connectives is recognized as before.

* `Expr.chain_nest`, `Expr.nest_of_chain`: a chain of attributes is its own nested form.
* `Expr.membershipParts_nest`, `Expr.joinCondition_nest`: a membership test or an equality of
  handles is recognized in the nested form too.
* `Expr.filterMap_nodes_nest`: the nodes that are no connectives come in the same order.
-/

set_option autoImplicit false

namespace DocQuery.Expr

/-! ## Shapes -/

/-- The nested form of a connective is a connective. -/
theorem exists_rightNested (op : BoolOp) (es : List Expr) :
    ∃ operands, rightNested op es = boolean op operands := by
  unfold rightNested
  split <;> exact ⟨_, rfl⟩

/-- What is the same for all connectives is the same for a nested one. -/
theorem apply_nest_boolean {β : Type} (f : Expr → β)
    (hf : ∀ op operands operands', f (boolean op operands) = f (boolean op operands'))
    (op : BoolOp) (operands : List Expr) :
    f (boolean op operands).nest = f (boolean op operands) := by
  obtain ⟨es, hes⟩ := exists_rightNested op (nestAll operands)
  rw [nest, hes]
  exact hf op es operands

theorem asName_nest (e : Expr) : e.nest.asName? = e.asName? := by
  cases e with
  | boolean op operands => exact apply_nest_boolean asName? (fun _ _ _ => rfl) op operands
  | _ => rfl

theorem isNumber_nest (e : Expr) : e.nest.isNumber = e.isNumber := by
  cases e with
  | boolean op operands => exact apply_nest_boolean isNumber (fun _ _ _ => rfl) op operands
  | _ => rfl

theorem comprehensionParts_nest (e : Expr) :
    e.nest.comprehensionParts? =
      e.comprehensionParts?.map fun p => (p.1.nest, nestClauses p.2) := by
  cases e with
  | boolean op operands =>
    exact apply_nest_boolean comprehensionParts? (fun _ _ _ => rfl) op operands
  | _ => rfl

theorem nest_eq_name {e : Expr} {id : String} : e.nest = name id ↔ e = name id := by
  have h : ∀ {e : Expr}, e = name id ↔ e.asName? = some id := by
    intro e
    cases e <;> simp [asName?]
  rw [h, h, asName_nest]

theorem segment_nest (e : Expr) : Sql.segment? e.nest = Sql.segment? e := by
  cases e with
  | boolean op operands => exact apply_nest_boolean Sql.segment? (fun _ _ _ => rfl) op operands
  | unary sign operand =>
    cases operand with
    | boolean op operands =>
      exact apply_nest_boolean (fun e => Sql.segment? (unary sign e))
        (fun _ _ _ => by cases sign <;> rfl) op operands
    | _ => cases sign <;> rfl
  | _ => rfl

/-! ## Chains of attributes -/

theorem nest_of_chain {e : Expr} (h : e.chain?.isSome = true) : e.nest = e := by
  fun_induction chain? e with
  | case1 root label => rfl
  | case2 value label hname ih =>
    rw [Option.isSome_map] at h
    rw [nest, ih h]
  | case3 => cases h

theorem chain_nest (e : Expr) : e.nest.chain? = e.chain? := by
  fun_induction chain? e with
  | case1 root label => rfl
  | case2 value label hname ih =>
    rw [nest, chain?, ih]
    exact fun root hroot => hname root (nest_eq_name.1 hroot)
  | case3 e hname hattr =>
    cases e with
    | attr value label => exact absurd rfl (hattr value label)
    | boolean op operands => exact apply_nest_boolean chain? (fun _ _ _ => rfl) op operands
    | _ => rfl

theorem tableField_nest (tables : Tables) (e : Expr) :
    e.nest.tableField? tables = e.tableField? tables := by
  rw [tableField?, chain_nest, tableField?]

/-! ## Comparisons -/

theorem joinCondition_nest (tables : Tables) (e : Expr) :
    e.nest.joinCondition? tables = e.joinCondition? tables := by
  cases e with
  | boolean op operands =>
    exact apply_nest_boolean (joinCondition? tables) (fun _ _ _ => rfl) op operands
  | compare left ops operands =>
    by_cases hops : ops = [.eq]
    · subst hops
      cases operands with
      | nil => rfl
      | cons right rest => simp only [nest, nestAll, joinCondition?, tableField_nest]
    · rw [nest, joinCondition?.eq_2, joinCondition?.eq_2] <;> simp [hops]
  | _ => rfl

/-- The array of a membership test is a chain, which is its own nested form. -/
theorem membershipParts_nest (e : Expr) : e.nest.membershipParts? = e.membershipParts? := by
  cases e with
  | boolean op operands => exact apply_nest_boolean membershipParts? (fun _ _ _ => rfl) op operands
  | compare left ops operands =>
    by_cases htest : (∃ id, left = name id) ∧ ops = [.elemOf]
    · obtain ⟨⟨id, rfl⟩, rfl⟩ := htest
      cases operands with
      | nil => rfl
      | cons array rest =>
        simp only [nest, nestAll, membershipParts?, chain_nest]
        split
        · rw [nest_of_chain ‹_›]
        · rfl
    · have hnone : ∀ l os, (∀ id, l = name id → left = name id) →
          (compare l ops os).membershipParts? = none := by
        intro l os hl
        rw [membershipParts?.eq_2]
        intro id array rest heq
        cases heq
        exact htest ⟨⟨id, hl id rfl⟩, rfl⟩
      rw [nest, hnone _ _ fun id h => nest_eq_name.1 h, hnone _ _ fun id h => h]
  | _ => rfl

theorem asMembership_nest (base : String) (scope : Scope) (e : Expr) :
    e.nest.asMembership? base scope = e.asMembership? base scope := by
  rw [asMembership?, membershipParts_nest, asMembership?]

theorem isTest_nest (m : Membership) (e : Expr) : m.isTest e.nest = m.isTest e := by
  rw [Membership.isTest, membershipParts_nest, Membership.isTest]

theorem referencedTable_nest (base : String) (tables : Tables) (e : Expr) :
    e.nest.referencedTable? base tables = e.referencedTable? base tables := by
  cases e with
  | boolean op operands =>
    exact apply_nest_boolean (referencedTable? base tables) (fun _ _ _ => rfl) op operands
  | attr value label =>
    cases value with
    | boolean op operands =>
      exact apply_nest_boolean (fun e => referencedTable? base tables (attr e label))
        (fun _ _ _ => rfl) op operands
    | _ => rfl
  | _ => rfl

theorem isSome_quantifierCall_nest (e : Expr) :
    e.nest.quantifierCall?.isSome = e.quantifierCall?.isSome := by
  cases e with
  | boolean op operands =>
    exact apply_nest_boolean (fun e => e.quantifierCall?.isSome) (fun _ _ _ => rfl) op operands
  | call callee args keywords =>
    rw [nest]
    cases callee with
    | name id =>
      rcases args with _ | ⟨argument, _ | ⟨second, others⟩⟩
      · rfl
      · rcases keywords with _ | ⟨k, ks⟩
        · simp only [nest, nestAll, nestKeywords, quantifierCall?, comprehensionParts_nest]
          rcases argument.comprehensionParts? with
            _ | ⟨element, _ | ⟨⟨target, array, conditions⟩, _ | ⟨clause, clauses⟩⟩⟩
          · rfl
          · rfl
          · simp only [Option.map_some, nestClauses, chain_nest]
            split <;> rfl
          · rfl
        · rfl
      · rfl
    | boolean op operands =>
      exact apply_nest_boolean (fun e => (call e _ _).quantifierCall?.isSome) (fun _ _ _ => rfl) op
        operands
    | _ => rfl
  | _ => rfl

/-! ## Operands of connectives -/

theorem membership_rightNested (base : String) (scope : Scope) (op : BoolOp) (es : List Expr) :
    (rightNested op es).membership? base scope = membershipAmong? base scope es := by
  fun_induction rightNested op es with
  | case1 a b c more ih =>
    rw [membership?, membershipAmong?, membershipAmong?, ih]
    simp [membershipAmong?]
  | case2 operands => rw [membership?]

theorem membershipAmong_nest {base : String} {scope : Scope} {es : List Expr}
    (h : ∀ e ∈ es, e.nest.membership? base scope = e.membership? base scope) :
    membershipAmong? base scope (nestAll es) = membershipAmong? base scope es := by
  induction es with
  | nil => rfl
  | cons e es ih =>
    rw [nestAll, membershipAmong?, membershipAmong?, h e List.mem_cons_self,
      ih fun e he => h e (List.mem_cons_of_mem _ he)]

theorem membership_of_atom {e : Expr} (h : e.isConnective = false) (base : String) (scope : Scope) :
    e.membership? base scope = e.asMembership? base scope := by
  cases e with
  | boolean => cases h
  | _ => rfl

theorem membership_nest {e : Expr} (h : Parsed e) (base : String) (scope : Scope) :
    e.nest.membership? base scope = e.membership? base scope := by
  induction h with
  | boolean op first second others _ ih =>
    rw [nest, membership_rightNested, membershipAmong_nest ih, membership?]
  | _ => rw [membership_of_atom, membership_of_atom, asMembership_nest] <;> rfl

/-! ## Nodes -/

/-- What is looked for is no connective, and nesting does not change it. -/
structure Overlooks {β : Type} (f : Expr → Option β) : Prop where
  nest : ∀ e : Expr, f e.nest = f e
  boolean : ∀ op operands, f (boolean op operands) = none

theorem overlooks_referencedTable (base : String) (tables : Tables) :
    Overlooks (referencedTable? base tables) :=
  ⟨referencedTable_nest base tables, fun _ _ => rfl⟩

theorem overlooks_isTest (m : Membership) :
    Overlooks fun e => if m.isTest e then some () else none :=
  ⟨fun e => by rw [isTest_nest], fun _ _ => rfl⟩

section Nodes

variable {β : Type} {f : Expr → Option β}

theorem Overlooks.cons (h : Overlooks f) (e : Expr) {xs ys : List Expr}
    (hxs : xs.filterMap f = ys.filterMap f) :
    (e.nest :: xs).filterMap f = (e :: ys).filterMap f := by
  rw [List.filterMap_cons, List.filterMap_cons, h.nest, hxs]

theorem filterMap_append_congr {xs xs' ys ys' : List Expr}
    (hxs : xs.filterMap f = xs'.filterMap f) (hys : ys.filterMap f = ys'.filterMap f) :
    (xs ++ ys).filterMap f = (xs' ++ ys').filterMap f := by
  rw [List.filterMap_append, List.filterMap_append, hxs, hys]

theorem filterMap_nodes_rightNested (h : Overlooks f) (op : BoolOp) (es : List Expr) :
    (rightNested op es).nodes.filterMap f = (nodesOfAll es).filterMap f := by
  fun_induction rightNested op es with
  | case1 a b c more ih =>
    simp only [nodes, nodesOfAll, List.filterMap_cons_none (h.boolean _ _), List.filterMap_append,
      List.append_nil, ih]
  | case2 operands => rw [nodes, List.filterMap_cons_none (h.boolean _ _)]

mutual

/-- The nodes that are no connectives come in the same order. -/
theorem filterMap_nodes_nest (h : Overlooks f) :
    (e : Expr) → e.nest.nodes.filterMap f = e.nodes.filterMap f
  | lambda params rest named body =>
    h.cons (lambda params rest named body) (filterMap_nodes_nest h body)
  | literal l => rfl
  | name id => rfl
  | attr value label => h.cons (attr value label) (filterMap_nodes_nest h value)
  | binary left op right =>
    h.cons (binary left op right)
      (filterMap_append_congr (filterMap_nodes_nest h left) (filterMap_nodes_nest h right))
  | unary op operand => h.cons (unary op operand) (filterMap_nodes_nest h operand)
  | compare left ops operands =>
    h.cons (compare left ops operands)
      (filterMap_append_congr (filterMap_nodes_nest h left) (filterMap_nodesOfAll_nest h operands))
  | boolean op operands => by
    rw [nest, filterMap_nodes_rightNested h, filterMap_nodesOfAll_nest h operands, nodes,
      List.filterMap_cons_none (h.boolean _ _)]
  | conditional test body otherwise =>
    h.cons (conditional test body otherwise)
      (filterMap_append_congr
        (filterMap_append_congr (filterMap_nodes_nest h test) (filterMap_nodes_nest h body))
        (filterMap_nodes_nest h otherwise))
  | call callee args keywords =>
    h.cons (call callee args keywords)
      (filterMap_append_congr
        (filterMap_append_congr (filterMap_nodes_nest h callee) (filterMap_nodesOfAll_nest h args))
        (filterMap_nodesOfKeywords_nest h keywords))
  | starred value => h.cons (starred value) (filterMap_nodes_nest h value)
  | subscript value index =>
    h.cons (subscript value index)
      (filterMap_append_congr (filterMap_nodes_nest h value) (filterMap_nodes_nest h index))
  | slice lower upper step =>
    h.cons (slice lower upper step)
      (filterMap_append_congr
        (filterMap_append_congr (filterMap_nodesOfOption_nest h lower)
          (filterMap_nodesOfOption_nest h upper))
        (filterMap_nodesOfOption_nest h step))
  | list items => h.cons (list items) (filterMap_nodesOfAll_nest h items)
  | tuple items => h.cons (tuple items) (filterMap_nodesOfAll_nest h items)
  | listComp element clauses =>
    h.cons (listComp element clauses)
      (filterMap_append_congr (filterMap_nodes_nest h element)
        (filterMap_nodesOfClauses_nest h clauses))
  | generator element clauses =>
    h.cons (generator element clauses)
      (filterMap_append_congr (filterMap_nodes_nest h element)
        (filterMap_nodesOfClauses_nest h clauses))
  | display kind => rfl
termination_by structural e => e

theorem filterMap_nodesOfAll_nest (h : Overlooks f) :
    (es : List Expr) → (nodesOfAll (nestAll es)).filterMap f = (nodesOfAll es).filterMap f
  | [] => rfl
  | e :: es =>
    filterMap_append_congr (filterMap_nodes_nest h e) (filterMap_nodesOfAll_nest h es)
termination_by structural es => es

theorem filterMap_nodesOfOption_nest (h : Overlooks f) :
    (e : Option Expr) → (nodesOfOption (nestOption e)).filterMap f = (nodesOfOption e).filterMap f
  | none => rfl
  | some e => filterMap_nodes_nest h e
termination_by structural e => e

theorem filterMap_nodesOfKeywords_nest (h : Overlooks f) :
    (ks : List (Keyword Expr)) →
      (nodesOfKeywords (nestKeywords ks)).filterMap f = (nodesOfKeywords ks).filterMap f
  | [] => rfl
  | ⟨_, value⟩ :: ks =>
    filterMap_append_congr (filterMap_nodes_nest h value) (filterMap_nodesOfKeywords_nest h ks)
termination_by structural ks => ks

theorem filterMap_nodesOfClauses_nest (h : Overlooks f) :
    (cs : List (Clause Expr)) →
      (nodesOfClauses (nestClauses cs)).filterMap f = (nodesOfClauses cs).filterMap f
  | [] => rfl
  | ⟨_, source, conditions⟩ :: cs =>
    filterMap_append_congr
      (filterMap_append_congr (filterMap_nodes_nest h source)
        (filterMap_nodesOfAll_nest h conditions))
      (filterMap_nodesOfClauses_nest h cs)
termination_by structural cs => cs

end

end Nodes

theorem referencedTables_nest (e : Expr) (base : String) (tables : Tables) :
    e.nest.referencedTables base tables = e.referencedTables base tables := by
  rw [referencedTables, filterMap_nodes_nest (overlooks_referencedTable base tables),
    referencedTables]

theorem any_eq_any_filterMap (m : Membership) (es : List Expr) :
    es.any m.isTest =
      (es.filterMap fun e => if m.isTest e then some () else none).any fun _ => true := by
  rw [List.any_filterMap]
  congr 1
  funext e
  cases m.isTest e <;> rfl

theorem occursIn_nest (m : Membership) (e : Expr) : m.occursIn e.nest = m.occursIn e := by
  rw [Membership.occursIn, any_eq_any_filterMap, filterMap_nodes_nest (overlooks_isTest m),
    ← any_eq_any_filterMap, Membership.occursIn]

theorem occursIn_rightNested (m : Membership) (op : BoolOp) (es : List Expr) :
    m.occursIn (rightNested op es) = es.any m.occursIn := by
  have hnodes : (nodesOfAll es).any m.isTest = es.any m.occursIn := by
    induction es with
    | nil => rfl
    | cons e es ih => rw [nodesOfAll, List.any_append, ih, List.any_cons, Membership.occursIn]
  rw [Membership.occursIn, any_eq_any_filterMap, filterMap_nodes_rightNested (overlooks_isTest m),
    ← any_eq_any_filterMap, hnodes]

theorem occursIn_nested (m : Membership) (op : BoolOp) (es : List Expr) :
    m.occursIn (rightNested op (nestAll es)) = es.any m.occursIn := by
  rw [occursIn_rightNested, nestAll_eq_map, List.any_map]
  exact congrArg es.any (funext (occursIn_nest m))

end DocQuery.Expr
