import DocQuery.Proofs.Nesting

/-! # Evaluation and nested connectives

The texts that an expression and its nested form are written with differ in their parentheses, but
both are refused in the same contexts, and where they are not their values are of the same kind.

* `Alike`: two computations fail both or succeed both.
* `Sql.Value.SameKind`: values that differ in their texts only.
* `Sql.NestsAlike`: an expression and its nested form are evaluated alike, wherever they stand.
* `Parsed.nestsAlike`: the trees of the grammar are.
-/

set_option autoImplicit false

namespace DocQuery

/-- Two computations fail both, or they succeed both with related results. -/
inductive Alike {ε α β : Type} (R : α → β → Prop) : Except ε α → Except ε β → Prop
  | ok {a : α} {b : β} (h : R a b) : Alike R (.ok a) (.ok b)
  | error (x y : ε) : Alike R (.error x) (.error y)

namespace Alike

variable {ε α β γ δ : Type} {R : α → β → Prop} {S : γ → δ → Prop} {x : Except ε α} {y : Except ε β}

theorem bind (h : Alike R x y) {f : α → Except ε γ} {g : β → Except ε δ}
    (hfg : ∀ a b, R a b → Alike S (f a) (g b)) : Alike S (x >>= f) (y >>= g) := by
  cases h with
  | ok h => exact hfg _ _ h
  | error x y => exact .error x y

theorem refl (x : Except ε α) : Alike (· = ·) x x := by
  cases x with
  | ok a => exact .ok rfl
  | error y => exact .error y y

theorem map (h : Alike R x y) {f : α → γ} {g : β → δ} (hfg : ∀ a b, R a b → S (f a) (g b)) :
    Alike S (f <$> x) (g <$> y) := by
  cases h with
  | ok h => exact .ok (hfg _ _ h)
  | error x y => exact .error x y

end Alike

namespace Sql

open Context

/-- Values that differ in their texts only. -/
inductive Value.SameKind : Value → Value → Prop
  | text (s t : String) : SameKind (.text s) (.text t)
  | path (p : FieldPath) : SameKind (.path p) (.path p)
  | bound (v : DomainValue) : SameKind (.bound v) (.bound v)
  | table (name : String) : SameKind (.table name) (.table name)
  | sequence (xs ys : List String) : SameKind (.sequence xs) (.sequence ys)
  | satisfied : SameKind .satisfied .satisfied

open Value (SameKind)

theorem Value.SameKind.refl (v : Value) : v.SameKind v := by
  cases v <;> constructor

variable {c : Context} {e e' : Expr} {v w : Value}

/-! ## Values -/

theorem sqlOf_alike (h : v.SameKind w) : Alike (fun _ _ => True) (c.sqlOf e v) (c.sqlOf e' w) := by
  cases h with
  | bound v =>
    cases v with
    | constant l => exact .ok trivial
    | holder name members => exact .error _ _
  | _ => exact .ok trivial

theorem conditionOf_alike (h : v.SameKind w) :
    Alike (fun p q => p.isSome = q.isSome) (c.conditionOf e v) (c.conditionOf e' w) := by
  cases h with
  | satisfied => exact .ok rfl
  | bound v => exact (sqlOf_alike (.bound v)).map fun _ _ _ => rfl
  | _ => exact .ok rfl

theorem attributeOf_alike {whole whole' : Expr} (label : String) (h : v.SameKind w) :
    Alike SameKind (c.attributeOf whole label v) (c.attributeOf whole' label w) := by
  cases h with
  | bound v =>
    simp only [attributeOf]
    split
    · exact .ok (.refl _)
    · exact .error _ _
  | text s t => exact .ok (.text _ _)
  | path p => exact .ok (.path _)
  | table name => exact .ok (.path _)
  | sequence xs ys => exact .error _ _
  | satisfied => exact .error _ _

theorem itemOf_alike {whole whole' index : Expr} (h : v.SameKind w) :
    Alike SameKind (itemOf whole index v) (itemOf whole' index.nest w) := by
  cases h with
  | path p =>
    simp only [itemOf, Expr.segment_nest]
    split
    · exact .ok (.path _)
    · exact .error _ _
  | _ => exact .error _ _

theorem signedOf_alike (op : UnaryOp) {operand operand' : Expr} (h : v.SameKind w) :
    Alike SameKind (c.signedOf op operand v) (c.signedOf op operand' w) := by
  cases h with
  | satisfied => exact .error _ _
  | bound v => exact (sqlOf_alike (.bound v)).bind fun _ _ _ => .ok (.text _ _)
  | _ => exact .ok (.text _ _)

/-! ## Connectives -/

/-- Two answers for the operands of a connective: both are satisfied by one operand, or of both
something is left, or of both nothing is. -/
def SameParts (p q : Option (List String)) : Prop := p.map List.isEmpty = q.map List.isEmpty

theorem conditions_cons_alike {op : BoolOp} {es es' : List Expr}
    (h : Alike SameKind (c.eval e) (c.eval e'))
    (hes : Alike SameParts (c.conditions op es) (c.conditions op es')) :
    Alike SameParts (c.conditions op (e :: es)) (c.conditions op (e' :: es')) := by
  rw [conditions, conditions]
  refine h.bind fun v w hvw => (conditionOf_alike hvw).bind fun p q hpq => ?_
  cases p with
  | none =>
    cases q with
    | none =>
      dsimp only
      split
      · exact .ok rfl
      · exact hes
    | some sql => cases hpq
  | some sql =>
    cases q with
    | none => cases hpq
    | some sql' =>
      refine hes.bind fun r s hrs => .ok ?_
      cases r <;> cases s <;> simp_all [SameParts]

theorem conditions_alike {op : BoolOp} {es : List Expr}
    (h : ∀ e ∈ es, Alike SameKind (c.eval e) (c.eval e.nest)) :
    Alike SameParts (c.conditions op es) (c.conditions op (Expr.nestAll es)) := by
  induction es with
  | nil => exact .ok rfl
  | cons e es ih =>
    exact conditions_cons_alike (h e List.mem_cons_self)
      (ih fun e he => h e (List.mem_cons_of_mem _ he))

theorem connected_cons (op : BoolOp) (part : String) (parts : List String) :
    ∃ sql, connected op (part :: parts) = .text sql := by
  cases parts <;> exact ⟨_, rfl⟩

theorem boolean_alike {op : BoolOp} {es es' : List Expr}
    (h : Alike SameParts (c.conditions op es) (c.conditions op es')) :
    Alike SameKind (c.eval (.boolean op es)) (c.eval (.boolean op es')) := by
  rw [eval, eval]
  refine h.bind fun p q hpq => ?_
  rcases p with _ | _ | ⟨p, ps⟩ <;> rcases q with _ | _ | ⟨q, qs⟩ <;> try cases hpq
  · exact .ok .satisfied
  · exact .ok .satisfied
  · obtain ⟨s, hs⟩ := connected_cons op p ps
    obtain ⟨t, ht⟩ := connected_cons op q qs
    dsimp only
    rw [hs, ht]
    exact .ok (.text s t)

/-- Something is left of every operand of a disjunction that is not satisfied. -/
theorem conditions_or_ne_nil (e : Expr) (es : List Expr) :
    c.conditions .or (e :: es) ≠ .ok (some []) := by
  intro h
  rw [conditions] at h
  obtain ⟨v, -, h⟩ := bind_eq_ok h
  obtain ⟨p, -, h⟩ := bind_eq_ok h
  cases p with
  | none => cases h
  | some sql =>
    obtain ⟨q, -, h⟩ := bind_eq_ok h
    cases q <;> cases h

/-- Several operands and one that is evaluated like their connective. -/
theorem conditions_singleton_alike {op : BoolOp} {es : List Expr} (hne : es ≠ [])
    (h : Alike SameKind (c.eval (.boolean op es)) (c.eval e)) :
    Alike SameParts (c.conditions op es) (c.conditions op [e]) := by
  obtain ⟨first, others, rfl⟩ := List.exists_cons_of_ne_nil hne
  rw [eval] at h
  rw [conditions.eq_2 c op e []]
  generalize hes : c.conditions op (first :: others) = r at h ⊢
  generalize c.eval e = s at h ⊢
  rcases r with x | _ | _ | ⟨part, parts⟩
  · cases h
    exact .error _ _
  · obtain ⟨⟨⟩⟩ := h
    cases op with
    | and => exact absurd hes (conditions_and_ne_none _)
    | or => exact .ok rfl
  · obtain ⟨⟨⟩⟩ := h
    cases op with
    | and => exact .ok rfl
    | or => exact absurd hes (conditions_or_ne_nil _ _)
  · obtain ⟨sql, hsql⟩ := connected_cons op part parts
    change Alike SameKind (.ok (connected op (part :: parts))) s at h
    rw [hsql] at h
    obtain ⟨⟨⟩⟩ := h
    exact .ok rfl

/-- One operand after the other goes to the front, and the others are evaluated as one. -/
theorem rightNested_alike (op : BoolOp) (others : List Expr) {first second : Expr}
    (h : ∀ e ∈ first :: second :: others, Alike SameKind (c.eval e) (c.eval e.nest)) :
    Alike SameKind (c.eval (.boolean op (first :: second :: others)))
      (c.eval (Expr.rightNested op (Expr.nestAll (first :: second :: others)))) := by
  induction others generalizing first second with
  | nil => exact boolean_alike (conditions_alike h)
  | cons third others ih =>
    have hrest := ih fun e he => h e (List.mem_cons_of_mem _ he)
    exact boolean_alike (conditions_cons_alike (h first List.mem_cons_self)
      (conditions_singleton_alike (List.cons_ne_nil _ _) hrest))

/-! ## Lists of expressions -/

/-- Where the texts of two expressions are used, it matters only whether there are any. -/
theorem bind_sqlOf_alike {γ δ : Type} {S : γ → δ → Prop} (h : Alike SameKind (c.eval e) (c.eval e'))
    {f : String → Except Error γ} {g : String → Except Error δ}
    (hfg : ∀ s t, Alike S (f s) (g t)) :
    Alike S (c.eval e >>= fun v => c.sqlOf e v >>= f)
      (c.eval e' >>= fun v => c.sqlOf e' v >>= g) :=
  h.bind fun _ _ hvw => (sqlOf_alike hvw).bind fun s t _ => hfg s t

theorem compileAll_alike {es : List Expr}
    (h : ∀ e ∈ es, Alike SameKind (c.eval e) (c.eval e.nest)) :
    Alike (fun _ _ => True) (c.compileAll es) (c.compileAll (Expr.nestAll es)) := by
  induction es with
  | nil => exact .ok trivial
  | cons e es ih =>
    rw [Expr.nestAll, compileAll, compileAll]
    refine bind_sqlOf_alike (h e List.mem_cons_self) fun s t => ?_
    exact (ih fun e he => h e (List.mem_cons_of_mem _ he)).bind fun _ _ _ => .ok trivial

theorem links_alike {es : List Expr} (h : ∀ e ∈ es, Alike SameKind (c.eval e) (c.eval e.nest))
    (ops : List CmpOp) (current current' : String) :
    Alike (fun _ _ => True) (c.links current ops es) (c.links current' ops (Expr.nestAll es)) := by
  induction es generalizing ops current current' with
  | nil => cases ops <;> exact .ok trivial
  | cons e es ih =>
    cases ops with
    | nil => exact .ok trivial
    | cons op ops =>
      rw [Expr.nestAll, links, links]
      refine bind_sqlOf_alike (h e List.mem_cons_self) fun s t => ?_
      exact (ih (fun e he => h e (List.mem_cons_of_mem _ he)) ops s t).bind fun _ _ _ => .ok trivial

/-! ## Comparisons -/

theorem listed_nest (e : Expr) : listed? e.nest = (listed? e).map Expr.nestAll := by
  cases e with
  | boolean op operands => exact Expr.apply_nest_boolean listed? (fun _ _ _ => rfl) op operands
  | literal l => cases l <;> rfl
  | _ => rfl

section Comparisons

variable {left right : Expr} {operands : List Expr}

theorem length_nestAll (es : List Expr) : (Expr.nestAll es).length = es.length := by
  rw [nestAll_eq_map, List.length_map]

theorem linked_alike (hleft : Alike SameKind (c.eval left) (c.eval left.nest))
    (h : ∀ e ∈ operands, Alike SameKind (c.eval e) (c.eval e.nest)) (ops : List CmpOp) :
    Alike SameKind (linked c left ops operands)
      (linked c left.nest ops (Expr.nestAll operands)) := by
  rw [linked, linked, length_nestAll]
  split
  · exact .error _ _
  · refine bind_sqlOf_alike hleft fun s t => ?_
    exact (links_alike h ops s t).bind fun _ _ _ => .ok (.text _ _)

theorem testedIn_alike (hleft : Alike SameKind (c.eval left) (c.eval left.nest))
    (hright : Alike SameKind (c.eval right) (c.eval right.nest)) (op : CmpOp) (ops : List CmpOp) :
    Alike SameKind (testedIn c left op ops right) (testedIn c left.nest op ops right.nest) := by
  have hlinked : Alike SameKind (linked c left ops [right]) (linked c left.nest ops [right.nest]) :=
    linked_alike hleft (by simpa using hright) ops
  cases left with
  | literal l =>
    cases l with
    | str text => exact bind_sqlOf_alike hright fun s t => .ok (.text _ _)
    | _ => exact hlinked
  | name id =>
    rw [Expr.nest] at hlinked ⊢
    rw [testedIn, testedIn]
    split
    · refine hright.bind fun v w hvw => ?_
      cases hvw with
      | path p => exact .error _ _
      | _ => exact hlinked
    · exact hlinked
  | boolean op operands =>
    obtain ⟨es, hes⟩ := Expr.exists_rightNested op (Expr.nestAll operands)
    rw [Expr.nest, hes] at hlinked ⊢
    exact hlinked
  | _ => exact hlinked

/-- The items of a list are compiled alike where the list is evaluated alike. -/
theorem listed_alike {items : List Expr} (hitems : listed? right = some items)
    (h : Alike SameKind (c.eval right) (c.eval right.nest)) :
    Alike (fun _ _ => True) (c.compileAll items) (c.compileAll (Expr.nestAll items)) := by
  have hsequence : ∀ xs ys : Except Error (List String),
      Alike SameKind (do return Value.sequence (← xs)) (do return Value.sequence (← ys)) →
        Alike (fun _ _ => True) xs ys := by
    intro xs ys h
    match xs, ys, h with
    | .ok _, .ok _, _ => exact .ok trivial
    | .error _, .error _, _ => exact .error _ _
  obtain rfl | rfl | ⟨-, rfl⟩ := listed_cases hitems
  · rw [Expr.nest, eval, eval] at h
    exact hsequence _ _ h
  · rw [Expr.nest, eval, eval] at h
    exact hsequence _ _ h
  · exact .ok trivial

theorem compare_alike (hleft : Alike SameKind (c.eval left) (c.eval left.nest))
    (h : ∀ e ∈ operands, Alike SameKind (c.eval e) (c.eval e.nest)) (ops : List CmpOp) :
    Alike SameKind (c.eval (.compare left ops operands))
      (c.eval (Expr.compare left ops operands).nest) := by
  have hguaranteed : c.isGuaranteed (Expr.compare left ops operands).nest =
      c.isGuaranteed (Expr.compare left ops operands) := by
    simp only [isGuaranteed, Expr.isTest_nest]
  rw [Expr.nest] at hguaranteed ⊢
  rw [eval_compare, eval_compare, hguaranteed]
  split
  · exact .ok .satisfied
  cases membershipOp? ops with
  | none => exact linked_alike hleft h ops
  | some op =>
    rcases operands with _ | ⟨right, _ | ⟨second, others⟩⟩
    · exact linked_alike hleft h ops
    · have hright := h right List.mem_cons_self
      dsimp only [Expr.nestAll]
      rw [listed_nest]
      cases hitems : listed? right with
      | none => exact testedIn_alike hleft hright op ops
      | some items =>
        refine bind_sqlOf_alike hleft fun s t => ?_
        exact (listed_alike hitems hright).bind fun _ _ _ => .ok (.text _ _)
    · exact linked_alike hleft h ops

end Comparisons

/-! ## Calls -/

/-- An expression and its nested form are evaluated alike, wherever they stand: as a value, as the
argument of a quantifier, and as the method of a call, whose receiver counts. -/
structure NestsAlike (e : Expr) : Prop where
  eval : ∀ c : Context, Alike SameKind (c.eval e) (c.eval e.nest)
  quantified : ∀ c : Context,
    Option.Rel (Alike SameKind) (c.quantified [e]) (c.quantified [e.nest])
  receiver : ∀ value label, e = .attr value label →
    ∀ c : Context, Alike SameKind (c.eval value) (c.eval value.nest)

theorem existential_alike {element array : Expr} {filters : List Expr} (target : String)
    (harray : ∀ c : Context, Alike SameKind (c.eval array) (c.eval array.nest))
    (helement : ∀ c : Context, Alike SameKind (c.eval element) (c.eval element.nest))
    (hfilters : ∀ e ∈ filters, ∀ c : Context, Alike SameKind (c.eval e) (c.eval e.nest)) :
    Alike SameKind (existential c element target array filters)
      (existential c element.nest target array.nest (Expr.nestAll filters)) := by
  rw [existential, existential, Expr.asName_nest]
  refine (harray c).bind fun v w hvw => ?_
  have hpath : Alike (· = ·) (pathOf array v) (pathOf array.nest w) := by
    cases hvw with
    | path p => exact .ok rfl
    | _ => exact .error _ _
  refine hpath.bind fun p q _ => ?_
  have hothers : Alike SameParts ((c.within target).conditions .and filters)
      ((c.within target).conditions .and (Expr.nestAll filters)) :=
    conditions_alike fun e he => hfilters e he (c.within target)
  have hrest : ∀ own own' : Option String, Alike SameKind
      (do
        let others ← (c.within target).conditions .and filters
        return Value.text (existence p target (own.toList ++ others.getD [])))
      (do
        let others ← (c.within target).conditions .and (Expr.nestAll filters)
        return Value.text (existence q target (own'.toList ++ others.getD []))) :=
    fun own own' => hothers.bind fun _ _ _ => .ok (.text _ _)
  dsimp only
  split
  · exact hrest none none
  · refine (helement (c.within target)).bind fun v w hvw => ?_
    exact (conditionOf_alike hvw).bind fun own own' _ => hrest own own'

theorem quantified_alike {args : List Expr} (h : ∀ e ∈ args, NestsAlike e) :
    Option.Rel (Alike SameKind) (c.quantified args) (c.quantified (Expr.nestAll args)) := by
  match args with
  | [] => exact .none
  | [e] => exact (h e List.mem_cons_self).quantified c
  | a :: b :: more =>
    have hnone : ∀ a b more, c.quantified (a :: b :: more) = none := by
      refine fun a b more => Option.eq_none_iff_forall_ne_some.2 fun answer h => ?_
      obtain ⟨e, he⟩ := quantified_eq_some h
      cases he
    rw [Expr.nestAll, Expr.nestAll, hnone, hnone]
    exact .none

section Calls

variable {callee : Expr} {args : List Expr}

theorem isEmpty_nestKeywords (ks : List (Keyword Expr)) :
    (Expr.nestKeywords ks).isEmpty = ks.isEmpty := by
  cases ks <;> rfl

theorem call_name_alike (id : String) (keywords : List (Keyword Expr))
    (h : ∀ e ∈ args, NestsAlike e) :
    Alike SameKind (c.eval (.call (.name id) args keywords))
      (c.eval (Expr.call (.name id) args keywords).nest) := by
  rw [Expr.nest, Expr.nest, eval.eq_def, eval.eq_def]
  dsimp only
  rw [isEmpty_nestKeywords]
  split
  · exact .error _ _
  split
  · rcases args with _ | ⟨argument, _ | ⟨second, others⟩⟩
    · exact .error _ _
    · refine ((h argument List.mem_cons_self).eval c).bind fun v w hvw => ?_
      cases hvw with
      | path p => exact .ok (.text _ _)
      | _ => exact .error _ _
    · exact .error _ _
  · by_cases hid : id = Expr.quantifierName
    · simp only [hid, if_true]
      have hq := quantified_alike h (c := c)
      generalize c.quantified args = r, c.quantified (Expr.nestAll args) = s at hq
      cases hq with
      | none => exact .error _ _
      | some h => exact h
    · simp only [hid, if_false]
      exact .error _ _

theorem call_attr_alike {value : Expr} (label : String) (keywords : List (Keyword Expr))
    (hvalue : Alike SameKind (c.eval value) (c.eval value.nest)) :
    Alike SameKind (c.eval (.call (.attr value label) args keywords))
      (c.eval (Expr.call (.attr value label) args keywords).nest) := by
  rw [Expr.nest, Expr.nest, eval.eq_def, eval.eq_def]
  dsimp only
  rw [isEmpty_nestKeywords]
  split
  · exact .error _ _
  split
  · cases args with
    | nil => exact .error _ _
    | cons argument rest =>
      cases argument with
      | literal l =>
        cases l with
        | str text =>
          cases rest with
          | nil => exact bind_sqlOf_alike hvalue fun s t => .ok (.text _ _)
          | cons e es => exact .error _ _
        | _ => exact .error _ _
      | boolean op operands =>
        obtain ⟨es, hes⟩ := Expr.exists_rightNested op (Expr.nestAll operands)
        rw [Expr.nestAll, Expr.nest, hes]
        exact .error _ _
      | _ => exact .error _ _
  · exact .error _ _

theorem call_refused_alike {callee' : Expr} {args' : List Expr}
    {keywords keywords' : List (Keyword Expr)} (hname : ∀ id, callee ≠ .name id)
    (hattr : ∀ value label, callee ≠ .attr value label) (hname' : ∀ id, callee' ≠ .name id)
    (hattr' : ∀ value label, callee' ≠ .attr value label) :
    Alike SameKind (c.eval (.call callee args keywords))
      (c.eval (.call callee' args' keywords')) := by
  obtain ⟨x, hx⟩ := call_refused hname hattr
  obtain ⟨y, hy⟩ := call_refused hname' hattr'
  rw [hx, hy]
  exact .error x y

theorem call_alike (hcallee : NestsAlike callee) (h : ∀ e ∈ args, NestsAlike e)
    (keywords : List (Keyword Expr)) :
    Alike SameKind (c.eval (.call callee args keywords))
      (c.eval (Expr.call callee args keywords).nest) := by
  cases callee with
  | name id => exact call_name_alike id keywords h
  | attr value label => exact call_attr_alike label keywords (hcallee.receiver value label rfl c)
  | boolean op operands =>
    obtain ⟨es, hes⟩ := Expr.exists_rightNested op (Expr.nestAll operands)
    rw [Expr.nest, Expr.nest, hes]
    exact call_refused_alike nofun nofun nofun nofun
  | _ => exact call_refused_alike nofun nofun nofun nofun

end Calls

/-! ## Expressions -/

/-- Most expressions are neither a comprehension nor an attribute. -/
theorem NestsAlike.of_eval (h : ∀ c : Context, Alike SameKind (c.eval e) (c.eval e.nest))
    (hcomprehension : e.comprehensionParts? = none) (hreceiver : e.receiver? = none) :
    NestsAlike e where
  eval := h
  quantified c := by
    rw [quantified_singleton, quantified_singleton, Expr.comprehensionParts_nest, hcomprehension]
    exact .none
  receiver value label heq := by
    subst heq
    cases hreceiver

theorem nestsAlike_comprehension {element : Expr} {clauses : List (Clause Expr)}
    (hparts : e.comprehensionParts? = some (element, clauses)) (helement : NestsAlike element)
    (hsources : ∀ x ∈ clauses, NestsAlike x.source)
    (hconditions : ∀ x ∈ clauses, ∀ y ∈ x.conditions, NestsAlike y) : NestsAlike e where
  eval c := by
    cases e with
    | listComp => exact .error _ _
    | generator => exact .error _ _
    | _ => cases hparts
  quantified c := by
    rw [quantified_singleton, quantified_singleton, Expr.comprehensionParts_nest, hparts]
    match clauses, hsources, hconditions with
    | [], _, _ => exact .none
    | [⟨target, array, filters⟩], hsources, hconditions =>
      simp only [Option.map_some, Expr.nestClauses, Expr.chain_nest]
      split
      · exact .some (existential_alike target (hsources _ List.mem_cons_self).eval helement.eval
          fun y hy => (hconditions _ List.mem_cons_self y hy).eval)
      · exact .none
    | _ :: _ :: _, _, _ => exact .none
  receiver value label heq := by
    subst heq
    cases hparts

theorem nestsAlike_expr {a : Positional Expr} (h : NestsAlike a.value) : NestsAlike a.expr := by
  obtain ⟨spread, value⟩ := a
  cases spread with
  | false => exact h
  | true => exact .of_eval (fun _ => .error _ _) rfl rfl

theorem binary_alike {left right : Expr} (op : BinaryOp)
    (hleft : Alike SameKind (c.eval left) (c.eval left.nest))
    (hright : Alike SameKind (c.eval right) (c.eval right.nest)) :
    Alike SameKind (c.eval (.binary left op right)) (c.eval (Expr.binary left op right).nest) := by
  rw [Expr.nest, eval, eval]
  refine bind_sqlOf_alike hleft fun l l' => bind_sqlOf_alike hright fun r r' => ?_
  cases op with
  | matMul => exact .error _ _
  | _ => exact .ok (.text _ _)

theorem unary_alike (op : UnaryOp) (h : Alike SameKind (c.eval e) (c.eval e.nest)) :
    Alike SameKind (c.eval (.unary op e)) (c.eval (Expr.unary op e).nest) := by
  rw [Expr.nest, eval, eval, Expr.isNumber_nest, Expr.isSome_quantifierCall_nest]
  split
  · exact .ok (.text _ _)
  split
  · exact bind_sqlOf_alike h fun s t => .ok (.text _ _)
  · exact h.bind fun v w hvw => signedOf_alike op hvw

theorem subscript_alike {value : Expr} (h : Alike SameKind (c.eval value) (c.eval value.nest))
    (index : Expr) :
    Alike SameKind (c.eval (.subscript value index))
      (c.eval (Expr.subscript value index).nest) := by
  rw [Expr.nest, eval, eval]
  exact h.bind fun v w hvw => itemOf_alike hvw

end Sql

open Sql Context

theorem Parsed.nestsAlike {e : Expr} (h : Parsed e) : NestsAlike e := by
  induction h with
  | lambda => exact .of_eval (fun _ => .error _ _) rfl rfl
  | none => exact .of_eval (fun _ => .ok (.refl _)) rfl rfl
  | bool => exact .of_eval (fun _ => .ok (.refl _)) rfl rfl
  | int => exact .of_eval (fun _ => .ok (.refl _)) rfl rfl
  | float => exact .of_eval (fun _ => .ok (.refl _)) rfl rfl
  | str => exact .of_eval (fun _ => .ok (.refl _)) rfl rfl
  | name => exact .of_eval (fun _ => .ok (.refl _)) rfl rfl
  | @attr value label _ _ ih =>
    refine ⟨fun c => ?_, fun c => .none, fun _ _ heq => ?_⟩
    · rw [Expr.nest, eval, eval]
      exact (ih.eval c).bind fun v w hvw => attributeOf_alike label hvw
    · cases heq
      exact ih.eval
  | binary op _ _ ihLeft ihRight =>
    exact .of_eval (fun c => binary_alike op (ihLeft.eval c) (ihRight.eval c)) rfl rfl
  | unary op _ ih => exact .of_eval (fun c => unary_alike op (ih.eval c)) rfl rfl
  | compare _ links _ _ ihLeft ih =>
    refine .of_eval (fun c => compare_alike (ihLeft.eval c) (fun e he => ?_) _) rfl rfl
    obtain ⟨l, hl, rfl⟩ := List.mem_map.1 he
    exact (ih l hl).eval c
  | boolean op first second others _ ih =>
    refine .of_eval (fun c => ?_) rfl rfl
    rw [Expr.nest]
    exact rightNested_alike op others fun e he => (ih e he).eval c
  | conditional _ _ _ ihTest ihBody ihOtherwise =>
    refine .of_eval (fun c => ?_) rfl rfl
    rw [Expr.nest, eval, eval]
    exact bind_sqlOf_alike (ihTest.eval c) fun _ _ => bind_sqlOf_alike (ihBody.eval c) fun _ _ =>
      bind_sqlOf_alike (ihOtherwise.eval c) fun _ _ => .ok (.text _ _)
  | call _ args keywords _ _ _ ih ihArgs =>
    refine .of_eval (fun c => call_alike ih (fun e he => ?_) keywords) rfl rfl
    obtain ⟨a, ha, rfl⟩ := List.mem_map.1 he
    exact nestsAlike_expr (ihArgs a ha)
  | subscript _ i _ _ ih => exact .of_eval (fun c => subscript_alike (ih.eval c) i.expr) rfl rfl
  | subscripts _ indices _ _ ih =>
    exact .of_eval (fun c => subscript_alike (ih.eval c) _) rfl rfl
  | list items _ ih =>
    refine .of_eval (fun c => ?_) rfl rfl
    rw [Expr.nest, eval, eval]
    exact (compileAll_alike fun e he => (ih e he).eval c).bind fun _ _ _ => .ok (.sequence _ _)
  | tuple items _ ih =>
    refine .of_eval (fun c => ?_) rfl rfl
    rw [Expr.nest, eval, eval]
    exact (compileAll_alike fun e he => (ih e he).eval c).bind fun _ _ _ => .ok (.sequence _ _)
  | listComp _ clauses _ _ _ _ ih ihSources ihConditions =>
    exact nestsAlike_comprehension rfl ih ihSources ihConditions
  | generator _ clauses _ _ _ _ ih ihSources ihConditions =>
    exact nestsAlike_comprehension rfl ih ihSources ihConditions
  | display => exact .of_eval (fun _ => .error _ _) rfl rfl

end DocQuery
