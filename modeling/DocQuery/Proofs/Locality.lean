import DocQuery.Proofs.Growth
import DocQuery.Proofs.Places

/-! # What evaluation looks at

The value of an expression depends on the context only through what is evaluated for it: the names that
occur there and the tests that are guaranteed. A quantifier evaluates the conditions on the elements of
its array with its own variable in place of any other.

* `Context.evaluatedParts`: the parts of an expression that are evaluated in its context.
* `Visits`: everything that is evaluated for an expression, with the variables of the quantifiers around
  it.
* `eval_eq_of_visits`: contexts that agree on all of it give the expression the same value.
* `Visits.usable`: if something can be made of the value of the expression, it can of all of it.
-/

set_option autoImplicit false

namespace DocQuery

/-- What is evaluated in the context of an expression is inside it. -/
theorem Expr.inside_of_mem_ownParts {e p : Expr} (hp : p ∈ e.ownParts) :
    ∃ q ∈ e.parts, p.Inside q := by
  rw [ownParts.eq_def] at hp
  split at hp
  case h_8 value label args keywords =>
    cases List.mem_singleton.1 hp
    exact ⟨_, List.mem_cons_self, .part List.mem_cons_self .self⟩
  case h_9 callee args keywords _ =>
    obtain ⟨a, ha, hp⟩ := List.mem_flatMap.1 hp
    refine ⟨a, List.mem_cons_of_mem _ (List.mem_append_left _ ha), ?_⟩
    split at hp
    · rename_i element clauses hparts
      obtain ⟨k, hk, rfl⟩ := List.mem_map.1 hp
      have hsource : k.source ∈ a.parts := by
        obtain rfl | rfl := comprehensionParts_cases hparts <;> grind [parts]
      exact .part hsource .self
    · cases List.mem_singleton.1 hp
      exact .self
  all_goals exact ⟨p, by grind [parts], .self⟩

namespace Sql

namespace Context

/-- Whether the value of an expression is a condition that always holds. -/
def satisfies (c : Context) (e : Expr) : Bool := (c.eval e).toOption.any Value.isSatisfied

/-- The operands of a connective that are evaluated. A disjunction ends with one that is satisfied. -/
def considered (c : Context) (op : BoolOp) : List Expr → List Expr
  | [] => []
  | e :: es => e :: if op = .or && c.satisfies e then [] else c.considered op es

/-- The parts of an expression that are evaluated in the context of the expression. -/
def evaluatedParts (c : Context) : Expr → List Expr
  | .compare left ops operands =>
    if c.isGuaranteed (.compare left ops operands) then [] else left :: operands
  | .boolean op operands => c.considered op operands
  | e => e.ownParts

/-- The context inside quantifiers over these variables, the innermost first. -/
def under (c : Context) (vs : List String) : Context := vs.foldr (fun v d => d.within v) c

theorem considered_and (c : Context) (es : List Expr) : c.considered .and es = es := by
  induction es with
  | nil => rfl
  | cons e es ih => simp [considered, ih]

theorem mem_of_mem_considered {c : Context} {op : BoolOp} {es : List Expr} {p : Expr}
    (hp : p ∈ c.considered op es) : p ∈ es := by
  induction es with
  | nil => exact hp
  | cons e es ih =>
    rw [considered] at hp
    split at hp
    · rw [List.mem_singleton.1 hp]
      exact List.mem_cons_self
    · rcases List.mem_cons.1 hp with rfl | hp
      · exact List.mem_cons_self
      · exact List.mem_cons_of_mem e (ih hp)

theorem mem_ownParts_of_mem_evaluatedParts {c : Context} {e p : Expr}
    (hp : p ∈ c.evaluatedParts e) : p ∈ e.ownParts := by
  cases e with
  | compare left ops operands =>
    rw [evaluatedParts] at hp
    split at hp
    · cases hp
    · exact hp
  | boolean op operands => exact mem_of_mem_considered hp
  | _ => exact hp

theorem under_concat (c : Context) (vs : List String) (v : String) :
    c.under (vs ++ [v]) = (c.within v).under vs := by
  simp [under]

end Context

open Context

/-- `Visits c e vs x`: to evaluate `e` in the context `c`, the expression `x` is evaluated inside
quantifiers over the variables `vs`, the innermost first. -/
inductive Visits : Context → Expr → List String → Expr → Prop
  | self (c : Context) (e : Expr) : Visits c e [] e
  | part {c : Context} {e p x : Expr} {vs : List String} (hp : p ∈ c.evaluatedParts e)
      (h : Visits c p vs x) : Visits c e vs x
  | inside {c : Context} {e element array p x : Expr} {target : String} {filters : List Expr}
      {vs : List String} (hparts : e.comprehensionParts? = some (element, [⟨target, array, filters⟩]))
      (hp : p ∈ Expr.elementConditions target element filters)
      (h : Visits (c.within target) p vs x) :
      Visits c (.call (.name Expr.quantifierName) [e] []) (vs ++ [target]) x

/-! ## Contexts that agree -/

/-- Two contexts agree on an expression by itself: on what it stands for, if it is a name, and on
whether it is guaranteed. -/
def Agrees (c d : Context) (e : Expr) : Prop :=
  d.isGuaranteed e = c.isGuaranteed e ∧ ∀ id, e = .name id → d.named id = c.named id

section Agrees

variable {c d : Context} {e : Expr} {es : List Expr}

theorem Agrees.symm (h : Agrees c d e) : Agrees d c e :=
  ⟨h.1.symm, fun id hid => (h.2 id hid).symm⟩

theorem sqlOf_congr (hroot : d.rootOf = c.rootOf) (v : Value) : d.sqlOf e v = c.sqlOf e v := by
  cases v with
  | bound value => cases value <;> rfl
  | table name => rw [sqlOf, sqlOf, hroot]
  | _ => rfl

theorem conditionOf_congr (hroot : d.rootOf = c.rootOf) (v : Value) :
    d.conditionOf e v = c.conditionOf e v := by
  cases v with
  | satisfied => rfl
  | _ => rw [conditionOf, conditionOf, sqlOf_congr hroot] <;> simp

theorem attributeOf_congr (hroot : d.rootOf = c.rootOf) (label : String) (v : Value) :
    d.attributeOf e label v = c.attributeOf e label v := by
  cases v with
  | table name => rw [attributeOf, attributeOf, hroot]
  | _ => rfl

theorem signedOf_congr (hroot : d.rootOf = c.rootOf) (op : UnaryOp) (v : Value) :
    d.signedOf op e v = c.signedOf op e v := by
  cases v with
  | satisfied => rfl
  | _ => rw [signedOf, signedOf, sqlOf_congr hroot] <;> simp

theorem compileAll_congr (hroot : d.rootOf = c.rootOf) (h : ∀ e ∈ es, d.eval e = c.eval e) :
    d.compileAll es = c.compileAll es := by
  induction es with
  | nil => rfl
  | cons e es ih =>
    obtain ⟨he, hes⟩ := List.forall_mem_cons.1 h
    simp only [compileAll, sqlOf_congr hroot, he, ih hes]

theorem links_congr (hroot : d.rootOf = c.rootOf) (h : ∀ e ∈ es, d.eval e = c.eval e)
    (current : String) (ops : List CmpOp) : d.links current ops es = c.links current ops es := by
  induction es generalizing current ops with
  | nil => cases ops <;> rfl
  | cons e es ih =>
    obtain ⟨he, hes⟩ := List.forall_mem_cons.1 h
    cases ops with
    | nil => rfl
    | cons op ops => simp only [links, sqlOf_congr hroot, he, ih hes]

theorem conditions_congr (hroot : d.rootOf = c.rootOf) {op : BoolOp}
    (h : ∀ e ∈ c.considered op es, d.eval e = c.eval e) :
    d.conditions op es = c.conditions op es := by
  induction es with
  | nil => rfl
  | cons e es ih =>
    obtain ⟨he, hes⟩ := List.forall_mem_cons.1 h
    simp only [conditions, conditionOf_congr hroot, he]
    cases hv : c.eval e with
    | error refusal => rfl
    | ok v =>
      by_cases hend : op = .or ∧ v = .satisfied
      · obtain ⟨rfl, rfl⟩ := hend
        rfl
      · have hopen : op = .or → v.isSatisfied = false :=
          fun hor => isSatisfied_eq_false fun hv => hend ⟨hor, hv⟩
        have hon : ¬ (op = .or && c.satisfies e) = true := by
          simpa [satisfies, hv, Except.toOption] using hopen
        rw [if_neg hon] at hes
        rw [ih hes]

theorem linked_congr (hroot : d.rootOf = c.rootOf) {left : Expr}
    (h : ∀ e ∈ left :: es, d.eval e = c.eval e) (ops : List CmpOp) :
    linked d left ops es = linked c left ops es := by
  obtain ⟨hleft, hes⟩ := List.forall_mem_cons.1 h
  simp only [linked, sqlOf_congr hroot, hleft, links_congr hroot hes]

theorem isUnbound_congr {id : String} (h : d.eval (.name id) = c.eval (.name id)) :
    (d.scope.resolve id).isUnbound = (c.scope.resolve id).isUnbound := by
  have hnamed : d.named id = c.named id := Except.ok.inj h
  unfold named at hnamed
  cases hd : d.scope.resolve id <;> cases hc : c.scope.resolve id <;>
    simp_all [Resolved.isUnbound]

theorem testedIn_congr (hroot : d.rootOf = c.rootOf) {left right : Expr}
    (hleft : d.eval left = c.eval left) (hright : d.eval right = c.eval right) (op : CmpOp)
    (ops : List CmpOp) : testedIn d left op ops right = testedIn c left op ops right := by
  have hlinked : linked d left ops [right] = linked c left ops [right] :=
    linked_congr hroot (by simp [hleft, hright]) ops
  cases left with
  | literal l =>
    cases l with
    | str text => simp only [testedIn, sqlOf_congr hroot, hright]
    | _ => exact hlinked
  | name id => rw [testedIn, testedIn, hright, hlinked, isUnbound_congr hleft]
  | _ => exact hlinked

/-- The items of a list are compiled alike where the list has the same value. -/
theorem listed_congr {right : Expr} {items : List Expr} (hlist : listed? right = some items)
    (hright : d.eval right = c.eval right) : d.compileAll items = c.compileAll items := by
  have hsequence : ∀ x y : Except Error (List String),
      (do return Value.sequence (← x)) = (do return Value.sequence (← y)) → x = y := by
    rintro (x | x) (y | y) h <;> cases h <;> rfl
  obtain rfl | rfl | ⟨-, rfl⟩ := listed_cases hlist
  · rw [eval, eval] at hright
    exact hsequence _ _ hright
  · rw [eval, eval] at hright
    exact hsequence _ _ hright
  · rfl

theorem compare_congr (hroot : d.rootOf = c.rootOf) {left : Expr} {ops : List CmpOp}
    (hself : d.isGuaranteed (.compare left ops es) = c.isGuaranteed (.compare left ops es))
    (h : ∀ p ∈ c.evaluatedParts (.compare left ops es), d.eval p = c.eval p) :
    d.eval (.compare left ops es) = c.eval (.compare left ops es) := by
  rw [eval_compare, eval_compare, hself]
  by_cases hg : c.isGuaranteed (.compare left ops es) = true
  · rw [if_pos hg, if_pos hg]
  rw [if_neg hg, if_neg hg]
  rw [evaluatedParts, if_neg hg] at h
  split
  · rename_i op right _
    obtain ⟨hleft, hright⟩ : d.eval left = c.eval left ∧ d.eval right = c.eval right := by
      simpa using h
    split
    · rename_i items hlist
      simp only [sqlOf_congr hroot, hleft, listed_congr hlist hright]
    · exact testedIn_congr hroot hleft hright op ops
  · exact linked_congr hroot h ops

section Calls

variable {args : List Expr} {keywords : List (Keyword Expr)}

/-- An argument that is no comprehension is evaluated in the context of the call; a comprehension has
no value. -/
theorem argument_congr {id : String}
    (h : ∀ p ∈ (Expr.call (.name id) args keywords).ownParts, d.eval p = c.eval p) {a : Expr}
    (ha : a ∈ args) : d.eval a = c.eval a := by
  cases hparts : a.comprehensionParts? with
  | none =>
    refine h a (List.mem_flatMap.2 ⟨a, ha, ?_⟩)
    rw [hparts]
    exact List.mem_cons_self
  | some parts =>
    cases a with
    | listComp => rfl
    | generator => rfl
    | _ => cases hparts

/-- The conditions on the elements of an array have the same values inside the quantifier. -/
def Inner (c d : Context) (e : Expr) : Prop :=
  ∀ {a element array : Expr} {target : String} {filters : List Expr},
    e = .call (.name Expr.quantifierName) [a] [] →
    a.comprehensionParts? = some (element, [⟨target, array, filters⟩]) →
    ∀ p ∈ Expr.elementConditions target element filters,
      (d.within target).eval p = (c.within target).eval p

theorem existential_congr (hroot : d.rootOf = c.rootOf) {element array : Expr} {target : String}
    {filters : List Expr} (harray : d.eval array = c.eval array)
    (hinner : ∀ p ∈ Expr.elementConditions target element filters,
      (d.within target).eval p = (c.within target).eval p) :
    existential d element target array filters = existential c element target array filters := by
  have hwithin : (d.within target).rootOf = (c.within target).rootOf := hroot
  rw [Expr.elementConditions] at hinner
  by_cases hname : element.asName? = some target
  · rw [if_pos hname] at hinner
    have hfilters : (d.within target).conditions .and filters =
        (c.within target).conditions .and filters :=
      conditions_congr hwithin (by rwa [considered_and])
    simp only [existential, harray, if_pos hname, hfilters]
  · rw [if_neg hname] at hinner
    obtain ⟨helement, hinner⟩ := List.forall_mem_cons.1 hinner
    have hfilters : (d.within target).conditions .and filters =
        (c.within target).conditions .and filters :=
      conditions_congr hwithin (by rwa [considered_and])
    simp only [existential, harray, if_neg hname, hfilters, helement, conditionOf_congr hwithin]

theorem quantified_congr (hroot : d.rootOf = c.rootOf)
    (h : ∀ p ∈ (Expr.call (.name Expr.quantifierName) args []).ownParts, d.eval p = c.eval p)
    (hinner : Inner c d (.call (.name Expr.quantifierName) args [])) :
    d.quantified args = c.quantified args := by
  rcases args with _ | ⟨a, _ | ⟨b, rest⟩⟩
  · rfl
  · rw [quantified_singleton, quantified_singleton]
    split
    · rename_i element target array filters hparts
      have harray : d.eval array = c.eval array := by
        refine h array (List.mem_flatMap.2 ⟨a, List.mem_cons_self, ?_⟩)
        rw [hparts]
        exact List.mem_cons_self
      rw [existential_congr hroot harray (hinner rfl hparts)]
    · rfl
  · have hnone : ∀ c : Context, c.quantified (a :: b :: rest) = none := by
      intro c
      refine Option.eq_none_iff_forall_ne_some.2 fun answer hanswer => ?_
      obtain ⟨e, he⟩ := quantified_eq_some hanswer
      cases he
    rw [hnone, hnone]

theorem call_congr (hroot : d.rootOf = c.rootOf) {callee : Expr}
    (h : ∀ p ∈ (Expr.call callee args keywords).ownParts, d.eval p = c.eval p)
    (hinner : Inner c d (.call callee args keywords)) :
    d.eval (.call callee args keywords) = c.eval (.call callee args keywords) := by
  rw [eval.eq_def, eval.eq_def]
  dsimp only
  by_cases hkeywords : keywords = []
  · subst hkeywords
    refine if_congr Iff.rfl rfl ?_
    cases callee with
    | name id =>
      dsimp only
      refine if_congr Iff.rfl ?_ ?_
      · split
        · rename_i argument
          rw [argument_congr h List.mem_cons_self]
        · rfl
      · by_cases hid : id = Expr.quantifierName
        · subst hid
          rw [quantified_congr hroot h hinner]
        · rw [if_neg hid, if_neg hid]
    | attr value label =>
      have hvalue : d.eval value = c.eval value := h value List.mem_cons_self
      dsimp only
      simp only [sqlOf_congr hroot, hvalue]
    | _ => rfl
  · have hsome : (!keywords.isEmpty) = true := by simpa using hkeywords
    rw [if_pos hsome, if_pos hsome]

end Calls

/-- Contexts that agree on an expression and give its parts the same values give it the same value. -/
theorem eval_congr (hroot : d.rootOf = c.rootOf) (hself : Agrees c d e)
    (h : ∀ p ∈ c.evaluatedParts e, d.eval p = c.eval p) (hinner : Inner c d e) :
    d.eval e = c.eval e := by
  cases e with
  | name id => rw [eval, eval, hself.2 id rfl]
  | attr value label =>
    have hvalue : d.eval value = c.eval value := h value List.mem_cons_self
    simp only [eval, hvalue, attributeOf_congr hroot]
  | subscript value index =>
    have hvalue : d.eval value = c.eval value := h value List.mem_cons_self
    simp only [eval, hvalue]
  | binary left op right =>
    obtain ⟨hleft, hright⟩ : d.eval left = c.eval left ∧ d.eval right = c.eval right := by
      simpa [evaluatedParts, Expr.ownParts] using h
    simp only [eval, hleft, hright, sqlOf_congr hroot]
  | unary op operand =>
    have hoperand : d.eval operand = c.eval operand := h operand List.mem_cons_self
    simp only [eval, hoperand, sqlOf_congr hroot, signedOf_congr hroot]
  | compare left ops operands => exact compare_congr hroot hself.1 h
  | boolean op operands => rw [eval, eval, conditions_congr hroot h]
  | conditional test body otherwise =>
    obtain ⟨htest, hbody, hotherwise⟩ : d.eval test = c.eval test ∧ d.eval body = c.eval body ∧
        d.eval otherwise = c.eval otherwise := by
      simpa [evaluatedParts, Expr.ownParts] using h
    simp only [eval, htest, hbody, hotherwise, sqlOf_congr hroot]
  | call callee args keywords => exact call_congr hroot h hinner
  | list items =>
    have hitems : d.compileAll items = c.compileAll items := compileAll_congr hroot h
    rw [eval, eval, hitems]
  | tuple items =>
    have hitems : d.compileAll items = c.compileAll items := compileAll_congr hroot h
    rw [eval, eval, hitems]
  | _ => rfl

end Agrees

/-- The conditions on the elements of the array of a quantifier are inside it. -/
theorem inside_of_mem_elementConditions {a element array p : Expr} {target : String}
    {filters : List Expr} (hparts : a.comprehensionParts? = some (element, [⟨target, array, filters⟩]))
    (hp : p ∈ Expr.elementConditions target element filters) : p.Inside a := by
  have hmem : p ∈ a.parts := by
    have hsub : p ∈ element :: filters := by
      rw [Expr.elementConditions] at hp
      split at hp
      · exact List.mem_cons_of_mem _ hp
      · exact hp
    obtain rfl | rfl := Expr.comprehensionParts_cases hparts <;> grind [Expr.parts]
  exact .part hmem .self

/-- The value of an expression depends on the context only through what is evaluated for it. -/
theorem eval_eq_of_visits {c d : Context} {e : Expr} (hroot : d.rootOf = c.rootOf)
    (h : ∀ vs x, Visits c e vs x → Agrees (c.under vs) (d.under vs) x) : d.eval e = c.eval e := by
  -- What is evaluated for a part may stand deeper, as the array of a comprehension does.
  induction e using Expr.inside_induction generalizing c d with
  | step e ih =>
    apply eval_congr hroot (h [] e (.self c e))
    · intro p hp
      obtain ⟨q, hq, hinside⟩ := Expr.inside_of_mem_ownParts (mem_ownParts_of_mem_evaluatedParts hp)
      exact ih q hq p hinside hroot fun vs x hx => h vs x (.part hp hx)
    · rintro a element array target filters rfl hparts p hp
      have hinside := inside_of_mem_elementConditions hparts hp
      refine ih a (by simp [Expr.parts]) p hinside hroot fun vs x hx => ?_
      have hagrees := h _ x (.inside hparts hp hx)
      rwa [under_concat, under_concat] at hagrees

theorem considered_congr {c d : Context} {op : BoolOp} {es : List Expr}
    (h : ∀ e ∈ c.considered op es, d.eval e = c.eval e) : d.considered op es = c.considered op es := by
  induction es with
  | nil => rfl
  | cons e es ih =>
    obtain ⟨he, hes⟩ := List.forall_mem_cons.1 h
    have hsatisfies : d.satisfies e = c.satisfies e := by rw [satisfies, satisfies, he]
    rw [considered, considered, hsatisfies]
    by_cases hend : (op = .or && c.satisfies e) = true
    · rw [if_pos hend, if_pos hend]
    · rw [if_neg hend] at hes
      rw [if_neg hend, if_neg hend, ih hes]

theorem evaluatedParts_congr {c d : Context} {e : Expr} (hself : d.isGuaranteed e = c.isGuaranteed e)
    (h : ∀ p ∈ c.evaluatedParts e, d.eval p = c.eval p) :
    d.evaluatedParts e = c.evaluatedParts e := by
  cases e with
  | compare left ops operands => rw [evaluatedParts, evaluatedParts, hself]
  | boolean op operands => exact considered_congr h
  | _ => rfl

/-- Contexts that agree on what is evaluated in the one evaluate the same in the other. -/
theorem Visits.of_agrees {c d : Context} {e x : Expr} {vs : List String} (hx : Visits d e vs x)
    (hroot : d.rootOf = c.rootOf)
    (h : ∀ us y, Visits c e us y → Agrees (c.under us) (d.under us) y) : Visits c e vs x := by
  induction hx generalizing c with
  | self d e => exact .self c e
  | @part d e p x vs hp _ ih =>
    have hparts : d.evaluatedParts e = c.evaluatedParts e := by
      apply evaluatedParts_congr (h [] e (.self c e)).1
      exact fun p hp => eval_eq_of_visits hroot fun us y hy => h us y (.part hp hy)
    rw [hparts] at hp
    exact .part hp (ih hroot fun us y hy => h us y (.part hp hy))
  | inside hparts hp _ ih =>
    refine .inside hparts hp (ih hroot fun us y hy => ?_)
    have hagrees := h _ y (.inside hparts hp hy)
    rwa [under_concat, under_concat] at hagrees

/-! ## Values that are used -/

/-- Whether a value is a class without members. Nothing can be made of it. -/
def Value.isBare : Value → Bool
  | bound (.holder _ []) => true
  | _ => false

/-- The expression has a value that something can be made of. -/
def Usable (c : Context) (e : Expr) : Prop := ∃ v, c.eval e = .ok v ∧ v.isBare = false

section Usable

variable {c : Context} {e p : Expr} {es : List Expr} {v w : Value} {sql : String}

theorem Usable.exists_eval (h : Usable c e) : ∃ w, c.eval e = .ok w := by
  obtain ⟨w, hw, -⟩ := h
  exact ⟨w, hw⟩

theorem isBare_of_sqlOf (h : c.sqlOf e v = .ok sql) : v.isBare = false := by
  cases v with
  | bound value =>
    cases value with
    | constant l => rfl
    | holder name members => cases h
  | _ => rfl

theorem isBare_of_attributeOf {label : String} (h : c.attributeOf e label v = .ok w) :
    v.isBare = false := by
  cases v with
  | bound value =>
    cases value with
    | constant l => rfl
    | holder name members =>
      cases members with
      | nil => cases h
      | cons member members => rfl
  | _ => rfl

theorem isBare_of_itemOf {index : Expr} (h : itemOf e index v = .ok w) : v.isBare = false := by
  cases v with
  | path path => rfl
  | _ => cases h

theorem usable_of_sqlOf (hv : c.eval e = .ok v) (h : c.sqlOf e v = .ok sql) : Usable c e :=
  ⟨v, hv, isBare_of_sqlOf h⟩

theorem usable_literal (c : Context) (l : Literal) : Usable c (.literal l) := ⟨_, rfl, rfl⟩

theorem usable_of_pieces {ps : List Piece} (hps : ps.map (·.expr) = es)
    (hvalues : ∀ p ∈ ps, c.eval p.expr = .ok p.value)
    (hsql : ∀ p ∈ ps, c.sqlOf p.expr p.value = .ok p.sql) : ∀ e ∈ es, Usable c e := by
  subst hps
  exact List.forall_mem_map.2 fun p hp => usable_of_sqlOf (hvalues p hp) (hsql p hp)

theorem usable_of_compileAll {items : List String} (h : c.compileAll es = .ok items) :
    ∀ e ∈ es, Usable c e := by
  obtain ⟨ps, hps, -, hvalues, hsql⟩ := exists_pieces_of_compileAll h
  exact usable_of_pieces hps hvalues hsql

theorem usable_of_linked {left : Expr} {ops : List CmpOp} (h : linked c left ops es = .ok v) :
    ∀ e ∈ left :: es, Usable c e := by
  rw [linked] at h
  split at h
  · cases h
  rename_i hshape
  obtain ⟨u, hu, h⟩ := bind_eq_ok h
  obtain ⟨first, hfirst, h⟩ := bind_eq_ok h
  obtain ⟨items, hitems, h⟩ := bind_eq_ok h
  obtain ⟨links, -, rfl, -, hvalues, hsql⟩ :=
    exists_pieces_of_links (not_not.1 (not_or.1 hshape).1) hitems
  refine List.forall_mem_cons.2 ⟨usable_of_sqlOf hu hfirst, List.forall_mem_map.2 ?_⟩
  exact fun l hl => usable_of_sqlOf (hvalues l hl) (hsql l hl)

theorem usable_of_listed {right : Expr} {items : List Expr} {texts : List String}
    (hlist : listed? right = some items) (h : c.compileAll items = .ok texts) : Usable c right := by
  obtain rfl | rfl | ⟨rfl, -⟩ := listed_cases hlist
  · exact ⟨.sequence texts, by rw [eval, h]; rfl, rfl⟩
  · exact ⟨.sequence texts, by rw [eval, h]; rfl, rfl⟩
  · exact usable_literal c .none

theorem usable_of_testedIn {left right : Expr} {op : CmpOp} {ops : List CmpOp}
    (h : testedIn c left op ops right = .ok v) : ∀ e ∈ [left, right], Usable c e := by
  cases left with
  | literal l =>
    cases l with
    | str text =>
      obtain ⟨w, hw, h⟩ := bind_eq_ok h
      obtain ⟨r, hr, -⟩ := bind_eq_ok h
      simpa using ⟨usable_literal c _, usable_of_sqlOf hw hr⟩
    | _ => exact usable_of_linked h
  | name id =>
    rw [testedIn] at h
    split at h
    · obtain ⟨w, -, h⟩ := bind_eq_ok h
      cases w with
      | path p => cases h
      | _ => exact usable_of_linked h
    · exact usable_of_linked h
  | _ => exact usable_of_linked h

theorem usable_of_compare {left : Expr} {ops : List CmpOp}
    (h : c.eval (.compare left ops es) = .ok v) :
    ∀ p ∈ c.evaluatedParts (.compare left ops es), Usable c p := by
  rw [evaluatedParts]
  rw [eval_compare] at h
  split at h
  · rename_i hg
    simp [if_pos hg]
  rename_i hg
  rw [if_neg hg]
  split at h
  · split at h
    · rename_i items hlist
      obtain ⟨u, hu, h⟩ := bind_eq_ok h
      obtain ⟨l, hl, h⟩ := bind_eq_ok h
      obtain ⟨texts, htexts, -⟩ := bind_eq_ok h
      simpa using ⟨usable_of_sqlOf hu hl, usable_of_listed hlist htexts⟩
    · exact usable_of_testedIn h
  · exact usable_of_linked h

theorem usable_of_conditions {op : BoolOp} {answer : Option (List String)}
    (h : c.conditions op es = .ok answer) : ∀ e ∈ c.considered op es, Usable c e := by
  induction es generalizing answer with
  | nil => simp [considered]
  | cons e es ih =>
    rw [conditions] at h
    obtain ⟨v, hv, h⟩ := bind_eq_ok h
    obtain ⟨condition, hcondition, h⟩ := bind_eq_ok h
    obtain ⟨sql, hsql, rfl⟩ := exists_sql_of_conditionOf hcondition
    rw [considered]
    refine List.forall_mem_cons.2 ⟨usable_of_sqlOf hv hsql, ?_⟩
    have hsatisfies : c.satisfies e = v.isSatisfied := by simp [satisfies, hv, Except.toOption]
    rw [hsatisfies]
    cases hend : v.isSatisfied with
    | false =>
      rw [hend] at h
      obtain ⟨rest, hrest, -⟩ := bind_eq_ok h
      simpa using ih hrest
    | true =>
      rw [hend] at h
      by_cases hor : op = .or
      · simp [hor]
      · have hrest : c.conditions op es = .ok answer := by simpa [hor] using h
        simpa [hor] using ih hrest

theorem usable_of_unary {op : UnaryOp} (h : c.eval (.unary op e) = .ok v) : Usable c e := by
  rw [eval] at h
  split at h
  · rename_i hnumber
    cases e with
    | literal l => exact usable_literal c l
    | _ => simp [Expr.isNumber] at hnumber
  · split at h
    · obtain ⟨w, hw, h⟩ := bind_eq_ok h
      obtain ⟨sql, hsql, -⟩ := bind_eq_ok h
      exact usable_of_sqlOf hw hsql
    · obtain ⟨w, hw, h⟩ := bind_eq_ok h
      rw [signedOf.eq_def] at h
      split at h
      · cases h
      · obtain ⟨sql, hsql, -⟩ := bind_eq_ok h
        exact usable_of_sqlOf hw hsql

/-- The array and the conditions of a quantifier that has a value. -/
theorem usable_of_existential {element array : Expr} {target : String} {filters : List Expr}
    (h : existential c element target array filters = .ok v) :
    Usable c array ∧
      ∀ p ∈ Expr.elementConditions target element filters, Usable (c.within target) p := by
  obtain ⟨w, hw, h⟩ := bind_eq_ok h
  obtain ⟨path, hpath, h⟩ := bind_eq_ok h
  obtain ⟨ps, hps, -, hvalues, hsql⟩ := exists_pieces_of_element h
  refine ⟨⟨w, hw, ?_⟩, usable_of_pieces hps hvalues hsql⟩
  cases w with
  | path p => rfl
  | _ => cases hpath

theorem usable_of_quantified {element array : Expr} {target : String} {filters : List Expr}
    (hparts : e.comprehensionParts? = some (element, [⟨target, array, filters⟩]))
    (h : c.quantified [e] = some (.ok v)) :
    Usable c array ∧
      ∀ p ∈ Expr.elementConditions target element filters, Usable (c.within target) p := by
  rw [quantified_singleton, hparts] at h
  dsimp only at h
  split at h
  · exact usable_of_existential (Option.some.inj h)
  · cases h

/-- The comprehension of a quantifier that has a value. -/
theorem exists_parts_of_quantified (h : c.quantified [e] = some (.ok v)) :
    ∃ element target array filters,
      e.comprehensionParts? = some (element, [⟨target, array, filters⟩]) := by
  rw [quantified_singleton] at h
  split at h
  · exact ⟨_, _, _, _, ‹_›⟩
  · cases h

theorem comprehensionParts_of_eval (h : c.eval e = .ok v) : e.comprehensionParts? = none := by
  cases e with
  | listComp => cases h
  | generator => cases h
  | _ => rfl

theorem usable_of_call {callee : Expr} {args : List Expr} {keywords : List (Keyword Expr)}
    (h : c.eval (.call callee args keywords) = .ok v) :
    ∀ p ∈ (Expr.call callee args keywords).ownParts, Usable c p := by
  rw [eval.eq_def] at h
  dsimp only at h
  split at h
  · cases h
  split at h
  · rename_i id
    split at h
    · split at h
      · rename_i argument
        obtain ⟨w, hw, h⟩ := bind_eq_ok h
        split at h
        · simpa [Expr.ownParts, comprehensionParts_of_eval hw] using ⟨_, hw, rfl⟩
        · cases h
      · cases h
    · split at h
      · rename_i answer hanswer
        subst h
        split at hanswer
        · obtain ⟨e, rfl⟩ := quantified_eq_some hanswer
          obtain ⟨element, target, array, filters, hparts⟩ := exists_parts_of_quantified hanswer
          simpa [Expr.ownParts, hparts] using (usable_of_quantified hparts hanswer).1
        · cases hanswer
      · cases h
  · split at h
    · split at h
      · obtain ⟨w, hw, h⟩ := bind_eq_ok h
        obtain ⟨r, hr, -⟩ := bind_eq_ok h
        simpa [Expr.ownParts] using usable_of_sqlOf hw hr
      · cases h
    · cases h
  · cases h

/-- If an expression has a value, something can be made of the values of its parts. -/
theorem usable_of_part (h : c.eval e = .ok v) (hp : p ∈ c.evaluatedParts e) : Usable c p := by
  cases e with
  | attr value label =>
    obtain ⟨w, hw, hlabel⟩ := bind_eq_ok h
    cases List.mem_singleton.1 hp
    exact ⟨w, hw, isBare_of_attributeOf hlabel⟩
  | subscript value index =>
    obtain ⟨w, hw, hitem⟩ := bind_eq_ok h
    cases List.mem_singleton.1 hp
    exact ⟨w, hw, isBare_of_itemOf hitem⟩
  | binary left op right =>
    rw [eval] at h
    obtain ⟨u, hu, h⟩ := bind_eq_ok h
    obtain ⟨l, hl, h⟩ := bind_eq_ok h
    obtain ⟨w, hw, h⟩ := bind_eq_ok h
    obtain ⟨r, hr, -⟩ := bind_eq_ok h
    simp only [evaluatedParts, Expr.ownParts, List.mem_cons, List.not_mem_nil, or_false] at hp
    rcases hp with rfl | rfl
    · exact usable_of_sqlOf hu hl
    · exact usable_of_sqlOf hw hr
  | unary op operand =>
    cases List.mem_singleton.1 hp
    exact usable_of_unary h
  | compare left ops operands => exact usable_of_compare h p hp
  | boolean op operands =>
    rw [eval] at h
    obtain ⟨answer, hanswer, -⟩ := bind_eq_ok h
    exact usable_of_conditions hanswer p hp
  | conditional test body otherwise =>
    rw [eval] at h
    obtain ⟨u, hu, h⟩ := bind_eq_ok h
    obtain ⟨t, ht, h⟩ := bind_eq_ok h
    obtain ⟨w, hw, h⟩ := bind_eq_ok h
    obtain ⟨b, hb, h⟩ := bind_eq_ok h
    obtain ⟨x, hx, h⟩ := bind_eq_ok h
    obtain ⟨o, ho, -⟩ := bind_eq_ok h
    simp only [evaluatedParts, Expr.ownParts, List.mem_cons, List.not_mem_nil, or_false] at hp
    rcases hp with rfl | rfl | rfl
    · exact usable_of_sqlOf hu ht
    · exact usable_of_sqlOf hw hb
    · exact usable_of_sqlOf hx ho
  | call callee args keywords => exact usable_of_call h p hp
  | list items =>
    rw [eval] at h
    obtain ⟨texts, htexts, -⟩ := bind_eq_ok h
    exact usable_of_compileAll htexts p hp
  | tuple items =>
    rw [eval] at h
    obtain ⟨texts, htexts, -⟩ := bind_eq_ok h
    exact usable_of_compileAll htexts p hp
  | _ => cases hp

theorem usable_of_condition {element array : Expr} {target : String} {filters : List Expr}
    (hparts : e.comprehensionParts? = some (element, [⟨target, array, filters⟩]))
    (h : c.eval (.call (.name Expr.quantifierName) [e] []) = .ok v)
    (hp : p ∈ Expr.elementConditions target element filters) : Usable (c.within target) p := by
  have hquantified : c.quantified [e] = some (.ok v) := by
    cases hanswer : c.quantified [e] with
    | none => simp [eval, Expr.quantifierName, hanswer] at h
    | some answer =>
      simp only [eval, Expr.quantifierName, hanswer] at h
      exact congrArg some h
  exact (usable_of_quantified hparts hquantified).2 p hp

/-- If an expression has a value that something can be made of, so has all that is evaluated for it. -/
theorem Visits.usable {vs : List String} {x : Expr} (hx : Visits c e vs x) (h : Usable c e) :
    Usable (c.under vs) x := by
  induction hx with
  | self => exact h
  | part hp _ ih =>
    obtain ⟨v, hv, -⟩ := h
    exact ih (usable_of_part hv hp)
  | inside hparts hp _ ih =>
    obtain ⟨v, hv, -⟩ := h
    rw [under_concat]
    exact ih (usable_of_condition hparts hv hp)

end Usable

end Sql

end DocQuery
