import DocQuery.Proofs.Locality

/-! # What is refused

An expression is refused as a whole if something in it has no SQL form: evaluation looks at every
part. Connectives without operands are the exception. They are satisfied, and a disjunction does not
look behind an operand that is satisfied; but no text is read as such a connective.

* `Site.isUnsupported`: an expression has no SQL form where it stands.
* `Site.Filled`: every connective in an expression has operands.
* `Sql.admits`: what has a value is supported throughout.
* `Sql.compile_unsupported`: what holds something unsupported is refused.
-/

set_option autoImplicit false

namespace DocQuery

/-- Whether a call of the expression has an SQL form: that of `len`, or the test of one end of a
text. -/
def Expr.isFunction : Expr → Bool
  | name id => id == "len"
  | attr _ label => label == "startswith" || label == "endswith"
  | _ => false

namespace Site

/-- Whether an expression has no SQL form where it stands. A comprehension has one only as the
argument of a quantifier. -/
def isUnsupported : Site → Bool
  | ⟨_, .lambda _ _ _ _⟩ => true
  | ⟨_, .starred _⟩ => true
  | ⟨_, .slice _ _ _⟩ => true
  | ⟨_, .display _⟩ => true
  | ⟨_, .binary _ op _⟩ => op = .matMul
  | ⟨_, .call callee args keywords⟩ =>
    !keywords.isEmpty ||
      !(callee.isFunction || (Expr.call callee args keywords).quantifierCall?.isSome)
  | ⟨place, .listComp _ _⟩ => place ≠ .quantified
  | ⟨place, .generator _ _⟩ => place ≠ .quantified
  | _ => false

/-- Everything in the expression has an SQL form where it stands. -/
def Supported (s : Site) : Prop := ∀ x, Occurs x s → x.isUnsupported = false

/-- Every connective in the expression has operands. -/
def Filled (s : Site) : Prop := ∀ x, Occurs x s → ∀ op, x.expr ≠ .boolean op []

theorem Filled.part {s p : Site} (h : s.Filled) (hp : p ∈ s.parts) : p.Filled :=
  fun x hx => h x (.part hp hx)

theorem supported_of_parts {s : Site} (h : s.isUnsupported = false)
    (hparts : ∀ p ∈ s.parts, p.Supported) : s.Supported :=
  forall_occurs_iff.2 ⟨h, hparts⟩

/-- An expression that has no parts. -/
theorem supported_of_leaf {place : Role} {e : Expr} (h : isUnsupported ⟨place, e⟩ = false)
    (hparts : e.parts = []) : Supported ⟨place, e⟩ := by
  refine supported_of_parts h fun p hp => ?_
  have hmem := List.mem_map_of_mem (f := expr) hp
  rw [map_expr_parts, hparts] at hmem
  cases hmem

end Site

/-- No text is read as a connective without operands. -/
theorem Parsed.filled {e : Expr} (h : Parsed e) (place : Role) : Site.Filled ⟨place, e⟩ := by
  rintro ⟨q, _⟩ hx op rfl
  have htwo : 2 ≤ ([] : List Expr).length := h.sound place _ hx
  cases htwo

namespace Sql

open Context Site

/-- Where the expression has a value, it is not satisfied, and everything in it is supported. -/
def Admits (e : Expr) : Prop :=
  ∀ (c : Context) (v : Value) (place : Role), c.guaranteed = none → Filled ⟨place, e⟩ →
    c.eval e = .ok v → v.isSatisfied = false ∧ Supported ⟨place, e⟩

variable {c : Context} {e : Expr} {v : Value} {place : Role}

/-- An expression all of whose parts have values. -/
theorem supported_of_values (hc : c.guaranteed = none) (hfilled : Filled ⟨place, e⟩)
    (h : isUnsupported ⟨place, e⟩ = false) (ih : ∀ p ∈ e.parts, Admits p)
    (hvalues : ∀ p ∈ e.parts, ∃ w, c.eval p = .ok w) : Supported ⟨place, e⟩ := by
  refine supported_of_parts h fun p hp => ?_
  have hmem : p.expr ∈ e.parts := map_expr_parts ⟨place, e⟩ ▸ List.mem_map_of_mem hp
  obtain ⟨w, hw⟩ := hvalues p.expr hmem
  exact (ih p.expr hmem c w p.place hc (hfilled.part hp) hw).2

/-! ## Operands -/

theorem exists_eval_of_pieces {ps : List Piece} {es : List Expr} (hps : ps.map (·.expr) = es)
    (hvalues : ∀ p ∈ ps, c.eval p.expr = .ok p.value) : ∀ e ∈ es, ∃ w, c.eval e = .ok w := by
  subst hps
  exact List.forall_mem_map.2 fun p hp => ⟨p.value, hvalues p hp⟩

theorem exists_eval_of_compare {left : Expr} {ops : List CmpOp} {operands : List Expr}
    (hc : c.guaranteed = none) (h : c.eval (.compare left ops operands) = .ok v) :
    v.isSatisfied = false ∧ ∀ e ∈ left :: operands, ∃ w, c.eval e = .ok w := by
  have hg : c.isGuaranteed (.compare left ops operands) = false := by rw [isGuaranteed, hc]; rfl
  constructor
  · cases compared_of_eval h with
    | guaranteed hguaranteed => simp [hg] at hguaranteed
    | _ => rfl
  · exact fun e he => (usable_of_part h (by simpa [evaluatedParts, hg] using he)).exists_eval

/-- Where no operand is satisfied, every operand of a connective has a value. -/
theorem exists_eval_of_boolean {op : BoolOp} {operands : List Expr} (hne : operands ≠ [])
    (hoperands : ∀ e ∈ operands, ∀ w, c.eval e = .ok w → w.isSatisfied = false)
    (h : c.eval (.boolean op operands) = .ok v) :
    v.isSatisfied = false ∧ ∀ e ∈ operands, ∃ w, c.eval e = .ok w := by
  rw [eval] at h
  obtain ⟨answer, hanswer, h⟩ := bind_eq_ok h
  rcases exists_pieces_of_conditions hanswer with ⟨ps, rfl, rfl, -, hvalues, -⟩ |
    ⟨-, -, e, he, hsatisfied⟩
  · refine ⟨?_, exists_eval_of_pieces rfl hvalues⟩
    have hall : ps.filter (!·.value.isSatisfied) = ps := by
      refine List.filter_eq_self.2 fun p hp => ?_
      simp [hoperands p.expr (List.mem_map_of_mem hp) p.value (hvalues p hp)]
    cases h
    rw [conditionTexts, hall]
    rcases ps with _ | ⟨p, _ | ⟨q, rest⟩⟩
    · exact absurd rfl hne
    · rfl
    · rfl
  · cases hoperands e he _ hsatisfied

theorem isSatisfied_of_unary {op : UnaryOp} (h : c.eval (.unary op e) = .ok v) :
    v.isSatisfied = false := by
  rw [eval] at h
  split at h
  · cases h
    rfl
  · split at h
    · obtain ⟨w, -, h⟩ := bind_eq_ok h
      obtain ⟨sql, -, h⟩ := bind_eq_ok h
      cases h
      rfl
    · obtain ⟨w, -, h⟩ := bind_eq_ok h
      rw [signedOf.eq_def] at h
      split at h
      · cases h
      · obtain ⟨sql, -, h⟩ := bind_eq_ok h
        cases h
        rfl

/-- An index of an array is a number or a text, so it has a value. -/
theorem exists_eval_of_segment {index : Expr} {s : Segment} (h : segment? index = some s) :
    ∃ w, c.eval index = .ok w := by
  rw [segment?.eq_def] at h
  split at h
  · exact ⟨_, rfl⟩
  · exact ⟨_, rfl⟩
  · exact ⟨_, rfl⟩
  · cases h

/-! ## Calls -/

/-- The comprehension of a quantifier: the array has a value outside of the iteration, the
conditions on the elements have values inside. -/
theorem supported_comprehension {element array : Expr} {target : String} {filters : List Expr}
    (hparts : e.comprehensionParts? = some (element, [⟨target, array, filters⟩]))
    (hc : c.guaranteed = none) (hfilled : Filled ⟨.quantified, e⟩) (ih : ∀ p ∈ e.parts, Admits p)
    (h : existential c element target array filters = .ok v) :
    v.isSatisfied = false ∧ Supported ⟨.quantified, e⟩ := by
  obtain ⟨w, hw, h⟩ := bind_eq_ok h
  obtain ⟨path, -, h⟩ := bind_eq_ok h
  obtain ⟨ps, hps, rfl, hvalues, -⟩ := exists_pieces_of_element h
  have hconditions := exists_eval_of_pieces hps hvalues
  have hshape : e.parts = element :: array :: filters ∧ isUnsupported ⟨.quantified, e⟩ = false := by
    obtain rfl | rfl := Expr.comprehensionParts_cases hparts <;> simp [Expr.parts, isUnsupported]
  obtain ⟨hlist, hself⟩ := hshape
  refine ⟨rfl, supported_of_parts hself fun p hp => ?_⟩
  have hmem : p.expr ∈ e.parts := map_expr_parts ⟨.quantified, e⟩ ▸ List.mem_map_of_mem hp
  have hvalue : ∀ d : Context, d.guaranteed = none → (∃ w, d.eval p.expr = .ok w) →
      p.Supported := by
    rintro d hd ⟨w, hw⟩
    exact (ih p.expr hmem d w p.place hd (hfilled.part hp) hw).2
  rw [hlist, List.mem_cons, List.mem_cons] at hmem
  rcases hmem with helement | harray | hfilter
  · cases hname : element.asName? with
    | none =>
      refine hvalue (c.within target) rfl (hconditions _ ?_)
      rw [Expr.elementConditions, if_neg (by simp [hname]), helement]
      exact List.mem_cons_self
    | some id =>
      refine hvalue (c.within target) rfl ?_
      rw [helement]
      cases element with
      | name id => exact ⟨_, rfl⟩
      | _ => cases hname
  · exact hvalue c hc ⟨w, harray ▸ hw⟩
  · refine hvalue (c.within target) rfl (hconditions _ ?_)
    rw [Expr.elementConditions]
    split
    · exact hfilter
    · exact List.mem_cons_of_mem _ hfilter

theorem supported_quantifier (hc : c.guaranteed = none)
    (hfilled : Filled ⟨place, .call (.name Expr.quantifierName) [e] []⟩)
    (ih : ∀ p ∈ e.parts, Admits p) (h : c.quantified [e] = some (.ok v)) :
    v.isSatisfied = false ∧ Supported ⟨place, .call (.name Expr.quantifierName) [e] []⟩ := by
  rw [quantified_singleton] at h
  split at h
  · rename_i element target array filters hparts
    split at h
    · rename_i hchain
      have hcall : (Expr.call (.name Expr.quantifierName) [e] []).quantifierCall?.isSome = true := by
        simp [Expr.quantifierCall?, hparts, hchain]
      have hsites : parts ⟨place, .call (.name Expr.quantifierName) [e] []⟩ =
          [⟨.elsewhere, .name Expr.quantifierName⟩, ⟨.quantified, e⟩] := by
        simp [parts, hcall]
      have hfilledArgument := hfilled.part (p := ⟨.quantified, e⟩) (by simp [hsites])
      obtain ⟨hv, hargument⟩ :=
        supported_comprehension hparts hc hfilledArgument ih (Option.some.inj h)
      refine ⟨hv, supported_of_parts (by simp [isUnsupported, hcall]) ?_⟩
      rw [hsites]
      simpa using ⟨supported_of_leaf rfl rfl, hargument⟩
    · cases h
  · cases h

/-- A method has no value of its own, but what it is called on has one. -/
theorem supported_method {value : Expr} {label text : String} {w : Value}
    (hmethod : (endPattern? label "").isSome = true) (hc : c.guaranteed = none)
    (hfilled : Filled ⟨place, .call (.attr value label) [.literal (.str text)] []⟩)
    (ih : Admits value) (hw : c.eval value = .ok w) :
    Supported ⟨place, .call (.attr value label) [.literal (.str text)] []⟩ := by
  have hlabel : label = "startswith" ∨ label = "endswith" := by
    unfold endPattern? at hmethod
    split at hmethod
    · exact .inl ‹_›
    · split at hmethod
      · exact .inr ‹_›
      · cases hmethod
  have hfunction : (Expr.attr value label).isFunction = true := by simpa [Expr.isFunction] using hlabel
  refine supported_of_parts (by simp [isUnsupported, hfunction]) fun p hp => ?_
  have hpart := hfilled.part hp
  simp only [parts, List.map_cons, List.map_nil, List.append_nil, List.mem_cons, List.not_mem_nil,
    or_false] at hp
  rcases hp with rfl | rfl
  · refine supported_of_parts rfl fun q hq => ?_
    have hvalue := hpart.part hq
    cases List.mem_singleton.1 hq
    exact (ih c w _ hc hvalue hw).2
  · exact supported_of_leaf rfl rfl

theorem admits_call {callee : Expr} {args : List Expr} {keywords : List (Keyword Expr)}
    (ih : ∀ p ∈ (Expr.call callee args keywords).parts, ∀ x, x.Inside p → Admits x) :
    Admits (.call callee args keywords) := by
  intro c v place hc hfilled h
  rw [eval.eq_def] at h
  dsimp only at h
  split at h
  · cases h
  rename_i hkeywords
  obtain rfl : keywords = [] := by simpa using hkeywords
  split at h
  · rename_i id
    split at h
    · rename_i hlen
      subst hlen
      split at h
      · rename_i e
        obtain ⟨w, hw, h⟩ := bind_eq_ok h
        split at h
        · cases h
          refine ⟨rfl, supported_of_values hc hfilled rfl (fun p hp => ih p hp p .self) ?_⟩
          simpa [Expr.parts] using ⟨⟨_, rfl⟩, ⟨_, hw⟩⟩
        · cases h
      · cases h
    · split at h
      · rename_i answer hanswer
        subst h
        split at hanswer
        · rename_i hany
          subst hany
          obtain ⟨e, rfl⟩ := quantified_eq_some hanswer
          have hparts : ∀ p ∈ e.parts, Admits p := fun p hp =>
            ih e (by simp [Expr.parts]) p (.part hp .self)
          exact supported_quantifier hc hfilled hparts hanswer
        · cases hanswer
      · cases h
  · rename_i value label
    split at h
    · rename_i hmethod
      split at h
      · obtain ⟨w, hw, h⟩ := bind_eq_ok h
        obtain ⟨r, -, h⟩ := bind_eq_ok h
        cases h
        have hvalue : Admits value :=
          ih _ List.mem_cons_self value (.part List.mem_cons_self .self)
        exact ⟨rfl, supported_method hmethod hc hfilled hvalue hw⟩
      · cases h
    · cases h
  · cases h

/-! ## Every expression -/

theorem admits_subscript {value index : Expr}
    (ih : ∀ p ∈ (Expr.subscript value index).parts, Admits p) : Admits (.subscript value index) := by
  intro c v place hc hfilled h
  rw [eval] at h
  obtain ⟨w, hw, h⟩ := bind_eq_ok h
  rw [itemOf.eq_def] at h
  split at h
  · split at h
    · rename_i s hs
      cases h
      refine ⟨rfl, supported_of_values hc hfilled rfl ih ?_⟩
      simpa [Expr.parts] using ⟨⟨_, hw⟩, exists_eval_of_segment hs⟩
    · cases h
  · cases h

theorem admits_binary {left right : Expr} {op : BinaryOp}
    (ih : ∀ p ∈ (Expr.binary left op right).parts, Admits p) : Admits (.binary left op right) := by
  intro c v place hc hfilled h
  rw [eval] at h
  obtain ⟨u, hu, h⟩ := bind_eq_ok h
  obtain ⟨l, -, h⟩ := bind_eq_ok h
  obtain ⟨w, hw, h⟩ := bind_eq_ok h
  obtain ⟨r, -, h⟩ := bind_eq_ok h
  have hop : op ≠ .matMul := by
    rintro rfl
    cases h
  split at h
  · cases h
    refine ⟨rfl, supported_of_values hc hfilled (by simpa [isUnsupported] using hop) ih ?_⟩
    simpa [Expr.parts] using ⟨⟨u, hu⟩, ⟨w, hw⟩⟩
  · cases h

theorem admits_boolean {op : BoolOp} {operands : List Expr} (ih : ∀ p ∈ operands, Admits p) :
    Admits (.boolean op operands) := by
  intro c v place hc hfilled h
  have hne : operands ≠ [] := by
    rintro rfl
    exact hfilled _ .self op rfl
  have hoperands : ∀ e ∈ operands, ∀ w, c.eval e = .ok w → w.isSatisfied = false := by
    intro e he w hw
    have hpart : (⟨.elsewhere, e⟩ : Site) ∈ parts ⟨place, .boolean op operands⟩ :=
      List.mem_map_of_mem he
    exact (ih e he c w .elsewhere hc (hfilled.part hpart) hw).1
  obtain ⟨hv, hvalues⟩ := exists_eval_of_boolean hne hoperands h
  exact ⟨hv, supported_of_values hc hfilled rfl ih hvalues⟩

/-- What has a value is supported throughout. -/
theorem admits (e : Expr) : Admits e := by
  -- The parts alone are not enough: a quantifier evaluates parts of its argument, and a call of a
  -- method evaluates the object of its callee.
  induction e using Expr.inside_induction with
  | step e ih =>
    have hparts : ∀ p ∈ e.parts, Admits p := fun p hp => ih p hp p .self
    cases e with
    | literal l =>
      intro c v place hc hfilled h
      cases h
      exact ⟨rfl, supported_of_leaf rfl rfl⟩
    | name id =>
      intro c v place hc hfilled h
      cases h
      exact ⟨isSatisfied_eq_false named_ne_satisfied, supported_of_leaf rfl rfl⟩
    | attr value label =>
      intro c v place hc hfilled h
      rw [eval] at h
      obtain ⟨w, hw, h⟩ := bind_eq_ok h
      refine ⟨isSatisfied_eq_false ?_, supported_of_values hc hfilled rfl hparts ?_⟩
      · rintro rfl
        exact attributeOf_ne_satisfied h
      · simpa [Expr.parts] using ⟨w, hw⟩
    | subscript value index => exact admits_subscript hparts
    | binary left op right => exact admits_binary hparts
    | unary op operand =>
      intro c v place hc hfilled h
      have hvalue := (usable_of_unary h).exists_eval
      refine ⟨isSatisfied_of_unary h, supported_of_values hc hfilled rfl hparts ?_⟩
      simpa [Expr.parts] using hvalue
    | compare left ops operands =>
      intro c v place hc hfilled h
      obtain ⟨hv, hvalues⟩ := exists_eval_of_compare hc h
      exact ⟨hv, supported_of_values hc hfilled rfl hparts hvalues⟩
    | boolean op operands => exact admits_boolean hparts
    | conditional test body otherwise =>
      intro c v place hc hfilled h
      rw [eval] at h
      obtain ⟨u, hu, h⟩ := bind_eq_ok h
      obtain ⟨t, -, h⟩ := bind_eq_ok h
      obtain ⟨w, hw, h⟩ := bind_eq_ok h
      obtain ⟨b, -, h⟩ := bind_eq_ok h
      obtain ⟨x, hx, h⟩ := bind_eq_ok h
      obtain ⟨o, -, h⟩ := bind_eq_ok h
      cases h
      refine ⟨rfl, supported_of_values hc hfilled rfl hparts ?_⟩
      simpa [Expr.parts] using ⟨⟨u, hu⟩, ⟨w, hw⟩, ⟨x, hx⟩⟩
    | call callee args keywords => exact admits_call ih
    | list items =>
      intro c v place hc hfilled h
      have hvalues := fun p hp => (usable_of_part (p := p) h hp).exists_eval
      rw [eval] at h
      obtain ⟨texts, -, h⟩ := bind_eq_ok h
      cases h
      exact ⟨rfl, supported_of_values hc hfilled rfl hparts hvalues⟩
    | tuple items =>
      intro c v place hc hfilled h
      have hvalues := fun p hp => (usable_of_part (p := p) h hp).exists_eval
      rw [eval] at h
      obtain ⟨texts, -, h⟩ := bind_eq_ok h
      cases h
      exact ⟨rfl, supported_of_values hc hfilled rfl hparts hvalues⟩
    | _ =>
      intro c v place hc hfilled h
      simp [eval] at h

/-- An expression that holds something unsupported, at any depth, is refused. -/
theorem compile_unsupported {c : Context} (hc : c.guaranteed = none) {e : Expr} {x : Site}
    (hx : x.Occurs ⟨.elsewhere, e⟩) (hunsupported : x.isUnsupported = true)
    (hfilled : Filled ⟨.elsewhere, e⟩) : ∃ refusal, c.compile e = .error refusal := by
  cases hcompile : c.compile e with
  | error refusal => exact ⟨refusal, rfl⟩
  | ok sql =>
    obtain ⟨v, hv, -⟩ := bind_eq_ok hcompile
    have hsupported := (admits e c v .elsewhere hc hfilled hv).2 x hx
    rw [hsupported] at hunsupported
    cases hunsupported

theorem compile_unsupported_slice : ∃ e : Expr,
    Expr.parse "person.private or any(v.xs[1:] == w for v in person.refs)" = .ok e ∧
    Occurs ⟨.index, .slice (some (.literal (.int 1))) none none⟩ ⟨.elsewhere, e⟩ ∧
    Filled ⟨.elsewhere, e⟩ ∧ ∃ refusal,
      (Context.of "person" .empty (.ofNames ["person"])).compile e = .error refusal := by
  let slice : Expr := .slice (some (.literal (.int 1))) none none
  let item : Expr := .subscript (.attr (.name "v") "xs") slice
  let test : Expr := .compare item [.eq] [.name "w"]
  let elements : Expr := .generator test [⟨"v", .attr (.name "person") "refs", []⟩]
  let call : Expr := .call (.name "any") [elements] []
  have hparse : Expr.parse "person.private or any(v.xs[1:] == w for v in person.refs)" =
      .ok (.boolean .or [.attr (.name "person") "private", call]) := by cbv
  have hoccurs : Occurs ⟨.index, slice⟩
      ⟨.elsewhere, .boolean .or [.attr (.name "person") "private", call]⟩ := by
    refine .part (p := ⟨.elsewhere, call⟩) (by simp [parts, Expr.parts]) ?_
    refine .part (p := ⟨.quantified, elements⟩) (List.mem_cons_of_mem _ List.mem_cons_self) ?_
    refine .part (p := ⟨.elsewhere, test⟩) (by simp [elements, parts, Expr.parts]) ?_
    refine .part (p := ⟨.elsewhere, item⟩) (by simp [test, parts, Expr.parts]) ?_
    exact .part (p := ⟨.index, slice⟩) (by simp [item, parts]) .self
  have hfilled := (parsed_of_parse hparse).filled .elsewhere
  exact ⟨_, hparse, hoccurs, hfilled, compile_unsupported rfl hoccurs rfl hfilled⟩

/-- Behind a conjunction of nothing, which is satisfied, a disjunction drops a function. -/
theorem compile_empty_or_lambda :
    isUnsupported ⟨.elsewhere, .lambda [] none none (.name "x")⟩ = true ∧
    Occurs ⟨.elsewhere, .lambda [] none none (.name "x")⟩
      ⟨.elsewhere, .boolean .or [.boolean .and [], .lambda [] none none (.name "x")]⟩ ∧
    (Context.of "person" .empty (.ofNames ["person"])).guaranteed = none ∧
    (Context.of "person" .empty (.ofNames ["person"])).compile
      (.boolean .or [.boolean .and [], .lambda [] none none (.name "x")]) = .ok "TRUE" :=
  ⟨rfl, .part (by simp [parts, Expr.parts]) .self, rfl, rfl⟩

end Sql

end DocQuery
