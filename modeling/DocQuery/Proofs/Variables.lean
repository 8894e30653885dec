import DocQuery.Proofs.Accesses
import DocQuery.Proofs.Locality

/-! # The variables of quantifiers

The context keeps one variable only. Inside quantifiers that are nested, this is the variable of the
innermost one, and a reference to the variable of another is written as if it stood for nothing.

* `Context.innermost`: the variable that is known inside quantifiers.
* `Context.binding`: the context in which a name stands for a value of the domain.
* `compile_references`: what the references to a variable become, and when the meaning of its name
  outside of the quantifiers makes no difference.
-/

set_option autoImplicit false

namespace DocQuery.Sql

namespace Context

/-- The variable that is known inside quantifiers over these variables, the innermost first. -/
def innermost (c : Context) (vs : List String) : Option String :=
  (vs ++ c.scope.iteration.toList).head?

/-- The context in which the name stands for the value. -/
def binding (c : Context) (id : String) (value : DomainValue) : Context :=
  { c with scope := { c.scope with env := c.scope.env.bind id value } }

theorem iteration_under (c : Context) (vs : List String) :
    (c.under vs).scope.iteration = c.innermost vs := by
  cases vs with
  | nil => cases h : c.scope.iteration <;> simp [under, innermost, h]
  | cons v vs => rfl

theorem env_under (c : Context) (vs : List String) : (c.under vs).scope.env = c.scope.env := by
  induction vs with
  | nil => rfl
  | cons v vs ih => exact ih

theorem tables_under (c : Context) (vs : List String) : (c.under vs).scope.tables = c.scope.tables := by
  induction vs with
  | nil => rfl
  | cons v vs ih => exact ih

theorem binding_under (c : Context) (id : String) (value : DomainValue) (vs : List String) :
    (c.binding id value).under vs = (c.under vs).binding id value := by
  induction vs with
  | nil => rfl
  | cons v vs ih =>
    show ((c.binding id value).under vs).within v = ((c.under vs).within v).binding id value
    rw [ih]
    rfl

theorem resolve_binding_self {c : Context} {id : String} {value : DomainValue}
    (h : c.scope.iteration ≠ some id) : (c.binding id value).scope.resolve id = .bound value := by
  have hlookup : (c.scope.env.bind id value).lookup? id = some value :=
    Dictionary.find?_insert_self id value _
  simp [Scope.resolve, binding, h, hlookup]

/-- A value that is bound to the variable of the iteration, or to another name, makes no difference. -/
theorem resolve_binding {c : Context} {id other : String} {value : DomainValue}
    (h : other = id → c.scope.iteration = some id) :
    (c.binding id value).scope.resolve other = c.scope.resolve other := by
  by_cases hother : other = id
  · subst hother
    simp [Scope.resolve, binding, h rfl]
  · have hlookup : (c.scope.env.bind id value).lookup? other = c.scope.env.lookup? other :=
      Dictionary.find?_insert_of_ne hother value _
    unfold Scope.resolve binding
    dsimp only
    rw [hlookup]

end Context

open Context

variable {c : Context} {e x : Expr} {v sql : String} {vs : List String}

/-- A variable that is neither a name of the domain nor a table stands for an element or for nothing. -/
theorem resolve_under (henv : c.scope.env.lookup? v = none)
    (htable : c.scope.tables.contains v = false) (vs : List String) :
    (c.under vs).scope.resolve v = if c.innermost vs = some v then .element else .unbound := by
  rw [Scope.resolve, iteration_under, env_under, tables_under, henv, htable]
  rfl

theorem visits_root (c : Context) (hroot : x.root? = some v) : Visits c x [] (.name v) := by
  induction hroot using Expr.root_induction with
  | name => exact .self c _
  | attr value label _ ih => exact .part List.mem_cons_self ih
  | subscript value index _ ih => exact .part List.mem_cons_self ih

/-- The name at the start of an access is evaluated with it. -/
theorem Visits.root (hx : Visits c e vs x) (hroot : x.root? = some v) : Visits c e vs (.name v) := by
  induction hx with
  | self d e => exact visits_root d hroot
  | part hp _ ih => exact .part hp (ih hroot)
  | inside hparts hp _ ih => exact .inside hparts hp (ih hroot)

/-- What an access of a variable becomes. -/
theorem compile_access (henv : c.scope.env.lookup? v = none)
    (htable : c.scope.tables.contains v = false) (hroot : x.root? = some v)
    (h : Usable (c.under vs) x) :
    (c.under vs).compile x = .ok (if c.innermost vs = some v
      then (FieldPath.mk (.element v) x.steps).field else x.render) := by
  obtain ⟨w, hw, -⟩ := h
  have hresolve := resolve_under henv htable vs
  by_cases hinnermost : c.innermost vs = some v
  · rw [if_pos hinnermost] at hresolve ⊢
    obtain rfl := eval_of_element hresolve hroot hw
    exact compile_eq_ok hw rfl
  · rw [if_neg hinnermost] at hresolve ⊢
    obtain rfl := eval_of_unbound hresolve hroot hw
    exact compile_eq_ok hw rfl

/-- Contexts agree on what does not start with the name that is bound, unless that is an element. -/
theorem agrees_binding (value : DomainValue) (h : x.root? = some v → c.innermost vs = some v) :
    Agrees (c.under vs) ((c.binding v value).under vs) x := by
  rw [binding_under]
  refine ⟨rfl, ?_⟩
  rintro id rfl
  have hresolve : ((c.under vs).binding v value).scope.resolve id = (c.under vs).scope.resolve id := by
    apply resolve_binding
    rintro rfl
    rw [iteration_under]
    exact h rfl
  rw [named, named, hresolve]

theorem compile_binding (value : DomainValue)
    (h : ∀ vs x, Visits c e vs x → x.root? = some v → c.innermost vs = some v) :
    (c.binding v value).compile e = c.compile e := by
  have heval : (c.binding v value).eval e = c.eval e :=
    eval_eq_of_visits rfl fun vs x hx => agrees_binding value (h vs x hx)
  have hsql : ∀ w, (c.binding v value).sqlOf e w = c.sqlOf e w := sqlOf_congr rfl
  simp only [compile, heval, hsql]

/-- With a class without members in place of the variable, it is not evaluated but as an element. -/
theorem innermost_of_binding {name : String}
    (h : (c.binding v (.holder name [])).compile e = .ok sql)
    (hx : Visits (c.binding v (.holder name [])) e vs x) (hroot : x.root? = some v) :
    c.innermost vs = some v := by
  obtain ⟨w, hw, hwhole⟩ := bind_eq_ok h
  obtain ⟨u, hu, hbare⟩ := (hx.root hroot).usable (usable_of_sqlOf hw hwhole)
  by_contra hne
  rw [← iteration_under] at hne
  rw [binding_under, Context.eval, named, resolve_binding_self hne] at hu
  cases hu
  cases hbare

/-- Where an expression has SQL, a reference to a variable that is neither a name of the domain nor a
table becomes a path from the element if the innermost quantifier around it is that of the variable, and
bare text otherwise. What the name of the variable means outside of the quantifiers makes no difference
exactly if all references are of the first kind. -/
theorem compile_references (henv : c.scope.env.lookup? v = none)
    (htable : c.scope.tables.contains v = false) (h : c.compile e = .ok sql) :
    (∀ vs x, Visits c e vs x → x.root? = some v →
      (c.under vs).compile x = .ok (if c.innermost vs = some v
        then (FieldPath.mk (.element v) x.steps).field else x.render)) ∧
    ((∀ vs x, Visits c e vs x → x.root? = some v → c.innermost vs = some v) ↔
      ∀ value, (c.binding v value).compile e = .ok sql) := by
  constructor
  · intro vs x hx hroot
    obtain ⟨w, hw, hwhole⟩ := bind_eq_ok h
    exact compile_access henv htable hroot (hx.usable (usable_of_sqlOf hw hwhole))
  constructor
  · intro hinnermost value
    rw [compile_binding value hinnermost, h]
  · intro hvalues vs x hx hroot
    let d := c.binding v (.holder v [])
    have hd : d.compile e = .ok sql := hvalues (.holder v [])
    have hknown : ∀ us y, Visits d e us y → y.root? = some v → c.innermost us = some v :=
      fun us y hy hy' => innermost_of_binding hd hy hy'
    -- Both contexts evaluate the same, since they agree on all that is evaluated with the class.
    have hagrees : ∀ us y, Visits d e us y → Agrees (d.under us) (c.under us) y :=
      fun us y hy => (agrees_binding _ (hknown us y hy)).symm
    exact hknown vs x (hx.of_agrees rfl hagrees) hroot

/-- Inside a quantifier over `w`, the variable of the quantifier around it is not known. -/
theorem compile_references_nested :
    let c := Context.of "person" .empty (.ofNames ["person"])
    let x : Expr := .attr (.name "v") "role"
    let test : Expr := .compare (.attr (.name "w") "role") [.eq] [x]
    let inner : Expr :=
      .call (.name "any") [.generator test [⟨"w", .attr (.name "v") "xs", []⟩]] []
    let e : Expr :=
      .call (.name "any") [.generator inner [⟨"v", .attr (.name "person") "ys", []⟩]] []
    c.scope.env.lookup? "v" = none ∧ c.scope.tables.contains "v" = false ∧
      ∃ sql, c.compile e = .ok sql ∧ Visits c e ["w", "v"] x ∧
        (c.under ["w", "v"]).compile x = .ok "v.role" ∧
        ¬ ∀ value, (c.binding "v" value).compile e = .ok sql := by
  intro c x test inner e
  have htable : c.scope.tables.contains "v" = false := by cbv
  obtain ⟨sql, hcompile⟩ : ∃ sql, c.compile e = .ok sql := ⟨_, rfl⟩
  have htest : Visits ((c.within "v").within "w") test [] x :=
    .part (by simp [test, evaluatedParts, isGuaranteed, within, guaranteeing]) (.self _ x)
  have hinner : Visits (c.within "v") inner ["w"] x :=
    .inside rfl (by simp [Expr.elementConditions, Expr.asName?, test]) htest
  have hvisits : Visits c e ["w", "v"] x :=
    .inside rfl (by simp [Expr.elementConditions, Expr.asName?, inner]) hinner
  obtain ⟨htexts, hindifferent⟩ := compile_references (v := "v") rfl htable hcompile
  refine ⟨rfl, htable, sql, hcompile, hvisits, htexts _ x hvisits rfl, ?_⟩
  rw [← hindifferent]
  intro hknown
  have hnames : some "w" = some "v" := hknown _ x hvisits rfl
  revert hnames
  decide

end DocQuery.Sql
