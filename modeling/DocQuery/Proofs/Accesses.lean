import DocQuery.Proofs.Operands

/-! # Accesses

A chain of attributes and indices that starts at a name is an access. What it is evaluated to depends
only on what the name stands for and on the steps of the chain.

* `Expr.steps`: the steps of an access.
* `eval_of_element`, `eval_of_table`, `eval_of_bound`, `eval_of_unbound`: the values of the accesses of
  an element of an array, of a table, of a name of the domain and of a name that stands for nothing.
* `fieldPath_of_root`: outside of iterations, all paths start at the documents of tables.
-/

set_option autoImplicit false

namespace DocQuery

/-- The steps from the start of a chain of attributes and indices. -/
def Expr.steps : Expr → List Segment
  | attr value label => value.steps ++ [.field label]
  | subscript value index => value.steps ++ (Sql.segment? index).toList
  | _ => []

namespace Sql

open Context

section Accesses

variable {c : Context} {id : String} {x : Expr} {v : Value}

/-- An index adds its step to a path, and has no value elsewhere. -/
theorem exists_path_of_subscript {value index : Expr} (h : c.eval (.subscript value index) = .ok v) :
    ∃ p s, c.eval value = .ok (.path p) ∧ segment? index = some s ∧ v = .path (p.push s) := by
  rw [eval] at h
  obtain ⟨w, hw, hitem⟩ := bind_eq_ok h
  cases w with
  | path p =>
    simp only [itemOf] at hitem
    split at hitem
    · rename_i s hs
      cases hitem
      exact ⟨p, s, hw, hs, rfl⟩
    · cases hitem
  | _ => cases hitem

theorem attr_of_path {value : Expr} {label : String} {p : FieldPath} (hp : c.eval value = .ok (.path p)) :
    c.eval (.attr value label) = .ok (.path (p.push (.field label))) := by
  rw [eval, hp]
  rfl

theorem subscript_of_path {value index : Expr} {p : FieldPath} {s : Segment}
    (hp : c.eval value = .ok (.path p)) (hs : segment? index = some s) :
    c.eval (.subscript value index) = .ok (.path (p.push s)) := by
  rw [eval, hp]
  simp [bind, Except.bind, itemOf, hs]

/-- The accesses of an element are the paths from it. -/
theorem eval_of_element (hid : c.scope.resolve id = .element) (hroot : x.root? = some id)
    (h : c.eval x = .ok v) : v = .path ⟨.element id, x.steps⟩ := by
  induction hroot using Expr.root_induction generalizing v with
  | name =>
    cases h
    simp [named, hid, Expr.steps, FieldPath.ofRoot]
  | attr value label hroot ih =>
    obtain ⟨w, hw, -⟩ := bind_eq_ok h
    rw [ih hw] at hw
    rw [attr_of_path hw] at h
    cases h
    rfl
  | subscript value index hroot ih =>
    obtain ⟨p, s, hp, hs, rfl⟩ := exists_path_of_subscript h
    cases ih hp
    simp [Expr.steps, FieldPath.push, hs]

/-- The accesses of a table are its document and the paths that start with a field. -/
theorem eval_of_table (hid : c.scope.resolve id = .table) (hroot : x.root? = some id)
    (h : c.eval x = .ok v) :
    v = .table id ∧ x.steps = [] ∨
      v = .path ⟨c.rootOf id, x.steps⟩ ∧ ∃ label rest, x.steps = .field label :: rest := by
  induction hroot using Expr.root_induction generalizing v with
  | name =>
    cases h
    simp [named, hid, Expr.steps]
  | attr value label hroot ih =>
    right
    obtain ⟨w, hw, hlabel⟩ := bind_eq_ok h
    rcases ih hw with ⟨rfl, hsteps⟩ | ⟨rfl, first, rest, hsteps⟩
    · cases hlabel
      simp [Expr.steps, hsteps, FieldPath.push, FieldPath.ofRoot]
    · cases hlabel
      simp [Expr.steps, hsteps, FieldPath.push]
  | subscript value index hroot ih =>
    right
    obtain ⟨p, s, hp, hs, rfl⟩ := exists_path_of_subscript h
    rcases ih hp with ⟨heq, -⟩ | ⟨heq, first, rest, hsteps⟩
    · cases heq
    · cases heq
      simp [Expr.steps, hsteps, hs, FieldPath.push]

/-- The path of an access of a table consists of its steps. -/
theorem fieldPath_of_table (htable : c.scope.resolve id = .table) (hroot : x.root? = some id)
    {p : FieldPath} (h : c.fieldPath x = .ok p) :
    p = ⟨c.rootOf id, x.steps⟩ ∧ ∃ label rest, x.steps = .field label :: rest := by
  obtain ⟨v, hv, hp⟩ := bind_eq_ok h
  rcases eval_of_table htable hroot hv with ⟨rfl, -⟩ | ⟨rfl, hfield⟩
  · cases hp
  · cases hp
    exact ⟨rfl, hfield⟩

/-- The accesses of a name that stands for nothing are written as they are. -/
theorem eval_of_unbound (hid : c.scope.resolve id = .unbound) (hroot : x.root? = some id)
    (h : c.eval x = .ok v) : v = .text x.render := by
  induction hroot using Expr.root_induction generalizing v with
  | name =>
    cases h
    simp [named, hid, Expr.render]
  | attr value label hroot ih =>
    obtain ⟨w, hw, hlabel⟩ := bind_eq_ok h
    rw [ih hw] at hlabel
    cases hlabel
    have hnumber : value.isNumber = false := by
      cases value with
      | literal l => cases hroot
      | _ => rfl
    simp [Expr.render, hnumber]
  | subscript value index hroot ih =>
    obtain ⟨p, s, hp, hs, rfl⟩ := exists_path_of_subscript h
    cases ih hp

/-- The accesses of a name of the domain are values of the domain. -/
theorem eval_of_bound {value : DomainValue} (hid : c.scope.resolve id = .bound value)
    (hroot : x.root? = some id) (h : c.eval x = .ok v) : ∃ w, v = .bound w := by
  induction hroot using Expr.root_induction generalizing v with
  | name =>
    cases h
    exact ⟨value, by simp [named, hid]⟩
  | attr value label hroot ih =>
    obtain ⟨w, hw, hlabel⟩ := bind_eq_ok h
    obtain ⟨u, rfl⟩ := ih hw
    simp only [attributeOf] at hlabel
    split at hlabel
    · cases hlabel
      exact ⟨_, rfl⟩
    · cases hlabel
  | subscript value index hroot ih =>
    obtain ⟨p, s, hp, -, rfl⟩ := exists_path_of_subscript h
    obtain ⟨u, hu⟩ := ih hp
    cases hu

/-- Outside of iterations, a path is one from the document of a table. -/
theorem fieldPath_of_root (hiteration : c.scope.iteration = none) (hroot : x.root? = some id)
    {p : FieldPath} (h : c.fieldPath x = .ok p) :
    c.scope.resolve id = .table ∧ p = ⟨c.rootOf id, x.steps⟩ := by
  obtain ⟨w, hw, hp⟩ := bind_eq_ok h
  cases hid : c.scope.resolve id with
  | element =>
    rw [Scope.resolve, hiteration] at hid
    grind
  | bound value =>
    obtain ⟨u, rfl⟩ := eval_of_bound hid hroot hw
    cases hp
  | table => exact ⟨rfl, (fieldPath_of_table hid hroot h).1⟩
  | unbound =>
    rw [eval_of_unbound hid hroot hw] at hp
    cases hp

end Accesses

end Sql

end DocQuery
