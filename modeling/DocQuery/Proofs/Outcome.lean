import Mathlib
import DocQuery.Error

/-! # Computations that succeed

A computation of several steps succeeds when each of its steps does.
-/

set_option autoImplicit false

namespace DocQuery

variable {ε α β : Type}

theorem bind_eq_ok {x : Except ε α} {f : α → Except ε β} {b : β} (h : x >>= f = .ok b) :
    ∃ a, x = .ok a ∧ f a = .ok b := by
  cases x with
  | error e => cases h
  | ok a => exact ⟨a, rfl, h⟩

theorem map_eq_ok {x : Except ε α} {f : α → β} {b : β} (h : f <$> x = .ok b) :
    ∃ a, x = .ok a ∧ f a = b := by
  cases x with
  | error e => cases h
  | ok a => exact ⟨a, rfl, Except.ok.inj h⟩

theorem mapM_list_eq_ok {f : α → Except ε β} {xs : List α} {ys : List β}
    (h : xs.mapM f = .ok ys) : ∀ y ∈ ys, ∃ x ∈ xs, f x = .ok y := by
  induction xs generalizing ys with
  | nil =>
    cases h
    simp
  | cons x xs ih =>
    rw [List.mapM_cons] at h
    obtain ⟨y, hy, h⟩ := bind_eq_ok h
    obtain ⟨zs, hzs, h⟩ := bind_eq_ok h
    cases h
    intro z hz
    obtain rfl | hz := List.mem_cons.1 hz
    · exact ⟨x, List.mem_cons_self, hy⟩
    · obtain ⟨w, hw, hwz⟩ := ih hzs z hz
      exact ⟨w, List.mem_cons_of_mem _ hw, hwz⟩

theorem forall₂_of_mapM {f : α → Except ε β} {xs : List α} {ys : List β} (h : xs.mapM f = .ok ys) :
    List.Forall₂ (fun x y => f x = .ok y) xs ys := by
  induction xs generalizing ys with
  | nil =>
    cases h
    exact .nil
  | cons x xs ih =>
    rw [List.mapM_cons] at h
    obtain ⟨y, hy, h⟩ := bind_eq_ok h
    obtain ⟨zs, hzs, h⟩ := bind_eq_ok h
    cases h
    exact .cons hy (ih hzs)

theorem mapM_option_eq_ok {f : α → Except ε β} {o : Option α} {p : Option β}
    (h : o.mapM f = .ok p) : ∀ y ∈ p, ∃ x ∈ o, f x = .ok y := by
  cases o with
  | none =>
    cases h
    nofun
  | some x =>
    obtain ⟨y, hy, rfl⟩ := map_eq_ok h
    intro z hz
    cases hz
    exact ⟨x, rfl, hy⟩

theorem mem_of_mapM_option {f : α → Except ε β} {o : Option α} {p : Option β} {x : α}
    (h : o.mapM f = .ok p) (hx : x ∈ o) : ∃ y ∈ p, f x = .ok y := by
  cases hx
  obtain ⟨y, hy, rfl⟩ := map_eq_ok h
  exact ⟨y, rfl, hy⟩

end DocQuery
