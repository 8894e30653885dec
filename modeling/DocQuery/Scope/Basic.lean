import DocQuery.Scope.Domain
import DocQuery.Scope.Tables

/-! # Scopes

* `Scope`: what names may stand for at some place of a query.
* `Scope.resolve`: what a name stands for. The variable of an iteration comes first, then the names
  of the domain, then the tables.
-/

set_option autoImplicit false

namespace DocQuery

/-- What a name stands for. -/
inductive Resolved where
  /-- One element of the array that is iterated over. -/
  | element
  | bound (value : DomainValue)
  | table
  | unbound
deriving Repr

def Resolved.isUnbound : Resolved → Bool
  | unbound => true
  | _ => false

/-- The names that are known at some place. -/
structure Scope where
  /-- The variable of the iteration around the place. -/
  iteration : Option String
  env : Environment
  tables : Tables

namespace Scope

/-- The scope without an iteration. -/
def of (env : Environment) (tables : Tables) : Scope := ⟨none, env, tables⟩

def resolve (s : Scope) (name : String) : Resolved :=
  if s.iteration = some name then .element
  else match s.env.lookup? name with
    | some value => .bound value
    | none => if s.tables.contains name then .table else .unbound

theorem contains_of_resolve {s : Scope} {name : String} (h : s.resolve name = .table) :
    s.tables.contains name = true := by
  rw [resolve] at h
  split at h
  · cases h
  · split at h
    · cases h
    · split at h
      · assumption
      · cases h

end Scope

end DocQuery
