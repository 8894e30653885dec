/-! # Sets of names

A set of names is the list of its members in increasing order, without repetitions.

* `NameSet.insert`, `NameSet.union`, `NameSet.ofList`: build sets.
* `NameSet.mem_insert`, `NameSet.mem_union`, `NameSet.mem_ofList`: what is in them.
-/

set_option autoImplicit false

namespace DocQuery

/-- Names in increasing order. -/
@[ext] structure NameSet where
  toList : List String
  increasing : toList.Pairwise (· < ·)
deriving DecidableEq, Repr

namespace NameSet

/-- Puts a name in front of the first greater one, unless it is there. -/
def place (name : String) : List String → List String
  | [] => [name]
  | n :: rest =>
    if name = n then n :: rest
    else if name < n then name :: n :: rest
    else n :: place name rest

theorem mem_place {name x : String} {names : List String} :
    x ∈ place name names ↔ x = name ∨ x ∈ names := by
  induction names with
  | nil => simp [place]
  | cons n rest ih =>
    rw [place]
    split
    · rename_i h
      subst h
      simp
    · split
      · simp
      · simp [ih, or_left_comm]

theorem increasing_place {name : String} {names : List String} (h : names.Pairwise (· < ·)) :
    (place name names).Pairwise (· < ·) := by
  induction names with
  | nil => simp [place]
  | cons n rest ih =>
    obtain ⟨hn, hrest⟩ := List.pairwise_cons.1 h
    rw [place]
    split
    · exact h
    · rename_i hne
      split
      · rename_i hlt
        refine List.pairwise_cons.2 ⟨fun x hx => ?_, h⟩
        obtain rfl | hx := List.mem_cons.1 hx
        · exact hlt
        · exact String.lt_trans hlt (hn x hx)
      · rename_i hnot
        have hlt : n < name := Std.lt_of_le_of_ne (String.not_lt.1 hnot) (Ne.symm hne)
        refine List.pairwise_cons.2 ⟨fun x hx => ?_, ih hrest⟩
        obtain rfl | hx := mem_place.1 hx
        · exact hlt
        · exact hn x hx

instance : Membership String NameSet := ⟨fun s name => name ∈ s.toList⟩

instance (name : String) (s : NameSet) : Decidable (name ∈ s) :=
  inferInstanceAs (Decidable (name ∈ s.toList))

def empty : NameSet := ⟨[], .nil⟩

instance : Inhabited NameSet := ⟨empty⟩

def insert (s : NameSet) (name : String) : NameSet := ⟨place name s.toList, increasing_place s.increasing⟩

def insertAll (s : NameSet) (names : List String) : NameSet := names.foldl insert s

/-- The set of the names in a list. -/
def ofList (names : List String) : NameSet := empty.insertAll names

def union (s t : NameSet) : NameSet := s.insertAll t.toList

def contains (s : NameSet) (name : String) : Bool := s.toList.contains name

/-- What a function makes of the names, in their order. -/
def map {α : Type} (s : NameSet) (f : String → α) : List α := s.toList.map f

variable {s t : NameSet} {x : String}

theorem mem_toList : x ∈ s.toList ↔ x ∈ s := Iff.rfl

@[simp] theorem not_mem_empty (x : String) : x ∉ empty := List.not_mem_nil

@[simp] theorem contains_eq_true : s.contains x = true ↔ x ∈ s := List.contains_iff_mem

theorem mem_insert {name : String} : x ∈ s.insert name ↔ x = name ∨ x ∈ s := mem_place

theorem mem_insertAll {names : List String} : x ∈ s.insertAll names ↔ x ∈ s ∨ x ∈ names := by
  induction names generalizing s with
  | nil => simp [insertAll]
  | cons n rest ih =>
    have hrest : x ∈ (s.insert n).insertAll rest ↔ x ∈ s.insert n ∨ x ∈ rest := ih
    rw [insertAll, List.foldl_cons, ← insertAll, hrest, mem_insert, List.mem_cons]
    grind

theorem mem_union : x ∈ s.union t ↔ x ∈ s ∨ x ∈ t := mem_insertAll

theorem mem_ofList {names : List String} : x ∈ ofList names ↔ x ∈ names := by
  simp [ofList, mem_insertAll]

end NameSet

end DocQuery
