import DocQuery.Data.NameSet

/-! # Dictionaries

A dictionary is a list of keys with values, as it is written: of several values of a key the first one
counts. In an ordered map no key has several values, and the keys are in increasing order.

* `Dictionary.insert`: sets the value of a key; `Dictionary.find?` looks a key up.
* `OrderedMap`: a dictionary with its keys in order; `OrderedMap.ofList` is the one of some entries,
  and `OrderedMap.assign` gives values to the names of a set.
* `find?_insert_self`, `find?_insert_of_ne`: the value that was set is found, and no other changes.
-/

set_option autoImplicit false

namespace DocQuery

/-- Keys with values, the first value of a key being the one that counts. -/
abbrev Dictionary (α : Type) : Type := List (String × α)

namespace Dictionary

variable {α : Type}

/-- Sets the value of `key`, in front of the first greater key. -/
def insert (key : String) (value : α) : Dictionary α → Dictionary α
  | [] => [(key, value)]
  | (k, v) :: rest =>
    if key = k then (key, value) :: rest
    else if key < k then (key, value) :: (k, v) :: rest
    else (k, v) :: insert key value rest

def find? (key : String) : Dictionary α → Option α
  | [] => none
  | (k, v) :: rest => if key = k then some v else find? key rest

/-- Sets several values, the last one of a key prevailing. -/
def insertAll (d : Dictionary α) (entries : List (String × α)) : Dictionary α :=
  entries.foldl (fun d e => insert e.1 e.2 d) d

theorem find?_insert_self (key : String) (value : α) (d : Dictionary α) :
    find? key (insert key value d) = some value := by
  induction d with
  | nil => simp [insert, find?]
  | cons e rest ih =>
    rw [insert]
    split
    · simp [find?]
    · split
      · simp [find?]
      · rename_i hne _
        simp [find?, hne, ih]

theorem find?_insert_of_ne {key other : String} (h : other ≠ key) (value : α)
    (d : Dictionary α) : find? other (insert key value d) = find? other d := by
  induction d with
  | nil => simp [insert, find?, h]
  | cons e rest ih =>
    rw [insert]
    split
    · rename_i heq
      subst heq
      simp [find?, h]
    · split
      · simp [find?, h]
      · simp [find?, ih]

theorem map_fst_insert (key : String) (value : α) (d : Dictionary α) :
    (insert key value d).map Prod.fst = NameSet.place key (d.map Prod.fst) := by
  induction d with
  | nil => rfl
  | cons e rest ih =>
    rw [insert, List.map_cons, NameSet.place]
    split
    · rename_i heq
      rw [List.map_cons, heq]
    · split
      · rfl
      · rw [List.map_cons, ih]

end Dictionary

/-- Keys with values, in increasing order of the keys. -/
@[ext] structure OrderedMap (α : Type) where
  entries : Dictionary α
  increasing : (entries.map Prod.fst).Pairwise (· < ·)
deriving Repr

namespace OrderedMap

variable {α β : Type}

instance : Membership (String × α) (OrderedMap α) := ⟨fun d e => e ∈ d.entries⟩

instance : HasSubset (OrderedMap α) := ⟨fun d d' => ∀ e ∈ d, e ∈ d'⟩

def empty : OrderedMap α := ⟨[], NameSet.empty.increasing⟩

instance : Inhabited (OrderedMap α) := ⟨empty⟩

def keys (d : OrderedMap α) : NameSet := ⟨d.entries.map Prod.fst, d.increasing⟩

def find? (key : String) (d : OrderedMap α) : Option α := Dictionary.find? key d.entries

/-- Sets the value of `key`, replacing the one it had. -/
def insert (d : OrderedMap α) (key : String) (value : α) : OrderedMap α where
  entries := Dictionary.insert key value d.entries
  increasing := by
    rw [Dictionary.map_fst_insert]
    exact NameSet.increasing_place d.increasing

/-- The map of some entries, the last one of a key prevailing. -/
def ofList (entries : List (String × α)) : OrderedMap α :=
  entries.foldl (fun d e => d.insert e.1 e.2) empty

/-- The names of a set that have a value, with it. -/
def assign (names : NameSet) (value? : String → Option α) : OrderedMap α where
  entries := names.toList.filterMap fun name => (value? name).map (name, ·)
  increasing := by
    rw [List.pairwise_map, List.pairwise_filterMap]
    refine names.increasing.imp fun {m n} hlt d hd e he => ?_
    obtain ⟨a, -, rfl⟩ := Option.map_eq_some_iff.1 hd
    obtain ⟨b, -, rfl⟩ := Option.map_eq_some_iff.1 he
    exact hlt

/-- What a function makes of the entries, in the order of the keys. -/
def map (d : OrderedMap α) (f : String × α → β) : List β := d.entries.map f

def length (d : OrderedMap α) : Nat := d.entries.length

def isEmpty (d : OrderedMap α) : Bool := d.length == 0

variable {d : OrderedMap α} {e : String × α}

theorem mem_entries : e ∈ d.entries ↔ e ∈ d := Iff.rfl

@[simp] theorem not_mem_empty (e : String × α) : e ∉ (empty : OrderedMap α) := List.not_mem_nil

@[simp] theorem not_mem_keys_empty (name : String) : name ∉ (empty : OrderedMap α).keys :=
  List.not_mem_nil

@[simp] theorem find?_empty (key : String) : (empty : OrderedMap α).find? key = none := rfl

theorem isEmpty_iff : d.isEmpty = true ↔ d = empty := by
  simp [isEmpty, length, empty, OrderedMap.ext_iff]

theorem mem_map {f : String × α → β} {b : β} : b ∈ d.map f ↔ ∃ e ∈ d, f e = b := List.mem_map

theorem mem_assign {names : NameSet} {value? : String → Option α} :
    e ∈ assign names value? ↔ e.1 ∈ names ∧ value? e.1 = some e.2 := by
  obtain ⟨name, value⟩ := e
  rw [← mem_entries, assign, List.mem_filterMap]
  constructor
  · rintro ⟨n, hn, h⟩
    obtain ⟨a, ha, heq⟩ := Option.map_eq_some_iff.1 h
    cases heq
    exact ⟨hn, ha⟩
  · rintro ⟨hn, h⟩
    exact ⟨name, hn, Option.map_eq_some_iff.2 ⟨value, h, rfl⟩⟩

theorem find?_insert_self (d : OrderedMap α) (key : String) (value : α) :
    (d.insert key value).find? key = some value := Dictionary.find?_insert_self key value d.entries

theorem find?_insert_of_ne {key other : String} (h : other ≠ key) (d : OrderedMap α) (value : α) :
    (d.insert key value).find? other = d.find? other := Dictionary.find?_insert_of_ne h value d.entries

theorem mem_keys_insert {key name : String} {value : α} :
    name ∈ (d.insert key value).keys ↔ name = key ∨ name ∈ d.keys := by
  have hkeys : (d.insert key value).keys = d.keys.insert key :=
    NameSet.ext (Dictionary.map_fst_insert key value d.entries)
  rw [hkeys, NameSet.mem_insert]

end OrderedMap

end DocQuery
