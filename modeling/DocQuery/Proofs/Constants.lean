import DocQuery.Proofs.Outcome
import DocQuery.Config.Load

/-! # Constants of a configuration

The constants of a configuration are added to those of the domain, class by class. Each of them
takes the place of the constant of the same name and class and leaves all others as they are.

* `Dictionary.find?_insertAll`: where a key is given a value, it has that value afterwards.
* `Environment.member?_withClass`, `Environment.member?_foldl_withClass`: what one class changes,
  and what all classes change.
* `Config.constant?`: the constants that a configuration has.
* `environment_constants`: the constants and the names under a configuration.
-/

set_option autoImplicit false

namespace DocQuery

/-! ## Dictionaries -/

namespace Dictionary

variable {α β : Type}

theorem find?_eq_none {key : String} {d : Dictionary α} (h : key ∉ d.map Prod.fst) :
    find? key d = none := by
  induction d with
  | nil => rfl
  | cons e rest ih =>
    rw [List.map_cons, List.mem_cons, not_or] at h
    rw [find?, if_neg h.1, ih h.2]

theorem find?_map (f : α → β) (key : String) (d : Dictionary α) :
    find? key (d.map fun e => (e.1, f e.2)) = (find? key d).map f := by
  induction d with
  | nil => rfl
  | cons e rest ih =>
    rw [List.map_cons, find?, find?, ih]
    split <;> rfl

/-- Where a key is given a value, it has that value, and otherwise the one it had. -/
theorem find?_insertAll {entries : List (String × α)} (h : (entries.map Prod.fst).Nodup)
    (key : String) (d : Dictionary α) :
    find? key (insertAll d entries) = (find? key entries).or (find? key d) := by
  unfold insertAll
  induction entries generalizing d with
  | nil => rfl
  | cons e entries ih =>
    obtain ⟨hnew, hentries⟩ := List.nodup_cons.1 h
    rw [List.foldl_cons, ih hentries, find?]
    by_cases hkey : key = e.1
    · rw [if_pos hkey, hkey, find?_eq_none hnew, find?_insert_self]
      rfl
    · rw [if_neg hkey, find?_insert_of_ne hkey]

/-- The constant of a class, where constants are given class by class. -/
def constant? (classes : Dictionary (Dictionary α)) (name label : String) : Option α :=
  (find? name classes).bind (find? label)

theorem constant?_map (f : α → β) (classes : Dictionary (Dictionary α)) (name label : String) :
    constant? (classes.map fun c => (c.1, c.2.map fun k => (k.1, f k.2))) name label =
      (constant? classes name label).map f := by
  have hmap := find?_map (fun members : Dictionary α => members.map fun k => (k.1, f k.2))
  rw [constant?, hmap, constant?]
  cases find? name classes with
  | none => rfl
  | some members => exact find?_map f label members

end Dictionary

open Dictionary

/-! ## Environments -/

namespace Environment

variable {constants : List (String × Literal)} {classes : List (String × List (String × Literal))}

theorem find?_classOf (env : Environment) (name label : String) :
    find? label (env.classOf name).2 = (env.lookup? name).bind (DomainValue.member? label) := by
  rw [classOf]
  cases env.lookup? name with
  | none => rfl
  | some value => cases value <;> rfl

theorem names_withClass (env : Environment) (name : String) (constants : List (String × Literal)) :
    (env.withClass name constants).names =
      env.names.insert name (.holder (env.classOf name).1 (insertAll (env.classOf name).2
        (constants.map fun c => (c.1, DomainValue.constant c.2)))) := rfl

/-- Adding constants to a class gives it these constants, and changes no other class. -/
theorem member?_withClass (env : Environment) (h : (constants.map Prod.fst).Nodup)
    (name other label : String) :
    ((env.withClass name constants).lookup? other).bind (DomainValue.member? label) =
      if other = name then
        ((find? label constants).map DomainValue.constant).or
          ((env.lookup? name).bind (DomainValue.member? label))
      else (env.lookup? other).bind (DomainValue.member? label) := by
  rw [lookup?, names_withClass]
  split
  · rename_i heq
    have hadded : ((constants.map fun c => (c.1, DomainValue.constant c.2)).map
        Prod.fst).Nodup := by
      simpa [Function.comp_def] using h
    rw [heq, OrderedMap.find?_insert_self, Option.bind_some, DomainValue.member?,
      find?_insertAll hadded, find?_map, find?_classOf]
  · rename_i hne
    rw [OrderedMap.find?_insert_of_ne hne, lookup?]

/-- Adding constants class by class gives all of them, and keeps the others. -/
theorem member?_foldl_withClass (hclasses : (classes.map Prod.fst).Nodup)
    (hconstants : ∀ c ∈ classes, (c.2.map Prod.fst).Nodup) (env : Environment)
    (name label : String) :
    ((classes.foldl (fun env c => env.withClass c.1 c.2) env).lookup? name).bind
        (DomainValue.member? label) =
      ((constant? classes name label).map DomainValue.constant).or
        ((env.lookup? name).bind (DomainValue.member? label)) := by
  induction classes generalizing env with
  | nil => rfl
  | cons c classes ih =>
    obtain ⟨hnew, hclasses⟩ := List.nodup_cons.1 hclasses
    obtain ⟨hc, hconstants⟩ := List.forall_mem_cons.1 hconstants
    rw [List.foldl_cons, ih hclasses hconstants, member?_withClass env hc, constant?, constant?,
      find?]
    by_cases hname : name = c.1
    · -- The classes that follow are other ones.
      rw [if_pos hname, if_pos hname, hname, find?_eq_none hnew]
      rfl
    · rw [if_neg hname, if_neg hname]

theorem mem_keys_foldl_withClass (env : Environment) (name : String) :
    name ∈ (classes.foldl (fun env c => env.withClass c.1 c.2) env).names.keys ↔
      name ∈ env.names.keys ∨ name ∈ classes.map Prod.fst := by
  induction classes generalizing env with
  | nil => simp
  | cons c classes ih =>
    rw [List.foldl_cons, ih, names_withClass, OrderedMap.mem_keys_insert, List.map_cons, List.mem_cons]
    grind

end Environment

namespace Genealogy

/-- The classes of the domain, with literals for their constants. -/
def literals : List (String × List (String × Literal)) :=
  classes.map fun c => (c.1, c.2.map fun k => (k.1, Literal.int k.2))

theorem environment_eq :
    environment = literals.foldl (fun env c => env.withClass c.1 c.2) .empty := by
  rw [environment, literals, List.foldl_map]

theorem member?_environment (name label : String) :
    (environment.lookup? name).bind (DomainValue.member? label) =
      (constant? classes name label).map fun n => .constant (.int n) := by
  have hclasses : (literals.map Prod.fst).Nodup := by decide
  have hconstants : ∀ c ∈ literals, (c.2.map Prod.fst).Nodup := by decide
  rw [environment_eq, Environment.member?_foldl_withClass hclasses hconstants, literals,
    constant?_map]
  simp [Environment.empty, Environment.lookup?, Function.comp_def]

theorem mem_names_environment (name : String) :
    name ∈ environment.names.keys ↔ name ∈ classes.map Prod.fst := by
  rw [environment_eq, Environment.mem_keys_foldl_withClass]
  simp [Environment.empty, literals, Function.comp_def]

end Genealogy

/-! ## Configurations -/

namespace Config

/-- The constant that a configuration gives to a class. -/
def constant? (c : Config) (name label : String) : Option Literal :=
  (c.constants.find? name).bind (OrderedMap.find? label)

/-- The constants of a configuration as lists. -/
def classes (c : Config) : Dictionary (Dictionary Literal) :=
  c.constants.map fun e => (e.1, e.2.entries)

theorem environment_eq (c : Config) :
    c.environment = c.classes.foldl (fun env e => env.withClass e.1 e.2)
      (if c.builtin then Genealogy.environment else .empty) := by
  rw [environment, classes, OrderedMap.map, List.foldl_map]

theorem constant?_classes (c : Config) (name label : String) :
    Dictionary.constant? c.classes name label = c.constant? name label := by
  rw [Dictionary.constant?, classes, OrderedMap.map, find?_map, Option.bind_map]
  rfl

theorem map_fst_classes (c : Config) : c.classes.map Prod.fst = c.constants.keys.toList := by
  rw [classes, OrderedMap.map, List.map_map]
  rfl

/-- What the environment of a configuration starts with. -/
theorem member?_start (c : Config) (name label : String) :
    ((if c.builtin then Genealogy.environment else .empty).lookup? name).bind
        (DomainValue.member? label) =
      if c.builtin then
        (Dictionary.constant? Genealogy.classes name label).map fun n => .constant (.int n)
      else none := by
  cases c.builtin with
  | false => rfl
  | true => exact Genealogy.member?_environment name label

theorem mem_names_start (c : Config) (name : String) :
    name ∈ (if c.builtin then Genealogy.environment else .empty).names.keys ↔
      c.builtin = true ∧ name ∈ Genealogy.classes.map Prod.fst := by
  cases c.builtin with
  | false => simp [Environment.empty]
  | true => simpa using Genealogy.mem_names_environment name

end Config

/-- Under a configuration, a constant of a class has the value that the configuration gives it, or
else, if they are not switched off, that of the domain. The names are those of the classes that the
domain or the configuration has. -/
theorem environment_constants (c : Config) (name : String) :
    (∀ label : String, (c.environment.lookup? name).bind (DomainValue.member? label) =
      ((c.constant? name label).map DomainValue.constant).or
        (if c.builtin then
          (Dictionary.constant? Genealogy.classes name label).map fun n => .constant (.int n)
        else none)) ∧
    (name ∈ c.environment.names.keys ↔
      (c.builtin = true ∧ name ∈ Genealogy.classes.map Prod.fst) ∨ name ∈ c.constants.keys) := by
  rw [Config.environment_eq]
  constructor
  · intro label
    have hclasses : (c.classes.map Prod.fst).Nodup := by
      rw [Config.map_fst_classes]
      exact c.constants.keys.increasing.imp String.ne_of_lt
    have hconstants : ∀ e ∈ c.classes, (e.2.map Prod.fst).Nodup := by
      intro e he
      obtain ⟨d, -, rfl⟩ := OrderedMap.mem_map.1 he
      exact d.2.increasing.imp String.ne_of_lt
    rw [Environment.member?_foldl_withClass hclasses hconstants, Config.constant?_classes,
      Config.member?_start]
  · rw [Environment.mem_keys_foldl_withClass, Config.mem_names_start, Config.map_fst_classes]
    rfl

/-- A class gets another value for one of its constants and keeps the others, and a class is new. -/
theorem environment_constants_override : ∃ c : Config,
    Config.read "constants.NameType.AKA = 'x'\nconstants.Pet.CAT = 1" = .ok c ∧
    (c.environment.lookup? "NameType").bind (DomainValue.member? "AKA") =
      some (.constant (.str "x")) ∧
    (c.environment.lookup? "NameType").bind (DomainValue.member? "BIRTH") =
      some (.constant (.int 2)) ∧
    "Pet" ∈ c.environment.names.keys := by
  let c : Config := ⟨none, Genealogy.tables, true,
    .ofList [("NameType", .ofList [("AKA", .str "x")]), ("Pet", .ofList [("CAT", .int 1)])]⟩
  have hread : Config.read "constants.NameType.AKA = 'x'\nconstants.Pet.CAT = 1" = .ok c := by cbv
  refine ⟨c, hread, ?_, ?_, ?_⟩
  · exact (environment_constants c "NameType").1 "AKA"
  · exact (environment_constants c "NameType").1 "BIRTH"
  · exact (environment_constants c "Pet").2.2 (.inr (by decide))

end DocQuery
