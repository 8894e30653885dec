import DocQuery.Query.Compile

/-! # Configuration

* `Config`: the store, the tables and the constants that a user sets.
* `Config.environment`: the constants of the domain, unless they are switched off, with those of the
  configuration added, class by class.
* `Config.compiler`: the compiler under a configuration.
-/

set_option autoImplicit false

namespace DocQuery

/-- Constants as they are written, class by class. -/
instance : Coe (Dictionary (Dictionary Literal)) (OrderedMap (OrderedMap Literal)) :=
  ⟨fun classes => .ofList (classes.map fun c => (c.1, .ofList c.2))⟩

/-- What a user may set. -/
structure Config where
  /-- The store from which rows are selected. -/
  databaseUrl : Option String
  tables : List String
  /-- Whether the constants of the genealogy domain are there. -/
  builtin : Bool
  /-- Further constants, by class. -/
  constants : OrderedMap (OrderedMap Literal)
deriving Repr

namespace Config

/-- The configuration of a user who sets nothing. -/
def standard : Config := ⟨none, Genealogy.tables, true, .empty⟩

/-- The names of the domain. -/
def environment (c : Config) : Environment :=
  c.constants.entries.foldl (fun env entry => env.withClass entry.1 entry.2.entries)
    (if c.builtin then Genealogy.environment else .empty)

def tableSet (c : Config) : Tables := .ofNames c.tables

def compiler (c : Config) : Compiler := ⟨c.environment, c.tableSet⟩

end Config

end DocQuery
