import DocQuery.Data.Dictionary
import DocQuery.Expr.Basic

/-! # Domain values

The names of the domain model stand for constants, or for classes that hold further values.

* `DomainValue`: a constant or a class; `DomainValue.member?` looks up a member of a class.
* `Environment`: the values of the top-level names. `Environment.withClass` adds constants to a
  class, `Environment.bind` sets a name.
-/

set_option autoImplicit false

namespace DocQuery

/-- A value that a name may stand for. -/
inductive DomainValue where
  | constant (value : Literal)
  /-- A class, under its own name, with its members. -/
  | holder (name : String) (members : List (String × DomainValue))
deriving Repr, Inhabited

/-- The member of a class; a constant has none. -/
def DomainValue.member? (label : String) : DomainValue → Option DomainValue
  | constant _ => none
  | holder _ members => Dictionary.find? label members

/-- The values of the top-level names. -/
structure Environment where
  names : OrderedMap DomainValue
deriving Repr, Inhabited

namespace Environment

def empty : Environment := ⟨.empty⟩

def lookup? (env : Environment) (name : String) : Option DomainValue :=
  env.names.find? name

def bind (env : Environment) (name : String) (value : DomainValue) : Environment :=
  ⟨env.names.insert name value⟩

/-- The own name and the members of the class that a name stands for; there are no members if it
stands for none. -/
def classOf (env : Environment) (name : String) : String × Dictionary DomainValue :=
  match env.lookup? name with
  | some (.holder own members) => (own, members)
  | _ => (name, [])

/-- Adds constants to a class. A class that is not there is made, a constant of that name is
replaced. -/
def withClass (env : Environment) (name : String) (constants : List (String × Literal)) :
    Environment :=
  let (own, members) := env.classOf name
  let added := constants.map fun c => (c.1, DomainValue.constant c.2)
  env.bind name (.holder own (Dictionary.insertAll members added))

end Environment

end DocQuery
