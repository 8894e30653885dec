import DocQuery.Data.NameSet
import DocQuery.Scope.Genealogy
import DocQuery.Text.Lowercase

/-! # Tables

* `Tables`: the closed set of the tables that a query may name. Their names are kept in lower case;
  a name is looked up as it is written.
-/

set_option autoImplicit false

namespace DocQuery

/-- The known tables. -/
structure Tables where
  names : NameSet
deriving Repr, Inhabited

namespace Tables

def ofNames (names : List String) : Tables := ⟨NameSet.ofList (names.map Text.lowercase)⟩

def genealogy : Tables := ofNames Genealogy.tables

/-- Whether a name is that of a table. -/
def contains (t : Tables) (name : String) : Bool := t.names.contains name

end Tables

end DocQuery
