import DocQuery.Scope.Domain

/-! # The genealogy domain

The constants and the tables of a store of genealogical records.

* `Genealogy.classes`, `Genealogy.environment`: the constants, by class.
* `Genealogy.tables`: the names of the tables.
-/

set_option autoImplicit false

namespace DocQuery.Genealogy

def tables : List String :=
  ["person", "family", "event", "place", "source", "citation", "repository", "media", "note", "tag"]

/-- The classes with their constants. -/
def classes : List (String × List (String × Int)) :=
  [("Person", [("FEMALE", 0), ("MALE", 1), ("UNKNOWN", 2)]),
    ("EventType",
      [("UNKNOWN", -1), ("CUSTOM", 0), ("MARRIAGE", 1), ("ENGAGEMENT", 6), ("DIVORCE", 7),
        ("ADOPT", 11), ("BIRTH", 12), ("DEATH", 13), ("BAPTISM", 15), ("BURIAL", 19)]),
    ("EventRoleType",
      [("UNKNOWN", -1), ("CUSTOM", 0), ("PRIMARY", 1), ("CLERGY", 2), ("CELEBRANT", 3),
        ("AIDE", 4), ("BRIDE", 5), ("GROOM", 6), ("WITNESS", 7), ("FAMILY", 8),
        ("INFORMANT", 9)]),
    ("FamilyRelType",
      [("MARRIED", 0), ("UNMARRIED", 1), ("CIVIL_UNION", 2), ("UNKNOWN", 3), ("CUSTOM", 4)]),
    ("ChildRefType",
      [("NONE", 0), ("BIRTH", 1), ("ADOPTED", 2), ("STEPCHILD", 3), ("SPONSORED", 4),
        ("FOSTER", 5), ("UNKNOWN", 6), ("CUSTOM", 7)]),
    ("NameType", [("UNKNOWN", -1), ("CUSTOM", 0), ("AKA", 1), ("BIRTH", 2), ("MARRIED", 3)])]

/-- The constants of the domain. -/
def environment : Environment :=
  classes.foldl
    (fun env c => env.withClass c.1 (c.2.map fun k => (k.1, Literal.int k.2)))
    Environment.empty

end DocQuery.Genealogy
