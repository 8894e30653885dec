import DocQuery.Sql.Text

/-! # Field paths

A field path leads from a JSON document to a part of it.

* `Root`: the document, that of a table or an element of an array that is expanded.
* `FieldPath`: a root and the steps from it. `FieldPath.field`, `FieldPath.length` and
  `FieldPath.expansion` write the SQL for the part, the length and the elements of the array.
-/

set_option autoImplicit false

namespace DocQuery

/-- The column that holds the document of every table. -/
def documentColumn : String := "json_data"

/-- Where a field path starts. -/
inductive Root where
  | table (name : String) (qualified : Bool)
  | element (target : String)
deriving DecidableEq, Repr

/-- The SQL for the document at the start of a path. -/
def Root.document : Root → String
  | table name qualified => if qualified then name ++ "." ++ documentColumn else documentColumn
  | element target => target ++ ".value"

/-- A step of a field path. A negative index counts from the end. -/
inductive Segment where
  | field (name : String)
  | index (n : Int)
deriving DecidableEq, Repr

/-- The text of a step inside a JSON path. -/
def Segment.text : Segment → String
  | field name => "." ++ name
  | index n => if n < 0 then "[#" ++ toString n ++ "]" else "[" ++ toString n ++ "]"

/-- A path from a document to a part of it. -/
structure FieldPath where
  root : Root
  segments : List Segment
deriving DecidableEq, Repr

namespace FieldPath

/-- The path to the whole document. -/
def ofRoot (root : Root) : FieldPath := ⟨root, []⟩

def push (p : FieldPath) (s : Segment) : FieldPath := ⟨p.root, p.segments ++ [s]⟩

/-- The steps as a JSON path. -/
def jsonPath (p : FieldPath) : String := "$" ++ String.join (p.segments.map Segment.text)

/-- The arguments that select the part in a JSON function. -/
def arguments (p : FieldPath) : String :=
  if p.segments.isEmpty then p.root.document
  else p.root.document ++ ", " ++ Sql.quote p.jsonPath

/-- The SQL for the part. -/
def field (p : FieldPath) : String :=
  if p.segments.isEmpty then p.root.document else "json_extract(" ++ p.arguments ++ ")"

/-- The SQL for the length of the array at the path. -/
def length (p : FieldPath) : String := "json_array_length(" ++ p.arguments ++ ")"

/-- The SQL for a table with one row for each element of the array at the path. -/
def expansion (p : FieldPath) (target : String) : String :=
  "json_each(" ++ p.arguments ++ ") AS " ++ target

end FieldPath

end DocQuery
