import DocQuery.Config.Basic
import DocQuery.Json.Reader
import DocQuery.Toml.Reader
import DocQuery.Trace.Load

/-! # Loading configurations

A configuration is a TOML document with the keys `database_url`, `tables`, `builtin_constants` and
`constants`, none of which needs to be there. Other keys are ignored.

* `Config.ofToml`: the configuration of a text.
-/

set_option autoImplicit false

namespace DocQuery

namespace Toml

/-- What kind of value was found where another one was expected. -/
def Value.found : Value → String
  | string s => (Json.str s).found
  | integer n => (Json.int n).found
  | float x => "floating point `" ++ Decimal.positional x ++ "`"
  | boolean b => (Json.bool b).found
  | datetime _ => (Json.obj []).found
  | array _ => (Json.arr []).found
  | table _ => (Json.obj []).found

/-- The report of a value of the wrong kind. -/
def wrongKind {α : Type} (span : Span) (v : Value) (expected : String) : Except Fault α :=
  .error ⟨span, "invalid type: " ++ v.found ++ ", expected " ++ expected⟩

def toText (span : Span) (v : Value) : Except Fault String :=
  match v with
  | .string s => .ok s
  | _ => wrongKind span v "a string"

def toFlag (span : Span) (v : Value) : Except Fault Bool :=
  match v with
  | .boolean b => .ok b
  | _ => wrongKind span v "a boolean"

def toTexts (span : Span) (v : Value) : Except Fault (List String) :=
  match v with
  | .array items => items.mapM fun i => toText i.1 i.2
  | _ => wrongKind span v "a sequence"

/-- The key of the only entry of a date or a time that is read as a table. -/
def datetimeKey : String := "$__toml_private_datetime"

/-- The entries of a table. A date or a time is a table, whose only entry is its written form. -/
def toEntries (span : Span) (v : Value) : Except Fault (List (String × Span × Value)) :=
  match v with
  | .table entries => .ok entries
  | .datetime d => .ok [(datetimeKey, span, .string d.text)]
  | _ => wrongKind span v "a map"

def toConstant (span : Span) (v : Value) : Except Fault Literal :=
  match v with
  | .boolean b => .ok (.bool b)
  | .integer n => .ok (.int n)
  | .float x => .ok (.float x)
  | .string s => .ok (.str s)
  | _ => .error ⟨span, "data did not match any variant of untagged enum ConstantValue"⟩

def toConstants (span : Span) (v : Value) : Except Fault (Dictionary Literal) := do
  let entries ← toEntries span v
  entries.mapM fun e => do return (e.1, ← toConstant e.2.1 e.2.2)

def toClasses (span : Span) (v : Value) : Except Fault (Dictionary (Dictionary Literal)) := do
  let entries ← toEntries span v
  entries.mapM fun e => do return (e.1, ← toConstants e.2.1 e.2.2)

end Toml

namespace Config

/-- Takes up an entry of the document. -/
def set (c : Config) (key : String) (span : Toml.Span) (v : Toml.Value) :
    Except Toml.Fault Config :=
  match key with
  | "database_url" => do return { c with databaseUrl := some (← Toml.toText span v) }
  | "tables" => do return { c with tables := ← Toml.toTexts span v }
  | "builtin_constants" => do return { c with builtin := ← Toml.toFlag span v }
  | "constants" => do return { c with constants := ← Toml.toClasses span v }
  | _ => .ok c

/-- The configuration of a text. -/
def read (text : String) : Except Toml.Fault Config := do
  (← Toml.parse text).foldlM (fun c e => c.set e.1 e.2.1 e.2.2) standard

def ofToml (text : String) : Except Error Config :=
  match read text with
  | .ok c => .ok c
  | .error f => .error (.configuration (f.report text))

/-- The configuration of a file with a given name and text. -/
def ofFile (name text : String) : Except Error Config :=
  match read text with
  | .ok c => .ok c
  | .error f => .error (.configuration (name ++ ": " ++ f.report text))

end Config

end DocQuery
