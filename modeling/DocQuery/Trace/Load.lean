import DocQuery.Trace.Basic
import DocQuery.Json.Reader
import DocQuery.Text.Printable
import DocQuery.Error
import DocQuery.Data.Width

/-! # Loading traces

A trace is given as a JSON text: a list of instructions, or an object with the members `params` and
`instructions`. An instruction is an object, whose members may be in any order, or the list of its
members in the order of the fields. Members that are not known are ignored.

* `Trace.load`: the trace of a JSON text.
-/

set_option autoImplicit false

namespace DocQuery

namespace Json

/-- What kind of value was found where another one was expected. -/
def found : Json → String
  | null => "null"
  | bool b => "boolean `" ++ (if b then "true" else "false") ++ "`"
  | int n => "integer `" ++ toString n ++ "`"
  | float x => "floating point `" ++ floatText x ++ "`"
  | str s => "string " ++ Text.shown s
  | arr _ => "sequence"
  | obj _ => "map"

/-- The report of a value of the wrong kind. -/
def wrongKind {α : Type} (j : Json) (expected : String) : Except String α :=
  .error ("invalid type: " ++ j.found ++ ", expected " ++ expected)

/-- A natural number below `2 ^ 32`. -/
def toNatural32 (j : Json) : Except String Nat :=
  match j with
  | int n =>
    if 0 ≤ n ∧ n < Width.unsigned32 then .ok n.toNat
    else .error ("invalid value: " ++ j.found ++ ", expected u32")
  | _ => j.wrongKind "u32"

/-- A natural number below `2 ^ 32`, or none for `null`. -/
def toNatural32? (j : Json) : Except String (Option Nat) :=
  match j with
  | null => .ok none
  | _ => some <$> j.toNatural32

def toText (j : Json) : Except String String :=
  match j with
  | str s => .ok s
  | _ => j.wrongKind "a string"

def toItems (j : Json) : Except String (List Json) :=
  match j with
  | arr items => .ok items
  | _ => j.wrongKind "a sequence"

end Json

def Opcode.named (s : String) : Except String Opcode :=
  match Opcode.ofName? s with
  | some op => .ok op
  | none =>
    .error ("unknown variant `" ++ s ++ "`, expected one of " ++
      ", ".intercalate (Opcode.all.map fun op => "`" ++ op.name ++ "`"))

/-- An operation, given by its spelling. The spelling may also be the only key of an object, whose
value is `null`. -/
def Opcode.ofJson (j : Json) : Except String Opcode :=
  match j with
  | .str s => Opcode.named s
  | .obj [(s, v)] => do
    let op ← Opcode.named s
    match v with
    | .null => return op
    | _ => v.wrongKind "unit"
  | .obj _ => .error "invalid value: map, expected map with a single key"
  | _ => j.wrongKind "string or map"

namespace Instruction

/-- The fields of an instruction that are known so far. -/
structure Fields where
  opcode? : Option Opcode
  offset? : Option Nat
  arg : Option Nat
  operand : Json
  text : String

/-- No field is known; those that need not be given have their values. -/
def Fields.empty : Fields := ⟨none, none, none, .null, ""⟩

/-- Takes up a member of an instruction. -/
def Fields.add (f : Fields) (key : String) (j : Json) : Except String Fields :=
  match key with
  | "opname" => do return { f with opcode? := some (← Opcode.ofJson j) }
  | "offset" => do return { f with offset? := some (← j.toNatural32) }
  | "arg" => do return { f with arg := ← j.toNatural32? }
  | "argval" => .ok { f with operand := j }
  | "argrepr" => do return { f with text := ← j.toText }
  | _ => .ok f

/-- The instruction of a list of members. -/
def ofMembers (members : List (String × Json)) : Except String Instruction := do
  let f ← members.foldlM (fun f m => f.add m.1 m.2) Fields.empty
  match f.opcode?, f.offset? with
  | some opcode, some offset => return ⟨opcode, offset, f.arg, f.operand, f.text⟩
  | none, _ => .error "missing field `opname`"
  | some _, none => .error "missing field `offset`"

/-- The members of an instruction in the order of its fields. -/
def fieldOrder : List String := ["opname", "offset", "arg", "argval", "argrepr"]

/-- The instruction of a list of values, in the order of the fields. -/
def ofValues (values : List Json) : Except String Instruction := do
  let f ← (fieldOrder.zip values).foldlM (fun f m => f.add m.1 m.2) Fields.empty
  match f.opcode?, f.offset? with
  | some opcode, some offset =>
    if values.length ≤ fieldOrder.length then
      return ⟨opcode, offset, f.arg, f.operand, f.text⟩
    else
      .error ("invalid length " ++ toString values.length ++ ", expected fewer elements in array")
  | _, _ =>
    .error ("invalid length " ++ toString values.length ++
      ", expected struct Instruction with 5 elements")

/-- An instruction, given as an object or as a list. -/
def ofJson (j : Json) : Except String Instruction :=
  match j with
  | .obj members => ofMembers members
  | .arr values => ofValues values
  | _ => j.wrongKind "struct Instruction"

end Instruction

namespace Trace

def ofMembers (members : List (String × Json)) : Except String Trace := do
  let code? ← (Dictionary.find? "instructions" members).mapM fun j => do
    (← j.toItems).mapM Instruction.ofJson
  let params? ← (Dictionary.find? "params" members).mapM fun j => do
    (← j.toItems).mapM Json.toText
  match code? with
  | some code => return ⟨params?.getD [], code⟩
  | none => .error "missing field `instructions`"

def ofJson (j : Json) : Except String Trace :=
  match j with
  | .arr items => do return ⟨[], ← items.mapM Instruction.ofJson⟩
  | .obj members => ofMembers members
  | _ => j.wrongKind "struct Closure"

/-- The trace of a JSON text. -/
def load (text : String) : Except Error Trace :=
  match Json.parse text with
  | .error fault => .error (.unparseable text (.notJson (fault.message text)))
  | .ok j =>
    match ofJson j with
    | .ok t => .ok t
    | .error detail => .error (.unsupported "instruction trace" (.traceShape detail))

end Trace

end DocQuery
