import DocQuery.Trace.Opcode
import DocQuery.Json.Text

/-! # Instruction traces

A trace is the compiled form of an anonymous predicate: the parameters that it declares and the flat
list of its instructions.

* `Instruction`, `Trace`: the types.
* `Json.operandText`: how an operand is shown in a listing unless something else is said.
-/

set_option autoImplicit false

namespace DocQuery

/-- An instruction at an offset. Its operand is resolved: a constant, a name or the offset to which
it jumps; `text` is how a listing shows it. -/
structure Instruction where
  opcode : Opcode
  offset : Nat
  arg : Option Nat
  operand : Json
  text : String
deriving Repr, Inhabited

/-- A compiled anonymous predicate. -/
structure Trace where
  params : List String
  code : List Instruction
deriving Repr, Inhabited

/-- How an operand is shown: a string as it is, nothing for `null`, all else as JSON. -/
def Json.operandText : Json → String
  | .str s => s
  | .null => ""
  | j => j.compact

end DocQuery
