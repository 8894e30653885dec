import DocQuery.Trace.Basic
import DocQuery.Expr.Parse
import DocQuery.Expr.Render

/-! # Lowering expressions to traces

An expression becomes a list of steps that pushes its value. Steps know no offsets: a jump says how
many steps it goes ahead, so the steps of an expression do not depend on where they stand.

* `Step`: an instruction without an offset; `Step.place` gives a list of steps their offsets.
* `Expr.lower`: the steps of an expression.
* `Trace.ofText`: the trace of a text, which is a predicate or an anonymous function around one.
-/

set_option autoImplicit false

namespace DocQuery

/-- The operand of a step: a value with the text that shows it, or a jump over `ahead` steps. -/
inductive Operand where
  | value (operand : Json) (text : String)
  | jump (ahead : Nat)
deriving Repr

/-- An instruction without an offset. -/
structure Step where
  opcode : Opcode
  arg : Option Nat
  operand : Operand
deriving Repr

namespace Step

/-- A step whose operand is shown as it is. -/
def of (opcode : Opcode) (arg : Option Nat) (operand : Json) : Step :=
  ⟨opcode, arg, .value operand operand.operandText⟩

/-- A step without an operand. -/
def plain (opcode : Opcode) : Step := of opcode none .null

/-- A step that counts something. -/
def counting (opcode : Opcode) (n : Nat) : Step := of opcode (some n) (.int n)

/-- A step that loads a constant. -/
def constant (value : Json) (text : String) : Step := ⟨.loadConst, none, .value value text⟩

/-- The instruction of a step at an offset. Instructions are two units apart. -/
def toInstruction (s : Step) (offset : Nat) : Instruction :=
  match s.operand with
  | .value operand text => ⟨s.opcode, offset, s.arg, operand, text⟩
  | .jump ahead =>
    let target := offset + 2 * ahead
    ⟨s.opcode, offset, s.arg, .int target, "to " ++ toString target⟩

/-- The instructions of a list of steps, the first one at an offset. -/
def place : Nat → List Step → List Instruction
  | _, [] => []
  | offset, s :: rest => s.toInstruction offset :: place (offset + 2) rest

end Step

/-- The operand that loads a literal. -/
def Literal.operand : Literal → Json
  | .none => .null
  | .bool b => .bool b
  | .int n => .int n
  | .float x => .ofFloat x
  | .str s => .str s

def UnaryOp.opcode : UnaryOp → Opcode
  | not => .unaryNot
  | neg => .unaryNegative
  | pos => .unaryPositive
  | invert => .unaryInvert

/-- The jump that takes the short cut of a connective. -/
def BoolOp.opcode : BoolOp → Opcode
  | .and => .popJumpIfFalse
  | .or => .popJumpIfTrue

def CmpOp.step : CmpOp → Step
  | same => ⟨.isOp, some 0, .value (.int 0) "is"⟩
  | notSame => ⟨.isOp, some 1, .value (.int 1) "is not"⟩
  | elemOf => ⟨.containsOp, some 0, .value (.int 0) "in"⟩
  | notElemOf => ⟨.containsOp, some 1, .value (.int 1) "not in"⟩
  | op => .of .compareOp none (.str op.symbol)

namespace Expr

/-- The literals in a list, if there is nothing else in it. -/
def literals? : List Expr → Option (List Literal)
  | [] => some []
  | literal l :: es => (literals? es).map (l :: ·)
  | _ :: _ => none

def isStarred : Expr → Bool
  | starred _ => true
  | _ => false

/-- The refusal of an expression that has no steps. -/
def notLowerable (e : Expr) : Except Error (List Step) :=
  .error (.unsupported e.render (.noLowering e.kind))

mutual

/-- The steps that push the value of an expression. -/
def lower : Expr → Except Error (List Step)
  | literal l => .ok [.constant l.operand l.render]
  | name id => .ok [.of .loadGlobal none (.str id)]
  | attr value label => do return (← lower value) ++ [.of .loadAttr none (.str label)]
  | binary left op right => do
    let l ← lower left
    let r ← lower right
    return l ++ r ++ [⟨.binaryOp, none, .value .null op.symbol⟩]
  | unary op operand => do return (← lower operand) ++ [.plain op.opcode]
  | compare left [op] [right] => do
    let l ← lower left
    let r ← lower right
    return l ++ r ++ [op.step]
  | compare left ops operands =>
    .error (.unsupported (compare left ops operands).render .chainedLowering)
  | boolean op operands => lowerChain op operands
  | call callee args keywords =>
    if !keywords.isEmpty || args.any isStarred then
      .error (.unsupported (call callee args keywords).render .spreadLowering)
    else do
      let c ← lower callee
      let a ← lowerAll args
      return c ++ a ++ [.counting .call args.length]
  | subscript value (slice lower upper step) =>
    .error (.unsupported (subscript value (slice lower upper step)).render .sliceLowering)
  | subscript value index => do
    let v ← lower value
    let i ← lower index
    return v ++ i ++ [.plain .binarySubscr]
  | list items => do
    match literals? items with
    -- Three literals or more are one constant, which extends an empty list.
    | some (a :: b :: c :: more) =>
      return [.counting .buildList 0,
        .constant (.arr ((a :: b :: c :: more).map Literal.operand)) (tuple items).render,
        .counting .listExtend 1]
    | _ => return (← lowerAll items) ++ [.counting .buildList items.length]
  | tuple items => do
    match literals? items with
    | some ls => return [.constant (.arr (ls.map Literal.operand)) (tuple items).render]
    | none => return (← lowerAll items) ++ [.counting .buildTuple items.length]
  | lambda [] none none body => notLowerable (lambda [] none none body)
  | lambda params rest named body => .error (.parameterized (lambda params rest named body).render)
  | conditional test body otherwise => notLowerable (conditional test body otherwise)
  | starred value => notLowerable (starred value)
  | slice lower upper step => notLowerable (slice lower upper step)
  | listComp element clauses => notLowerable (listComp element clauses)
  | generator element clauses => notLowerable (generator element clauses)
  | display kind => notLowerable (display kind)
termination_by structural e => e

/-- The steps that push several values in order. -/
def lowerAll : List Expr → Except Error (List Step)
  | [] => .ok []
  | e :: es => do
    let s ← lower e
    let ss ← lowerAll es
    return s ++ ss
termination_by structural es => es

/-- The steps of a chain of operands of a connective. After every operand but the last, its value is
tested and either kept, by a jump to the end of the chain, or dropped. -/
def lowerChain (op : BoolOp) : List Expr → Except Error (List Step)
  | [] => .ok []
  | [e] => lower e
  | e :: es => do
    let s ← lower e
    let ss ← lowerChain op es
    -- The jump counts itself, the drop and the rest of the chain.
    return s ++ [.counting .copy 1, ⟨op.opcode, none, .jump (ss.length + 2)⟩, .plain .popTop] ++ ss
termination_by structural es => es

end

end Expr

namespace Trace

/-- The trace of a predicate with declared parameters. -/
def ofBody (params : List String) (body : Expr) : Except Error Trace := do
  let steps ← body.lower
  return ⟨params, Step.place 0 ([.counting .resume 0] ++ steps ++ [.plain .returnValue])⟩

/-- The names that an anonymous function declares. -/
def paramNames (params : List (Param Expr)) (rest named : Option String) : List String :=
  params.map (·.name) ++ rest.toList ++ named.toList

/-- The trace of an expression: that of its body, if it is an anonymous function. -/
def ofExpr : Expr → Except Error Trace
  | .lambda params rest named body => ofBody (paramNames params rest named) body
  | body => ofBody [] body

def ofText (text : String) : Except Error Trace := do
  ofExpr (← Expr.parse text)

end Trace

end DocQuery
