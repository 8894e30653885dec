import DocQuery.Trace.Basic
import DocQuery.Error
import DocQuery.Expr.Basic
import DocQuery.Expr.Render
import DocQuery.Text.Affix
import DocQuery.Text.Blank
import DocQuery.Data.Width

/-! # Recovering the text of a trace

The instructions of a trace are run on a stack of texts. A connective is recognized by the test that
its left operand leaves: the value is copied, a conditional jump takes the short cut, and the value
is dropped. The target of the jump bounds the right operand, which is recovered on a stack of its
own.

* `Instruction.apply`: the effect of an instruction on the stack.
* `Routine`: the instructions that have an effect, with the offsets that lead to them.
* `Routine.Stage`, `Routine.move`: a walk under way through a range of instructions, and what it does
  next; `Routine.moves_move`: every move goes ahead.
* `Routine.walk`: the text of a range of instructions.
* `Trace.text`: the text of a whole trace.
-/

set_option autoImplicit false

namespace DocQuery

/-- A tuple of texts; a comma follows an item that stands alone. -/
def tupleText : List String → String
  | [item] => "(" ++ item ++ ",)"
  | items => "(" ++ commaJoined items ++ ")"

mutual

/-- The text of a constant. -/
def Json.constantText : Json → Except Error String
  | .null => .ok Literal.none.render
  | .bool b => .ok (Literal.bool b).render
  -- From `2 ^ 63` on there is no integer literal.
  | .int n =>
    .ok (if n < Width.signed64 then (Literal.int n).render
      else (Literal.float (UInt64.ofNat n.toNat).toFloat).render)
  | .float x => .ok (Literal.float x).render
  | .str s => .ok (Literal.str s).render
  | .arr items => do return tupleText (← Json.constantTexts items)
  | .obj members => .error (.unsupported (Json.obj members).compact .mappingConstant)
termination_by structural j => j

def Json.constantTexts : List Json → Except Error (List String)
  | [] => .ok []
  | j :: js => do
    let t ← Json.constantText j
    let ts ← Json.constantTexts js
    return t :: ts
termination_by structural js => js

end

/-- A list display extended by the items of another text. -/
def extendedList (list iterable : String) : String :=
  let inner :=
    match (Text.after? ['('] iterable.toList).bind (Text.before? [')']) with
    | some s => (s.reverse.dropWhile (· == ',')).reverse
    | none => iterable.toList
  let existing := ((Text.after? ['['] list.toList).bind (Text.before? [']'])).getD []
  let items :=
    if existing.isEmpty then inner
    else if inner.isEmpty then existing
    else existing ++ ", ".toList ++ inner
  "[" ++ String.ofList items ++ "]"

namespace Instruction

/-- The refusal of an instruction where it stands. -/
def unrecognized (ins : Instruction) : Error :=
  .unsupported (ins.opcode.name ++ " at offset " ++ toString ins.offset) .unrecognizedShape

/-- The report that an instruction finds too few values. -/
def underflow (ins : Instruction) : Error := .imbalance (.underflow ins.opcode.name ins.offset)

/-- What an instruction counts. -/
def count (ins : Instruction) : Nat := (ins.arg <|> ins.operand.natural?).getD 0

/-- Whether an instruction tests for the opposite. -/
def isInverted (ins : Instruction) : Bool := (ins.arg <|> ins.operand.natural?) == some 1

/-- The name that an instruction is about. -/
def nameText (ins : Instruction) : String :=
  match ins.operand with
  | .str name => name
  | _ => String.ofList (Text.trim (Text.afterAll "NULL + ".toList ins.text.toList))

/-- The spelling of a comparison, which may be wrapped in a conversion to a truth value. -/
def comparisonText (ins : Instruction) : String :=
  let raw := match ins.operand with
    | .str s => s
    | _ => ins.text
  let inner := Text.afterAll "bool(".toList (Text.trim raw.toList)
  String.ofList (inner.reverse.dropWhile (· == ')')).reverse

def pop (ins : Instruction) : List String → Except Error (String × List String)
  | a :: rest => .ok (a, rest)
  | [] => .error ins.underflow

/-- Takes `n` values off the stack, the deepest one first. -/
def popMany (ins : Instruction) (n : Nat) (stack : List String) :
    Except Error (List String × List String) :=
  if stack.length < n then .error ins.underflow
  else .ok ((stack.take n).reverse, stack.drop n)

/-- Puts a unary operator in front of the top of the stack. -/
def unaryEffect (ins : Instruction) (op : UnaryOp) (stack : List String) :
    Except Error (List String) := do
  let (a, rest) ← ins.pop stack
  return ("(" ++ op.mark ++ a ++ ")") :: rest

/-- Puts a symbol between the two values on top of the stack. -/
def binaryEffect (ins : Instruction) (symbol : String) (stack : List String) :
    Except Error (List String) := do
  let (b, rest) ← ins.pop stack
  let (a, rest) ← ins.pop rest
  return ("(" ++ a ++ " " ++ symbol ++ " " ++ b ++ ")") :: rest

/-- The effect of an instruction on the stack, whose top comes first. Instructions that decide where
to go on have none of their own. -/
def apply (ins : Instruction) (stack : List String) : Except Error (List String) :=
  match ins.opcode with
  | .loadConst => do return (← ins.operand.constantText) :: stack
  | .loadFast | .loadGlobal | .loadName | .loadDeref => .ok (ins.nameText :: stack)
  | .loadAttr | .loadMethod => do
    let (a, rest) ← ins.pop stack
    return (a ++ "." ++ ins.nameText) :: rest
  | .binaryOp =>
    let symbol := String.ofList (Text.trim ins.text.toList)
    if (BinaryOp.ofSymbol? symbol).isSome then ins.binaryEffect symbol stack
    else .error (.unsupported symbol .unknownOperator)
  | .compareOp =>
    let symbol := ins.comparisonText
    if (CmpOp.ofSymbol? symbol).isSome then ins.binaryEffect symbol stack
    else .error (.unsupported symbol .unknownComparison)
  | .isOp => ins.binaryEffect (if ins.isInverted then "is not" else "is") stack
  | .containsOp => ins.binaryEffect (if ins.isInverted then "not in" else "in") stack
  | .unaryNot => ins.unaryEffect .not stack
  | .unaryNegative => ins.unaryEffect .neg stack
  | .unaryPositive => ins.unaryEffect .pos stack
  | .unaryInvert => ins.unaryEffect .invert stack
  | .call | .callFunction | .callMethod => do
    let (args, rest) ← ins.popMany ins.count stack
    let (callee, rest) ← ins.pop rest
    return (callee ++ "(" ++ commaJoined args ++ ")") :: rest
  | .binarySubscr => do
    let (index, rest) ← ins.pop stack
    let (value, rest) ← ins.pop rest
    return (value ++ "[" ++ index ++ "]") :: rest
  | .buildList => do
    let (items, rest) ← ins.popMany ins.count stack
    return ("[" ++ commaJoined items ++ "]") :: rest
  | .buildTuple => do
    let (items, rest) ← ins.popMany ins.count stack
    return tupleText items :: rest
  | .listExtend => do
    let (iterable, rest) ← ins.pop stack
    let (list, rest) ← ins.pop rest
    return extendedList list iterable :: rest
  | .popTop => do
    let (_, rest) ← ins.pop stack
    return rest
  | op =>
    match op.operator? with
    | some b => ins.binaryEffect b.symbol stack
    | none => .error ins.unrecognized

end Instruction

/-- The instructions of a trace that have an effect. `targets` lists, for every offset of the trace,
the index of the instruction to which it leads: an instruction without effect leads to the next one.
`last?` is the greatest offset. -/
structure Routine where
  code : List Instruction
  targets : List (Nat × Nat)
  last? : Option Nat

namespace Routine

/-- The offsets of instructions with the indices to which they lead, after `kept` instructions. -/
def targetsFrom (kept : Nat) : List Instruction → List (Nat × Nat)
  | [] => []
  | ins :: rest =>
    (ins.offset, kept) :: targetsFrom (if ins.opcode.isNoop then kept else kept + 1) rest

/-- The routine of a list of instructions. -/
def ofCode (code : List Instruction) : Routine where
  code := code.filter (!·.opcode.isNoop)
  targets := targetsFrom 0 code
  last? := (code.map (·.offset)).max?

/-- The index to which an offset leads. Of two instructions at one offset, the later one counts. -/
def index? (r : Routine) (offset : Nat) : Option Nat :=
  (r.targets.reverse.find? (·.1 == offset)).map (·.2)

/-- The index to which the conditional jump `branch`, itself at index `here`, leads. It is always
ahead; a jump beyond the last instruction leads to the end. -/
def landing (r : Routine) (branch : Instruction) (here : Nat) (h : here < r.code.length) :
    Except Error { target : Nat // here < target } :=
  match branch.operand.natural? with
  | none => .error branch.unrecognized
  | some offset =>
    if Width.unsigned32 ≤ offset then .error branch.unrecognized
    else
      match r.index? offset with
      | some target =>
        if ahead : here < target then .ok ⟨target, ahead⟩
        else .error (.unsupported branch.opcode.name (.backwardJump offset))
      | none =>
        if r.last?.any (· < offset) then .ok ⟨r.code.length, h⟩
        else .error (.unsupported branch.opcode.name (.jumpBetween offset))

/-- The single value that the instructions from `start` to `stop` leave. -/
def result (start stop : Nat) : List String → Except Error String
  | [text] => .ok text
  | stack => .error (.imbalance (.leftover stack.reverse start stop))

/-- The index where the right operand starts, after the jump at index `here`: the value of the left
operand is dropped first. -/
def operandStart (r : Routine) (here : Nat) : Nat :=
  match r.code[here + 1]? with
  | some ins => if ins.opcode = .popTop then here + 2 else here + 1
  | none => here + 1

theorem le_operandStart (r : Routine) (here : Nat) : here + 1 ≤ r.operandStart here := by
  unfold operandStart
  split
  · split <;> omega
  · omega

/-- A walk under way through the instructions from `start` to `stop`: those before `cursor` have left
`stack`. -/
structure Stage where
  start : Nat
  stop : Nat
  cursor : Nat
  stack : List String

namespace Stage

/-- The beginning of a walk. -/
@[simp] def ofRange (start stop : Nat) : Stage := ⟨start, stop, start, []⟩

/-- The same walk at another instruction. -/
@[simp] def goTo (s : Stage) (cursor : Nat) (stack : List String) : Stage :=
  { s with cursor := cursor, stack := stack }

/-- The answer of a walk without more instructions. -/
def result (s : Stage) : Except Error String := Routine.result s.start s.stop s.stack

end Stage

/-- What a walk does at a stage. -/
inductive Move where
  | finish (answer : Except Error String)
  | advance (next : Stage)
  /-- An operand is recovered by a walk of its own. With its text, the walk goes on behind it. -/
  | descend (operand : Stage) (resume : String → Stage)

/-- A failure ends the walk. -/
def Move.ofExcept : Except Error Move → Move
  | .ok m => m
  | .error e => .finish (.error e)

/-- The move where the value on top is copied: the next instruction has to be a conditional jump. -/
def branchMove (r : Routine) (s : Stage) (ins : Instruction) : Except Error Move :=
  if s.cursor + 1 < s.stop then
    match known : r.code[s.cursor + 1]? with
    | none => .error ins.unrecognized
    | some branch =>
      match branch.opcode.branch? with
      | none => .error ins.unrecognized
      | some op => do
        let (left, rest) ← ins.pop s.stack
        let target ← r.landing branch (s.cursor + 1) (List.getElem?_eq_some_iff.1 known).1
        -- The jump may lead out of the part that is being read, its operand does not.
        let stop := min target.1 s.stop
        return .descend (.ofRange (r.operandStart (s.cursor + 1)) stop) fun right =>
          s.goTo stop (("(" ++ left ++ " " ++ op.keyword ++ " " ++ right ++ ")") :: rest)
  else .error ins.unrecognized

/-- What the walk does at a stage. -/
def move (r : Routine) (s : Stage) : Move :=
  if s.cursor < s.stop then
    match r.code[s.cursor]? with
    | none => .finish s.result
    | some ins =>
      match ins.opcode with
      | .returnValue => .finish s.result
      | .returnConst => .finish do
        let text ← ins.operand.constantText
        Routine.result s.start s.stop (text :: s.stack)
      | .copy | .dupTop => .ofExcept (r.branchMove s ins)
      | _ => .ofExcept do
        let stack ← ins.apply s.stack
        return .advance (s.goTo (s.cursor + 1) stack)
  else .finish s.result

/-- All that a walk can do at a stage. -/
inductive Moves (r : Routine) (s : Stage) : Move → Prop
  | finish (answer : Except Error String) : Moves r s (.finish answer)
  | advance (h : s.cursor < s.stop) (stack : List String) :
      Moves r s (.advance (s.goTo (s.cursor + 1) stack))
  | descend {stop : Nat} (ahead : s.cursor + 1 < stop) (h : stop ≤ s.stop)
      (stack : String → List String) :
      Moves r s (.descend (.ofRange (r.operandStart (s.cursor + 1)) stop) fun text =>
        s.goTo stop (stack text))

section Moves

variable {r : Routine} {s : Stage}

theorem moves_branchMove (r : Routine) (s : Stage) (ins : Instruction) :
    r.Moves s (.ofExcept (r.branchMove s ins)) := by
  rw [branchMove]
  split
  · rename_i hnext
    split
    · exact .finish _
    · split
      · exact .finish _
      · cases ins.pop s.stack with
        | error e => exact .finish _
        | ok p =>
          dsimp only [bind, Except.bind]
          split
          · exact .finish _
          · rename_i target _
            exact .descend (Nat.lt_min.2 ⟨target.2, hnext⟩) (Nat.min_le_right _ _) _
  · exact .finish _

theorem moves_move (r : Routine) (s : Stage) : r.Moves s (r.move s) := by
  rw [move]
  split
  · rename_i hcursor
    split
    · exact .finish _
    · rename_i ins _
      split
      · exact .finish _
      · exact .finish _
      · exact r.moves_branchMove s ins
      · exact r.moves_branchMove s ins
      · cases ins.apply s.stack with
        | error e => exact .finish _
        | ok stack => exact .advance hcursor stack
  · exact .finish _

theorem moves_of_move {m : Move} (h : r.move s = m) : r.Moves s m := h ▸ r.moves_move s

end Moves

/-- The move at a stage, which goes ahead. -/
def step (r : Routine) (s : Stage) : { m : Move // r.Moves s m } := ⟨r.move s, r.moves_move s⟩

/-- The text that a walk recovers, or its failure. -/
def walk (r : Routine) (s : Stage) : Except Error String :=
  match r.step s with
  | ⟨.finish answer, _⟩ => answer
  | ⟨.advance next, _⟩ => walk r next
  | ⟨.descend operand resume, _⟩ => do
    let text ← walk r operand
    walk r (resume text)
termination_by s.stop - s.cursor
decreasing_by
  all_goals rename_i hmoves
  · cases hmoves with
    | advance h stack =>
      simp only [Stage.goTo]
      omega
  · cases hmoves with
    | descend ahead h stack =>
      have := r.le_operandStart (s.cursor + 1)
      simp only [Stage.ofRange]
      omega
  · cases hmoves with
    | descend ahead h stack =>
      simp only [Stage.goTo]
      omega

/-- The walk through all instructions. -/
def whole (r : Routine) : Stage := .ofRange 0 r.code.length

end Routine

namespace Trace

/-- The text of a trace, which must not declare parameters. -/
def text (t : Trace) : Except Error String :=
  if t.params.isEmpty then
    let r := Routine.ofCode t.code
    r.walk r.whole
  else .error (.parameterized ("lambda " ++ commaJoined t.params ++ ": ..."))

end Trace

end DocQuery
