import Mathlib
import DocQuery.Trace.Recover

/-! # Running a trace

A trace of names, negations and conditional jumps runs on a stack of values. A jump whose target is
no instruction of the trace cannot be taken.

* `Valuation`: values with a truth, and what the names stand for.
* `Expr.value?`: the value of a condition; operands after the one that decides do not count.
* `Valuation.step`, `Valuation.run`: the machine. `Valuation.Returns`: what a whole trace returns.
-/

set_option autoImplicit false

namespace DocQuery

/-- What names stand for, among values that have a truth. -/
structure Valuation (V : Type) where
  read : String → V
  truth : V → Bool
  ofBool : Bool → V

/-- Whether an operand with the given truth decides the connective. -/
def BoolOp.isDecidedBy : BoolOp → Bool → Bool
  | .and, b => !b
  | .or, b => b

variable {V : Type}

mutual

/-- The value of a condition made of names, negations and connectives. -/
def Expr.value? (ν : Valuation V) : Expr → Option V
  | .name id => some (ν.read id)
  | .unary .not e => (Expr.value? ν e).map fun v => ν.ofBool !ν.truth v
  | .boolean op operands => Expr.decided? ν op operands
  | _ => none
termination_by structural e => e

/-- The value of the first operand that decides the connective, or else of the last one. -/
def Expr.decided? (ν : Valuation V) (op : BoolOp) : List Expr → Option V
  | [] => none
  | e :: es => do
    let v ← Expr.value? ν e
    if es.isEmpty || op.isDecidedBy (ν.truth v) then some v else Expr.decided? ν op es
termination_by structural es => es

end

/-- The index to which a jump leads. -/
def jumpTarget? (code : List Instruction) (ins : Instruction) : Option Nat :=
  ins.operand.natural?.bind fun offset => code.findIdx? (·.offset == offset)

namespace Valuation

/-- The index of the next instruction, and the stack with its top first. -/
structure State (V : Type) where
  next : Nat
  stack : List V

/-- After one step, the machine goes on or has returned a value. -/
inductive Progress (V : Type) where
  | running (s : State V)
  | returned (v : V)

/-- One step of the machine; none where the stack is too short or there is nowhere to go. -/
def step (ν : Valuation V) (code : List Instruction) (s : State V) : Option (Progress V) := do
  let ins ← code[s.next]?
  match ins.opcode, s.stack with
  | .loadGlobal, stack => some (.running ⟨s.next + 1, ν.read ins.nameText :: stack⟩)
  | .unaryNot, v :: rest => some (.running ⟨s.next + 1, ν.ofBool (!ν.truth v) :: rest⟩)
  | .copy, v :: rest => some (.running ⟨s.next + 1, v :: v :: rest⟩)
  | .dupTop, v :: rest => some (.running ⟨s.next + 1, v :: v :: rest⟩)
  | .popTop, _ :: rest => some (.running ⟨s.next + 1, rest⟩)
  | .returnValue, v :: _ => some (.returned v)
  | opcode, v :: rest =>
    opcode.branch?.bind fun op =>
      if op.isDecidedBy (ν.truth v) then
        (jumpTarget? code ins).map fun target => .running ⟨target, rest⟩
      else some (.running ⟨s.next + 1, rest⟩)
  | _, [] => none

/-- The value that the machine returns within a number of steps. -/
def run (ν : Valuation V) (code : List Instruction) : Nat → State V → Option V
  | 0, _ => none
  | fuel + 1, s =>
    match ν.step code s with
    | some (.running s') => run ν code fuel s'
    | some (.returned v) => some v
    | none => none

/-- From a state the machine comes to return a value. -/
def Ends (ν : Valuation V) (code : List Instruction) (s : State V) (v : V) : Prop :=
  ∃ fuel, ν.run code fuel s = some v

/-- The trace returns a value. -/
def Returns (ν : Valuation V) (code : List Instruction) (v : V) : Prop := ν.Ends code ⟨0, []⟩ v

variable {ν : Valuation V} {code : List Instruction} {i : Nat} {ins : Instruction} {v w : V}
  {stack : List V}

theorem Ends.of_step {s s' : State V} (hstep : ν.step code s = some (.running s'))
    (h : ν.Ends code s' v) : ν.Ends code s v := by
  obtain ⟨fuel, hfuel⟩ := h
  refine ⟨fuel + 1, ?_⟩
  rw [run, hstep]
  exact hfuel

theorem Ends.load (hins : code[i]? = some ins) (hop : ins.opcode = .loadGlobal)
    (h : ν.Ends code ⟨i + 1, ν.read ins.nameText :: stack⟩ w) : ν.Ends code ⟨i, stack⟩ w :=
  h.of_step (by simp [step, hins, hop])

theorem Ends.negate (hins : code[i]? = some ins) (hop : ins.opcode = .unaryNot)
    (h : ν.Ends code ⟨i + 1, ν.ofBool (!ν.truth v) :: stack⟩ w) :
    ν.Ends code ⟨i, v :: stack⟩ w :=
  h.of_step (by simp [step, hins, hop])

theorem Ends.duplicate (hins : code[i]? = some ins)
    (hop : ins.opcode = .copy ∨ ins.opcode = .dupTop)
    (h : ν.Ends code ⟨i + 1, v :: v :: stack⟩ w) : ν.Ends code ⟨i, v :: stack⟩ w :=
  h.of_step (by rcases hop with hop | hop <;> simp [step, hins, hop])

theorem Ends.drop (hins : code[i]? = some ins) (hop : ins.opcode = .popTop)
    (h : ν.Ends code ⟨i + 1, stack⟩ w) : ν.Ends code ⟨i, v :: stack⟩ w :=
  h.of_step (by simp [step, hins, hop])

theorem step_jump {op : BoolOp} (hins : code[i]? = some ins) (hop : ins.opcode.branch? = some op) :
    ν.step code ⟨i, v :: stack⟩ =
      if op.isDecidedBy (ν.truth v) then
        (jumpTarget? code ins).map fun target => .running ⟨target, stack⟩
      else some (.running ⟨i + 1, stack⟩) := by
  rw [step, hins]
  cases hopcode : ins.opcode <;> rw [hopcode] at hop <;> cases hop <;> simp [hopcode, Opcode.branch?]

theorem Ends.jump {op : BoolOp} {target : Nat} (hins : code[i]? = some ins)
    (hop : ins.opcode.branch? = some op) (htarget : jumpTarget? code ins = some target)
    (hdecided : op.isDecidedBy (ν.truth v) = true) (h : ν.Ends code ⟨target, stack⟩ w) :
    ν.Ends code ⟨i, v :: stack⟩ w :=
  h.of_step (by rw [step_jump hins hop, if_pos hdecided, htarget]; rfl)

theorem Ends.pass {op : BoolOp} (hins : code[i]? = some ins) (hop : ins.opcode.branch? = some op)
    (hdecided : op.isDecidedBy (ν.truth v) = false) (h : ν.Ends code ⟨i + 1, stack⟩ w) :
    ν.Ends code ⟨i, v :: stack⟩ w :=
  h.of_step (by rw [step_jump hins hop, if_neg (by simp [hdecided])])

/-- At an instruction that returns, the machine comes to return the top of the stack, and nothing
else. -/
theorem ends_return_iff (hins : code[i]? = some ins) (hop : ins.opcode = .returnValue) :
    ν.Ends code ⟨i, v :: stack⟩ w ↔ w = v := by
  have hstep : ν.step code ⟨i, v :: stack⟩ = some (.returned v) := by simp [step, hins, hop]
  constructor
  · rintro ⟨fuel, hfuel⟩
    cases fuel with
    | zero => cases hfuel
    | succ fuel =>
      rw [run, hstep] at hfuel
      exact (Option.some.inj hfuel).symm
  · rintro rfl
    exact ⟨1, by rw [run, hstep]⟩

end Valuation

end DocQuery
