import DocQuery.Expr.Operator

/-! # Operation codes

The operations of the stack machine on which an anonymous predicate runs.

* `Opcode`: the operations; `Opcode.name` and `Opcode.ofName?` give their spelling.
* `Opcode.isNoop`: operations without any effect on the value stack.
* `Opcode.branch?`: conditional jumps, by the connective that they come from.
* `Opcode.operator?`: operations that stand for one binary operator each.
-/

set_option autoImplicit false

namespace DocQuery

/-- An operation of the stack machine. -/
inductive Opcode where
  | nop | resume | cache | precall | pushNull | extendedArg | copyFreeVars | makeCell
  | loadConst | loadFast | loadGlobal | loadName | loadDeref | loadAttr | loadMethod
  | binaryOp
  | binaryAdd | binarySubtract | binaryMultiply | binaryTrueDivide | binaryFloorDivide
  | binaryModulo | binaryPower | binaryLshift | binaryRshift | binaryAnd | binaryOr | binaryXor
  | compareOp | isOp | containsOp
  | unaryNot | unaryNegative | unaryPositive | unaryInvert
  | call | callFunction | callMethod | binarySubscr | buildList | buildTuple | listExtend
  | copy | dupTop
  | popJumpIfFalse | popJumpIfTrue | popJumpForwardIfFalse | popJumpForwardIfTrue
  | popTop | returnValue | returnConst
deriving DecidableEq, Repr, Inhabited

namespace Opcode

def all : List Opcode :=
  [nop, resume, cache, precall, pushNull, extendedArg, copyFreeVars, makeCell,
    loadConst, loadFast, loadGlobal, loadName, loadDeref, loadAttr, loadMethod,
    binaryOp,
    binaryAdd, binarySubtract, binaryMultiply, binaryTrueDivide, binaryFloorDivide,
    binaryModulo, binaryPower, binaryLshift, binaryRshift, binaryAnd, binaryOr, binaryXor,
    compareOp, isOp, containsOp,
    unaryNot, unaryNegative, unaryPositive, unaryInvert,
    call, callFunction, callMethod, binarySubscr, buildList, buildTuple, listExtend,
    copy, dupTop,
    popJumpIfFalse, popJumpIfTrue, popJumpForwardIfFalse, popJumpForwardIfTrue,
    popTop, returnValue, returnConst]

def name : Opcode → String
  | nop => "NOP"
  | resume => "RESUME"
  | cache => "CACHE"
  | precall => "PRECALL"
  | pushNull => "PUSH_NULL"
  | extendedArg => "EXTENDED_ARG"
  | copyFreeVars => "COPY_FREE_VARS"
  | makeCell => "MAKE_CELL"
  | loadConst => "LOAD_CONST"
  | loadFast => "LOAD_FAST"
  | loadGlobal => "LOAD_GLOBAL"
  | loadName => "LOAD_NAME"
  | loadDeref => "LOAD_DEREF"
  | loadAttr => "LOAD_ATTR"
  | loadMethod => "LOAD_METHOD"
  | binaryOp => "BINARY_OP"
  | binaryAdd => "BINARY_ADD"
  | binarySubtract => "BINARY_SUBTRACT"
  | binaryMultiply => "BINARY_MULTIPLY"
  | binaryTrueDivide => "BINARY_TRUE_DIVIDE"
  | binaryFloorDivide => "BINARY_FLOOR_DIVIDE"
  | binaryModulo => "BINARY_MODULO"
  | binaryPower => "BINARY_POWER"
  | binaryLshift => "BINARY_LSHIFT"
  | binaryRshift => "BINARY_RSHIFT"
  | binaryAnd => "BINARY_AND"
  | binaryOr => "BINARY_OR"
  | binaryXor => "BINARY_XOR"
  | compareOp => "COMPARE_OP"
  | isOp => "IS_OP"
  | containsOp => "CONTAINS_OP"
  | unaryNot => "UNARY_NOT"
  | unaryNegative => "UNARY_NEGATIVE"
  | unaryPositive => "UNARY_POSITIVE"
  | unaryInvert => "UNARY_INVERT"
  | call => "CALL"
  | callFunction => "CALL_FUNCTION"
  | callMethod => "CALL_METHOD"
  | binarySubscr => "BINARY_SUBSCR"
  | buildList => "BUILD_LIST"
  | buildTuple => "BUILD_TUPLE"
  | listExtend => "LIST_EXTEND"
  | copy => "COPY"
  | dupTop => "DUP_TOP"
  | popJumpIfFalse => "POP_JUMP_IF_FALSE"
  | popJumpIfTrue => "POP_JUMP_IF_TRUE"
  | popJumpForwardIfFalse => "POP_JUMP_FORWARD_IF_FALSE"
  | popJumpForwardIfTrue => "POP_JUMP_FORWARD_IF_TRUE"
  | popTop => "POP_TOP"
  | returnValue => "RETURN_VALUE"
  | returnConst => "RETURN_CONST"

def ofName? (s : String) : Option Opcode := all.find? (·.name == s)

theorem ofName?_name (op : Opcode) : ofName? op.name = some op := by
  cases op <;> decide

/-- The operations that do not touch the value stack of a predicate. -/
def isNoop : Opcode → Bool
  | nop | resume | cache | precall | pushNull | extendedArg | copyFreeVars | makeCell => true
  | _ => false

/-- The connective whose short cut a conditional jump takes. -/
def branch? : Opcode → Option BoolOp
  | popJumpIfFalse | popJumpForwardIfFalse => some .and
  | popJumpIfTrue | popJumpForwardIfTrue => some .or
  | _ => none

/-- The binary operator that an operation stands for. -/
def operator? : Opcode → Option BinaryOp
  | binaryAdd => some .add
  | binarySubtract => some .sub
  | binaryMultiply => some .mul
  | binaryTrueDivide => some .div
  | binaryFloorDivide => some .floorDiv
  | binaryModulo => some .mod
  | binaryPower => some .pow
  | binaryLshift => some .shiftLeft
  | binaryRshift => some .shiftRight
  | binaryAnd => some .bitAnd
  | binaryOr => some .bitOr
  | binaryXor => some .bitXor
  | _ => none

end Opcode

end DocQuery
