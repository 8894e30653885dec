/-! # Operators of expressions

The operators of the expression language and their spellings.

* `BinaryOp`, `UnaryOp`, `CmpOp`, `BoolOp`: the operators.
* `symbol`, `keyword`: how an operator is written; `ofSymbol?` reads a spelling back.
* `BinaryOp.ofSymbol?_symbol`, `CmpOp.ofSymbol?_symbol`: spellings identify operators.
-/

set_option autoImplicit false

namespace DocQuery

/-- Arithmetic and bitwise operators with two operands. -/
inductive BinaryOp where
  | add | sub | mul | div | floorDiv | mod | pow | matMul
  | shiftLeft | shiftRight | bitOr | bitXor | bitAnd
deriving DecidableEq, Repr

namespace BinaryOp

def all : List BinaryOp :=
  [add, sub, mul, div, floorDiv, mod, pow, matMul, shiftLeft, shiftRight, bitOr, bitXor, bitAnd]

def symbol : BinaryOp → String
  | add => "+"
  | sub => "-"
  | mul => "*"
  | div => "/"
  | floorDiv => "//"
  | mod => "%"
  | pow => "**"
  | matMul => "@"
  | shiftLeft => "<<"
  | shiftRight => ">>"
  | bitOr => "|"
  | bitXor => "^"
  | bitAnd => "&"

def ofSymbol? (s : String) : Option BinaryOp := all.find? (·.symbol == s)

theorem ofSymbol?_symbol (op : BinaryOp) : ofSymbol? op.symbol = some op := by
  cases op <;> decide

end BinaryOp

inductive UnaryOp where
  | not | neg | pos | invert
deriving DecidableEq, Repr

/-- The ten comparisons. -/
inductive CmpOp where
  | eq | notEq | lt | ltEq | gt | gtEq | same | notSame | elemOf | notElemOf
deriving DecidableEq, Repr

namespace CmpOp

def all : List CmpOp :=
  [eq, notEq, lt, ltEq, gt, gtEq, same, notSame, elemOf, notElemOf]

def symbol : CmpOp → String
  | eq => "=="
  | notEq => "!="
  | lt => "<"
  | ltEq => "<="
  | gt => ">"
  | gtEq => ">="
  | same => "is"
  | notSame => "is not"
  | elemOf => "in"
  | notElemOf => "not in"

def ofSymbol? (s : String) : Option CmpOp := all.find? (·.symbol == s)

theorem ofSymbol?_symbol (op : CmpOp) : ofSymbol? op.symbol = some op := by
  cases op <;> decide

end CmpOp

/-- The two connectives, which stop at the first operand that decides them. -/
inductive BoolOp where
  | and | or
deriving DecidableEq, Repr

def BoolOp.keyword : BoolOp → String
  | and => "and"
  | or => "or"

end DocQuery
