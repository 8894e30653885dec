import DocQuery.Expr.Basic
import DocQuery.Json.Basic

/-! # Expression trees as JSON

A node is an object with one member, whose key names the kind of the node.

* `Expr.toJson`: the JSON form of a tree.
-/

set_option autoImplicit false

namespace DocQuery

/-- The name of a binary operator in a tree. -/
def BinaryOp.label : BinaryOp → String
  | add => "Add"
  | sub => "Sub"
  | mul => "Mul"
  | div => "Div"
  | floorDiv => "FloorDiv"
  | mod => "Mod"
  | pow => "Pow"
  | matMul => "MatMul"
  | shiftLeft => "LShift"
  | shiftRight => "RShift"
  | bitOr => "BitOr"
  | bitXor => "BitXor"
  | bitAnd => "BitAnd"

/-- The name of a unary operator in a tree. -/
def UnaryOp.label : UnaryOp → String
  | not => "Not"
  | neg => "Neg"
  | pos => "Pos"
  | invert => "Invert"

/-- The name of a comparison in a tree. -/
def CmpOp.label : CmpOp → String
  | eq => "Eq"
  | notEq => "NotEq"
  | lt => "Lt"
  | ltEq => "LtE"
  | gt => "Gt"
  | gtEq => "GtE"
  | same => "Is"
  | notSame => "IsNot"
  | elemOf => "In"
  | notElemOf => "NotIn"

/-- The name of a connective in a tree. -/
def BoolOp.label : BoolOp → String
  | .and => "And"
  | .or => "Or"

def Literal.toJson : Literal → Json
  | .none => .str "None"
  | .bool b => .obj [("Bool", .bool b)]
  | .int n => .obj [("Int", .int n)]
  | .float x => .obj [("Float", .ofFloat x)]
  | .str s => .obj [("Str", .str s)]

namespace Expr

mutual

def toJson : Expr → Json
  | lambda params rest named body =>
    .obj [("Lambda", .obj [
      ("args", .obj [("params", .arr (paramsToJson params)), ("vararg", .ofText? rest),
        ("kwarg", .ofText? named)]),
      ("body", toJson body)])]
  | literal l => .obj [("Literal", l.toJson)]
  | name id => .obj [("Name", .str id)]
  | attr value label => .obj [("Attribute", .obj [("value", toJson value), ("attr", .str label)])]
  | binary left op right =>
    .obj [("BinOp", .obj [("left", toJson left), ("op", .str op.label), ("right", toJson right)])]
  | unary op operand =>
    .obj [("UnaryOp", .obj [("op", .str op.label), ("operand", toJson operand)])]
  | compare left ops operands =>
    .obj [("Compare", .obj [("left", toJson left), ("ops", .arr (ops.map fun o => .str o.label)),
      ("comparators", .arr (toJsonAll operands))])]
  | boolean op operands =>
    .obj [("BoolOp", .obj [("op", .str op.label), ("values", .arr (toJsonAll operands))])]
  | conditional test body otherwise =>
    .obj [("IfExp", .obj [("test", toJson test), ("body", toJson body),
      ("orelse", toJson otherwise)])]
  | call callee args keywords =>
    .obj [("Call", .obj [("func", toJson callee), ("args", .arr (toJsonAll args)),
      ("keywords", .arr (keywordsToJson keywords))])]
  | starred value => .obj [("Starred", toJson value)]
  | subscript value index =>
    .obj [("Subscript", .obj [("value", toJson value), ("slice", toJson index)])]
  | slice lower upper step =>
    .obj [("Slice", .obj [("lower", toJsonOption lower), ("upper", toJsonOption upper),
      ("step", toJsonOption step)])]
  | list items => .obj [("List", .arr (toJsonAll items))]
  | tuple items => .obj [("Tuple", .arr (toJsonAll items))]
  | listComp element clauses =>
    .obj [("ListComp", .obj [("elt", toJson element),
      ("generators", .arr (clausesToJson clauses))])]
  | generator element clauses =>
    .obj [("GeneratorExp", .obj [("elt", toJson element),
      ("generators", .arr (clausesToJson clauses))])]
  | display kind => .obj [("Opaque", .str kind)]
termination_by structural e => e

def toJsonAll : List Expr → List Json
  | [] => []
  | e :: es => toJson e :: toJsonAll es
termination_by structural es => es

/-- The JSON form of a tree that may be missing. -/
def toJsonOption : Option Expr → Json
  | none => .null
  | some e => toJson e
termination_by structural e => e

def paramsToJson : List (Param Expr) → List Json
  | [] => []
  | ⟨id, default⟩ :: ps =>
    .obj [("name", .str id), ("default", toJsonOption default)] :: paramsToJson ps
termination_by structural ps => ps

def keywordsToJson : List (Keyword Expr) → List Json
  | [] => []
  | ⟨label, value⟩ :: ks =>
    .obj [("arg", .ofText? label), ("value", toJson value)] :: keywordsToJson ks
termination_by structural ks => ks

def clausesToJson : List (Clause Expr) → List Json
  | [] => []
  | ⟨target, source, conditions⟩ :: cs =>
    .obj [("target", .str target), ("iter", toJson source), ("ifs", .arr (toJsonAll conditions))] ::
      clausesToJson cs
termination_by structural cs => cs

end

end Expr

end DocQuery
