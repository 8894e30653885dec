import DocQuery.Expr.Basic

/-! # The nodes of an expression

* `Expr.nodes`: an expression and all expressions inside it, each in front of its parts, the parts
  from left to right. The default values of parameters are no parts.
-/

set_option autoImplicit false

namespace DocQuery.Expr

mutual

/-- The expression and all expressions inside it. -/
def nodes : Expr → List Expr
  | lambda params rest named body => lambda params rest named body :: nodes body
  | literal l => [literal l]
  | name id => [name id]
  | attr value label => attr value label :: nodes value
  | binary left op right => binary left op right :: (nodes left ++ nodes right)
  | unary op operand => unary op operand :: nodes operand
  | compare left ops operands => compare left ops operands :: (nodes left ++ nodesOfAll operands)
  | boolean op operands => boolean op operands :: nodesOfAll operands
  | conditional test body otherwise =>
    conditional test body otherwise :: (nodes test ++ nodes body ++ nodes otherwise)
  | call callee args keywords =>
    call callee args keywords :: (nodes callee ++ nodesOfAll args ++ nodesOfKeywords keywords)
  | starred value => starred value :: nodes value
  | subscript value index => subscript value index :: (nodes value ++ nodes index)
  | slice lower upper step =>
    slice lower upper step :: (nodesOfOption lower ++ nodesOfOption upper ++ nodesOfOption step)
  | list items => list items :: nodesOfAll items
  | tuple items => tuple items :: nodesOfAll items
  | listComp element clauses =>
    listComp element clauses :: (nodes element ++ nodesOfClauses clauses)
  | generator element clauses =>
    generator element clauses :: (nodes element ++ nodesOfClauses clauses)
  | display kind => [display kind]
termination_by structural e => e

def nodesOfAll : List Expr → List Expr
  | [] => []
  | e :: es => nodes e ++ nodesOfAll es
termination_by structural es => es

/-- The nodes of an expression that may be missing. -/
def nodesOfOption : Option Expr → List Expr
  | none => []
  | some e => nodes e
termination_by structural e => e

/-- The nodes of the values of keyword arguments. -/
def nodesOfKeywords : List (Keyword Expr) → List Expr
  | [] => []
  | ⟨_, value⟩ :: ks => nodes value ++ nodesOfKeywords ks
termination_by structural ks => ks

def nodesOfClauses : List (Clause Expr) → List Expr
  | [] => []
  | ⟨_, source, conditions⟩ :: cs => nodes source ++ nodesOfAll conditions ++ nodesOfClauses cs
termination_by structural cs => cs

end

end DocQuery.Expr
