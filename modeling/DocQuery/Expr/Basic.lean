import DocQuery.Expr.Operator

/-! # Expression trees

An expression is one line of a small scripting language: literals, names, attribute chains, calls,
subscripts, operators, conditionals, anonymous functions and comprehensions.

* `Literal`, `Expr`: the trees; `Expr.kind` names the kind of a node in diagnostics.
* `Expr.ofOperands?`: a connective over a list of operands, where a single operand stands for
  itself.
* `Expr.chain?`: the parts of a pure attribute chain `root.a.b.c`.
* `Expr.beq`: equality of trees, where numbers are compared as numbers.
-/

set_option autoImplicit false

namespace DocQuery

/-- A literal constant. -/
inductive Literal where
  | none
  | bool (value : Bool)
  | int (value : Int)
  | float (value : Float)
  | str (value : String)
deriving DecidableEq, Repr

namespace Literal

def isNumber : Literal → Bool
  | int _ => true
  | float _ => true
  | _ => false

/-- Equality of literals. Floating-point numbers are equal when they compare equal, so both zeros
are, and a NaN equals nothing. -/
def beq : Literal → Literal → Bool
  | none, none => true
  | bool a, bool b => a == b
  | int a, int b => a == b
  | float a, float b => a == b
  | str a, str b => a == b
  | _, _ => false

end Literal

/-- An argument given by name; without a label it is a mapping that is spread (`**mapping`). -/
structure Keyword (ε : Type) where
  label : Option String
  value : ε
deriving Repr

/-- One clause `for target in source if condition …` of a comprehension. -/
structure Clause (ε : Type) where
  target : String
  source : ε
  conditions : List ε
deriving Repr

/-- A positional parameter of an anonymous function, with its default value if it has one. -/
structure Param (ε : Type) where
  name : String
  default : Option ε
deriving Repr

/-- An expression. -/
inductive Expr where
  /-- An anonymous function; `rest` and `named` are the variadic parameters `*rest`, `**named`. -/
  | lambda (params : List (Param Expr)) (rest named : Option String) (body : Expr)
  | literal (value : Literal)
  | name (id : String)
  | attr (value : Expr) (label : String)
  | binary (left : Expr) (op : BinaryOp) (right : Expr)
  | unary (op : UnaryOp) (operand : Expr)
  /-- A chain of comparisons `left op₁ e₁ op₂ e₂ …`. -/
  | compare (left : Expr) (ops : List CmpOp) (operands : List Expr)
  | boolean (op : BoolOp) (operands : List Expr)
  /-- The conditional `body if test else otherwise`. -/
  | conditional (test body otherwise : Expr)
  | call (callee : Expr) (args : List Expr) (keywords : List (Keyword Expr))
  /-- A sequence that is spread over the arguments of a call (`*value`). -/
  | starred (value : Expr)
  | subscript (value index : Expr)
  | slice (lower upper step : Option Expr)
  | list (items : List Expr)
  | tuple (items : List Expr)
  | listComp (element : Expr) (clauses : List (Clause Expr))
  | generator (element : Expr) (clauses : List (Clause Expr))
  /-- A construct that is recognized but not modelled, known by its kind only. -/
  | display (kind : String)
deriving Repr, Inhabited

namespace Expr

/-- The name of a node's kind, for diagnostics. -/
def kind : Expr → String
  | lambda .. => "lambda"
  | literal _ => "literal"
  | name _ => "name"
  | attr .. => "attribute"
  | binary .. => "binary operation"
  | unary .. => "unary operation"
  | compare .. => "comparison"
  | boolean .. => "boolean operation"
  | conditional .. => "conditional"
  | call .. => "call"
  | starred _ => "starred"
  | subscript .. => "subscript"
  | slice .. => "slice"
  | list _ => "list"
  | tuple _ => "tuple"
  | listComp .. => "list comprehension"
  | generator .. => "generator expression"
  | display _ => "opaque"

/-- A connective over `operands`: a single operand stands for itself, and there is nothing to say
without operands. -/
def ofOperands? (op : BoolOp) : List Expr → Option Expr
  | [] => none
  | [e] => some e
  | operands => some (boolean op operands)

/-- The name, if the expression is one. -/
def asName? : Expr → Option String
  | name id => some id
  | _ => none

/-- The text, if the expression is a string literal. -/
def asString? : Expr → Option String
  | literal (.str s) => some s
  | _ => none

/-- The root and the attributes of a pure attribute chain `root.a.b.c`. -/
def chain? : Expr → Option (String × List String)
  | attr (name root) label => some (root, [label])
  | attr value label => (chain? value).map fun p => (p.1, p.2 ++ [label])
  | _ => none

/-! ## Equality -/

mutual

/-- Equality of trees. -/
def beq : Expr → Expr → Bool
  | lambda ps r n b, lambda ps' r' n' b' => beqParams ps ps' && r == r' && n == n' && beq b b'
  | literal l, literal l' => l.beq l'
  | name s, name s' => s == s'
  | attr v a, attr v' a' => beq v v' && a == a'
  | binary l o r, binary l' o' r' => beq l l' && o == o' && beq r r'
  | unary o e, unary o' e' => o == o' && beq e e'
  | compare l os es, compare l' os' es' => beq l l' && os == os' && beqAll es es'
  | boolean o es, boolean o' es' => o == o' && beqAll es es'
  | conditional t b e, conditional t' b' e' => beq t t' && beq b b' && beq e e'
  | call f as ks, call f' as' ks' => beq f f' && beqAll as as' && beqKeywords ks ks'
  | starred v, starred v' => beq v v'
  | subscript v i, subscript v' i' => beq v v' && beq i i'
  | slice l u s, slice l' u' s' => beqOption l l' && beqOption u u' && beqOption s s'
  | list es, list es' => beqAll es es'
  | tuple es, tuple es' => beqAll es es'
  | listComp e cs, listComp e' cs' => beq e e' && beqClauses cs cs'
  | generator e cs, generator e' cs' => beq e e' && beqClauses cs cs'
  | display k, display k' => k == k'
  | _, _ => false
termination_by structural e => e

def beqAll : List Expr → List Expr → Bool
  | [], [] => true
  | e :: es, e' :: es' => beq e e' && beqAll es es'
  | _, _ => false
termination_by structural es => es

def beqOption : Option Expr → Option Expr → Bool
  | none, none => true
  | some e, some e' => beq e e'
  | _, _ => false
termination_by structural e => e

def beqParams : List (Param Expr) → List (Param Expr) → Bool
  | [], [] => true
  | ⟨n, d⟩ :: ps, ⟨n', d'⟩ :: ps' => n == n' && beqOption d d' && beqParams ps ps'
  | _, _ => false
termination_by structural ps => ps

def beqKeywords : List (Keyword Expr) → List (Keyword Expr) → Bool
  | [], [] => true
  | ⟨l, v⟩ :: ks, ⟨l', v'⟩ :: ks' => l == l' && beq v v' && beqKeywords ks ks'
  | _, _ => false
termination_by structural ks => ks

def beqClauses : List (Clause Expr) → List (Clause Expr) → Bool
  | [], [] => true
  | ⟨t, s, es⟩ :: cs, ⟨t', s', es'⟩ :: cs' =>
    t == t' && beq s s' && beqAll es es' && beqClauses cs cs'
  | _, _ => false
termination_by structural cs => cs

end

instance : BEq Expr := ⟨beq⟩

end Expr

end DocQuery
