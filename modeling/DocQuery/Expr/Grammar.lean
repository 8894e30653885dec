import DocQuery.Expr.Token

/-! # The grammar of expressions

Precedence, loosest first:

* anonymous functions
* `x if c else y`
* `or`
* `and`
* `not`
* `in`, `not in`, `is`, `is not`, `<`, `<=`, `>`, `>=`, `!=`, `==`
* `|`
* `^`
* `&`
* `<<`, `>>`
* `+`, `-`
* `*`, `/`, `//`, `%`, `@`
* `-x`, `+x`, `~x`
* `**`
* `x.attr`, `x[index]`, `x(args)`

Each level is a parser over the parsers of the levels that may occur deeper inside (`Grammar`). A
level only calls them after it has taken a character, so `grammar n` reads every text of fewer than
`n` characters, and `Expr.reader` gives each text as many rounds as it has characters.
-/

set_option autoImplicit false

namespace DocQuery

/-- The parsers that occur inside smaller parts of a text. -/
structure Grammar where
  expression : Parser Expr
  orTest : Parser Expr
  notTest : Parser Expr
  factor : Parser Expr

namespace Grammar

open DocQuery.Parser Token

/-! ## Comprehensions -/

def clause (g : Grammar) : Parser (Clause Expr) := do
  keyword "for"
  let target ← name
  keyword "in"
  let source ← g.orTest
  let conditions ← many (do keyword "if"; g.orTest)
  return ⟨target, source, conditions⟩

def clauses (g : Grammar) : Parser (List (Clause Expr)) := many1 g.clause

/-! ## Atoms -/

/-- Further expressions, each after a comma. -/
def commaTail (g : Grammar) : Parser (List Expr) := many (do symbol ","; g.expression)

/-- The rest of a parenthesis after its first expression: the clauses of a generator, or the other
items of a tuple. -/
def parenTail (g : Grammar) (first : Expr) : Parser Expr := fun s =>
  match g.clauses s with
  | .ok cs rest => (do symbol ")"; return Expr.generator first cs : Parser Expr) rest
  | .error _ =>
    (do
      let others ← g.commaTail
      -- `(e,)` is a tuple, `(e)` is not.
      let comma ← opt (symbol ",")
      symbol ")"
      return if others.isEmpty && comma.isNone then first else Expr.tuple (first :: others)
      : Parser Expr) s

/-- `()`, `(e)`, `(a, b)` or `(e for x in xs)`. -/
def paren (g : Grammar) : Parser Expr := do
  symbol "("
  (do symbol ")"; return Expr.tuple []) <|> (do
    let first ← g.expression
    g.parenTail first)

/-- The rest of a bracket after its first expression. -/
def bracketTail (g : Grammar) (first : Expr) : Parser Expr := fun s =>
  match g.clauses s with
  | .ok cs rest => (do symbol "]"; return Expr.listComp first cs : Parser Expr) rest
  | .error _ =>
    (do
      let others ← g.commaTail
      let _ ← opt (symbol ",")
      symbol "]"
      return Expr.list (first :: others) : Parser Expr) s

/-- `[]`, `[a, b]` or `[e for x in xs]`. -/
def bracket (g : Grammar) : Parser Expr := do
  symbol "["
  (do symbol "]"; return Expr.list []) <|> (do
    let first ← g.expression
    g.bracketTail first)

/-- An entry of a brace display, with its value if it has one. -/
def entry (g : Grammar) : Parser (Expr × Option Expr) := do
  let key ← g.expression
  let value ← opt (do symbol ":"; g.expression)
  return (key, value)

/-- A mapping or a set in braces; only its kind is kept. -/
def brace (g : Grammar) : Parser Expr := do
  symbol "\x7b"
  let entries ← sepBy g.entry (symbol ",")
  let _ ← opt (symbol ",")
  symbol "\x7d"
  return Expr.display (if entries.isEmpty || entries.any (·.2.isSome) then "dict" else "set")

/-- An expression without operators and trailers. -/
def atom (g : Grammar) : Parser Expr :=
  -- Strings come before names: the mark in front of the quotes would be one.
  g.paren <|> g.bracket <|> g.brace <|>
  (do let s ← stringLiteral; return Expr.literal (.str s)) <|>
  (do let l ← number; return Expr.literal l) <|>
  (do keyword "None"; return Expr.literal .none) <|>
  (do keyword "True"; return Expr.literal (.bool true)) <|>
  (do keyword "False"; return Expr.literal (.bool false)) <|>
  (do let id ← name; return Expr.name id)

/-! ## Trailers -/

inductive Argument where
  | positional (value : Expr)
  | keyword (value : Keyword Expr)

/-- What may follow an atom. -/
inductive Trailer where
  | attr (label : String)
  | call (args : List Argument)
  | index (value : Expr)

def Argument.positionals (args : List Argument) : List Expr :=
  args.filterMap fun
    | .positional e => some e
    | .keyword _ => none

def Argument.keywords (args : List Argument) : List (Keyword Expr) :=
  args.filterMap fun
    | .positional _ => none
    | .keyword k => some k

/-- An expression with one more trailer. -/
def Trailer.apply (e : Expr) : Trailer → Expr
  | .attr label => .attr e label
  | .call args => .call e (Argument.positionals args) (Argument.keywords args)
  | .index i => .subscript e i

/-- One argument of a call: `**e`, `*e`, `label=e`, or an expression, which may be the element of a
generator. -/
def argument (g : Grammar) : Parser Argument :=
  (do symbol "**"; let e ← g.expression; return .keyword ⟨none, e⟩) <|>
  (do operator "*" ['*']; let e ← g.expression; return .positional (.starred e)) <|>
  -- Before expressions, of which the label alone would be one.
  (do
    let label ← name
    operator "=" ['=']
    let e ← g.expression
    return .keyword ⟨some label, e⟩) <|>
  (do
    let e ← g.expression
    let cs ← opt g.clauses
    return .positional (match cs with
      | some cs => .generator e cs
      | none => e))

/-- The arguments of a call in parentheses. -/
def arguments (g : Grammar) : Parser (List Argument) := do
  symbol "("
  let args ← sepBy g.argument (symbol ",")
  let _ ← opt (symbol ",")
  symbol ")"
  return args

/-- One index: an expression, or a slice with up to two colons. -/
def sliceItem (g : Grammar) : Parser Expr := do
  let lower ← opt g.expression
  let colon ← opt (symbol ":")
  match lower, colon with
  | some e, none => return e
  | none, none => fail
  | lower, some _ => do
    let upper ← opt g.expression
    let step ← opt (do symbol ":"; opt g.expression)
    return Expr.slice lower upper step.join

/-- An index in brackets; several items, or one item and a comma, are a tuple. -/
def subscript (g : Grammar) : Parser Expr := do
  symbol "["
  let items ← sepBy1 g.sliceItem (symbol ",")
  let comma ← opt (symbol ",")
  symbol "]"
  return match items, comma with
    | [item], none => item
    | items, _ => Expr.tuple items

def trailer (g : Grammar) : Parser Trailer :=
  (do symbol "."; let label ← name; return .attr label) <|>
  (do let args ← g.arguments; return .call args) <|>
  (do let i ← g.subscript; return .index i)

/-- An atom with its trailers. -/
def primary (g : Grammar) : Parser Expr := do
  let e ← g.atom
  let ts ← many g.trailer
  return ts.foldl Trailer.apply e

/-! ## Operators -/

/-- A power; the exponent may carry signs. -/
def power (g : Grammar) : Parser Expr := do
  let base ← g.primary
  let exponent ← opt (do symbol "**"; g.factor)
  return match exponent with
    | some e => .binary base .pow e
    | none => base

/-- The sign in front of an operand. -/
def sign : Parser UnaryOp :=
  (do symbol "-"; return .neg) <|> (do symbol "+"; return .pos) <|>
  (do symbol "~"; return .invert)

/-- A power with the signs in front of it. -/
def signed (g : Grammar) : Parser Expr :=
  (do let op ← sign; let e ← g.factor; return .unary op e) <|> g.power

/-- Operands with operators between them, grouped from the left. -/
def leftChain (operand : Parser Expr) (op : Parser BinaryOp) : Parser Expr := do
  let first ← operand
  let links ← many (do let o ← op; let e ← operand; return (o, e))
  return links.foldl (fun left (o, right) => .binary left o right) first

/-- An operator that is not the start of a longer symbol. -/
def binaryOp (op : BinaryOp) (others : List Char) : Parser BinaryOp := do
  operator op.symbol others
  return op

/-- Products. -/
def term (g : Grammar) : Parser Expr :=
  leftChain g.signed (binaryOp .floorDiv ['='] <|> binaryOp .mul ['*', '='] <|>
    binaryOp .div ['='] <|> binaryOp .mod ['='] <|> binaryOp .matMul ['='])

/-- Sums. -/
def arith (g : Grammar) : Parser Expr :=
  leftChain g.term (binaryOp .add ['='] <|> binaryOp .sub ['='])

def shift (g : Grammar) : Parser Expr :=
  leftChain g.arith (binaryOp .shiftLeft ['='] <|> binaryOp .shiftRight ['='])

def bitAnd (g : Grammar) : Parser Expr := leftChain g.shift (binaryOp .bitAnd ['='])

def bitXor (g : Grammar) : Parser Expr := leftChain g.bitAnd (binaryOp .bitXor ['='])

def bitOr (g : Grammar) : Parser Expr := leftChain g.bitXor (binaryOp .bitOr ['='])

/-- A comparison operator; those of two words are tried before their first word alone. -/
def cmpOp : Parser CmpOp :=
  (do symbol "=="; return .eq) <|>
  (do symbol "!="; return .notEq) <|>
  (do symbol "<="; return .ltEq) <|>
  (do symbol ">="; return .gtEq) <|>
  (do operator "<" ['<']; return .lt) <|>
  (do operator ">" ['>']; return .gt) <|>
  (do keyword "not"; keyword "in"; return .notElemOf) <|>
  (do keyword "is"; keyword "not"; return .notSame) <|>
  (do keyword "is"; return .same) <|>
  (do keyword "in"; return .elemOf)

def comparison (g : Grammar) : Parser Expr := do
  let left ← g.bitOr
  let links ← many (do let o ← cmpOp; let e ← g.bitOr; return (o, e))
  return if links.isEmpty then left else .compare left (links.map (·.1)) (links.map (·.2))

/-- A comparison with the negations in front of it. -/
def negation (g : Grammar) : Parser Expr :=
  (do keyword "not"; let e ← g.notTest; return .unary .not e) <|> g.comparison

/-- Operands joined by one connective; a single operand stands for itself. -/
def boolChain (op : BoolOp) (operand : Parser Expr) : Parser Expr := do
  let first ← operand
  let others ← many (do keyword op.keyword; operand)
  return if others.isEmpty then first else .boolean op (first :: others)

def conjunction (g : Grammar) : Parser Expr := boolChain .and g.negation

def disjunction (g : Grammar) : Parser Expr := boolChain .or g.conjunction

/-- A disjunction, or a conditional. -/
def conditional (g : Grammar) : Parser Expr := do
  let body ← g.disjunction
  let tail ← opt (do
    keyword "if"
    let test ← g.disjunction
    keyword "else"
    let otherwise ← g.expression
    return (test, otherwise))
  return match tail with
    | some (test, otherwise) => .conditional test body otherwise
    | none => body

/-! ## Anonymous functions -/

/-- An item of a parameter list. -/
inductive Parameter where
  | plain (param : Param Expr)
  | rest (id : String)
  | named (id : String)

/-- An item of a parameter list: `**id`, `*id`, `id` or `id=default`. -/
def parameter (g : Grammar) : Parser Parameter :=
  (do symbol "**"; let id ← name; return .named id) <|>
  (do operator "*" ['*']; let id ← name; return .rest id) <|>
  (do
    let id ← name
    let default ← opt (do operator "=" ['=']; g.expression)
    return .plain ⟨id, default⟩)

/-- The items of a parameter list, of which there may be none. -/
def parameters (g : Grammar) : Parser (List Parameter) := sepBy g.parameter (symbol ",")

def Parameter.plains (ps : List Parameter) : List (Param Expr) :=
  ps.filterMap fun
    | .plain p => some p
    | _ => none

/-- The last parameter of the form `*id`. -/
def Parameter.rest? (ps : List Parameter) : Option String :=
  (ps.filterMap fun
    | .rest id => some id
    | _ => none).getLast?

/-- The last parameter of the form `**id`. -/
def Parameter.named? (ps : List Parameter) : Option String :=
  (ps.filterMap fun
    | .named id => some id
    | _ => none).getLast?

def lambda (g : Grammar) : Parser Expr := do
  keyword "lambda"
  let ps ← g.parameters
  symbol ":"
  let body ← g.expression
  return .lambda (Parameter.plains ps) (Parameter.rest? ps) (Parameter.named? ps) body

def anyExpression (g : Grammar) : Parser Expr := g.lambda <|> g.conditional

/-! ## Rounds -/

/-- One more round: the parsers whose smaller parts are read by `g`. -/
def next (g : Grammar) : Grammar where
  expression := g.anyExpression
  orTest := g.disjunction
  notTest := g.negation
  factor := g.signed

/-- The parsers that read nothing. -/
def empty : Grammar := ⟨fail, fail, fail, fail⟩

end Grammar

/-- The parsers after `n` rounds. -/
def grammar : Nat → Grammar
  | 0 => .empty
  | n + 1 => (grammar n).next

/-- Reads an expression at the start of a text. -/
def Expr.reader : Parser Expr := fun s => (grammar (s.length + 1)).expression s

end DocQuery
