import DocQuery.Proofs.Tokens
import DocQuery.Expr.Grammar
import DocQuery.Expr.Render

/-! # Spellings of expressions

How an expression may be written so that it is read back, with one space around operators and after
commas. Parentheses are needed only where the levels of precedence ask for them, and are allowed
everywhere.

* `Level`: the levels of precedence; `Level.parser` is the parser of a level.
* `Written`: an expression with its text. Parameters, arguments, clauses and indices are polymorphic
  in their expressions, so one with texts beside its expressions is the same structure over `Written`.
* `Spelling`: which texts write an expression at a level.
-/

set_option autoImplicit false

namespace DocQuery

open Token

/-! ## Levels -/

/-- The levels of precedence, the loosest first. -/
inductive Level where
  | expression | disjunction | conjunction | negation | comparison
  | bitOr | bitXor | bitAnd | shift | arith | term | signed | power | primary | atom
deriving DecidableEq, Repr

namespace Level

/-- The number of a level, which is greater for a tighter level. -/
def rank : Level → Nat
  | expression => 1
  | disjunction => 2
  | conjunction => 3
  | negation => 4
  | comparison => 5
  | bitOr => 6
  | bitXor => 7
  | bitAnd => 8
  | shift => 9
  | arith => 10
  | term => 11
  | signed => 12
  | power => 13
  | primary => 14
  | atom => 15

/-- The next level; there is none after the last. -/
def tighter : Level → Level
  | expression => disjunction
  | disjunction => conjunction
  | conjunction => negation
  | negation => comparison
  | comparison => bitOr
  | bitOr => bitXor
  | bitXor => bitAnd
  | bitAnd => shift
  | shift => arith
  | arith => term
  | term => signed
  | signed => power
  | power => primary
  | primary => atom
  | atom => atom

def parser (g : Grammar) : Level → Parser Expr
  | expression => g.anyExpression
  | disjunction => g.disjunction
  | conjunction => g.conjunction
  | negation => g.negation
  | comparison => g.comparison
  | bitOr => g.bitOr
  | bitXor => g.bitXor
  | bitAnd => g.bitAnd
  | shift => g.shift
  | arith => g.arith
  | term => g.term
  | signed => g.signed
  | power => g.power
  | primary => g.primary
  | atom => g.atom

end Level

def BinaryOp.level : BinaryOp → Level
  | bitOr => .bitOr
  | bitXor => .bitXor
  | bitAnd => .bitAnd
  | shiftLeft | shiftRight => .shift
  | add | sub => .arith
  | mul | div | floorDiv | mod | matMul => .term
  | pow => .power

def BoolOp.level : BoolOp → Level
  | and => .conjunction
  | or => .disjunction

/-! ## Texts of parts -/

/-- An expression with its text. -/
abbrev Written : Type := Expr × List Char

/-- A word between spaces. -/
def spaced (w : String) : List Char := ' ' :: (w.toList ++ [' '])

theorem spaced_append (w : String) (t : List Char) :
    spaced w ++ t = ' ' :: (w.toList ++ ' ' :: t) := by
  simp [spaced]

/-- Texts with a comma and a space in front of each. -/
def withCommas (ts : List (List Char)) : List Char := ts.flatMap fun t => ',' :: ' ' :: t

/-- Texts separated by a comma and a space. -/
def commas : List (List Char) → List Char
  | [] => []
  | t :: ts => t ++ withCommas ts

/-- A comma after a text that stands alone. -/
def loneComma {α : Type} (others : List α) : List Char := if others.isEmpty then [','] else []

def Param.map {α β : Type} (f : α → β) (p : Param α) : Param β := ⟨p.name, p.default.map f⟩

/-- A positional parameter as it is written. -/
def Param.text (p : Param (List Char)) : List Char :=
  match p.default with
  | none => p.name.toList
  | some t => p.name.toList ++ '=' :: t

/-- The parameters of an anonymous function as they are written. -/
def parameterTexts (params : List (Param (List Char))) (rest named : Option String) :
    List (List Char) :=
  params.map Param.text ++ (rest.map fun id => '*' :: id.toList).toList ++
    (named.map fun id => '*' :: '*' :: id.toList).toList

/-- What stands between the word `lambda` and the colon. -/
def parameterText (texts : List (List Char)) : List Char :=
  match texts with
  | [] => []
  | ts => ' ' :: commas ts

def Keyword.map {α β : Type} (f : α → β) (k : Keyword α) : Keyword β := ⟨k.label, f k.value⟩

/-- A keyword argument as it is written. -/
def Keyword.text (k : Keyword (List Char)) : List Char :=
  match k.label with
  | none => '*' :: '*' :: k.value
  | some id => id.toList ++ '=' :: k.value

/-- A positional argument, which may be spread. -/
structure Positional (ε : Type) where
  spread : Bool
  value : ε

namespace Positional

def map {α β : Type} (f : α → β) (a : Positional α) : Positional β := ⟨a.spread, f a.value⟩

def expr (a : Positional Expr) : Expr := if a.spread then .starred a.value else a.value

/-- A positional argument as it is written. -/
def text (a : Positional (List Char)) : List Char := if a.spread then '*' :: a.value else a.value

end Positional

/-- A clause of a comprehension over other expressions. -/
def Clause.map {α β : Type} (f : α → β) (c : Clause α) : Clause β :=
  ⟨c.target, f c.source, c.conditions.map f⟩

/-- A clause of a comprehension as it is written, after a space. -/
def Clause.text (c : Clause (List Char)) : List Char :=
  spaced "for" ++ (c.target.toList ++ (spaced "in" ++ (c.source ++
    c.conditions.flatMap fun t => spaced "if" ++ t)))

/-- An argument as it is passed. One with clauses is a generator, which needs no parentheses of its
own there. -/
structure Passed (ε : Type) extends Positional ε where
  clauses : List (Clause ε)

namespace Passed

def map {α β : Type} (f : α → β) (a : Passed α) : Passed β :=
  ⟨a.toPositional.map f, a.clauses.map (·.map f)⟩

def expr (a : Passed Expr) : Expr :=
  if a.clauses.isEmpty then a.toPositional.expr else .generator a.value a.clauses

def text (a : Passed (List Char)) : List Char :=
  a.toPositional.text ++ a.clauses.flatMap Clause.text

/-- A generator is not spread, and its targets are names. -/
structure Proper {ε : Type} (a : Passed ε) : Prop where
  spread : a.spread = true → a.clauses = []
  targets : ∀ c ∈ a.clauses, IsName c.target

end Passed

/-- One index: an expression or a slice. -/
inductive Index (ε : Type) where
  | single (value : ε)
  | slice (lower upper step : Option ε)

namespace Index

def map {α β : Type} (f : α → β) : Index α → Index β
  | single e => single (f e)
  | slice lower upper step => slice (lower.map f) (upper.map f) (step.map f)

def parts {ε : Type} : Index ε → List ε
  | single e => [e]
  | slice lower upper step => lower.toList ++ upper.toList ++ step.toList

def expr : Index Expr → Expr
  | single e => e
  | slice lower upper step => .slice lower upper step

def text : Index (List Char) → List Char
  | single t => t
  | slice lower upper step =>
    lower.getD [] ++ ':' :: (upper.getD [] ++ (match step with
      | none => []
      | some t => ':' :: t))

end Index

/-! ## Spellings -/

/-- The texts that write an expression at a level. -/
inductive Spelling : Level → Expr → List Char → Prop
  /-- What is written at the next level can stand at this one. -/
  | up {L : Level} {e : Expr} {s : List Char} (h : Spelling L.tighter e s) : Spelling L e s
  | lambda {e : Expr} {s : List Char} (params : List (Param Written)) (rest named : Option String)
      (names : ∀ p ∈ params, IsName p.name) (restName : ∀ id ∈ rest, IsName id)
      (namedName : ∀ id ∈ named, IsName id)
      (defaults : ∀ p ∈ params, ∀ w ∈ p.default, Spelling .expression w.1 w.2)
      (body : Spelling .expression e s) :
      Spelling .expression (.lambda (params.map (·.map Prod.fst)) rest named e)
        ("lambda".toList ++
          (parameterText (parameterTexts (params.map (·.map Prod.snd)) rest named) ++
            ':' :: ' ' :: s))
  | conditional {body test otherwise : Expr} {s t u : List Char}
      (hbody : Spelling .disjunction body s) (htest : Spelling .disjunction test t)
      (hotherwise : Spelling .expression otherwise u) :
      Spelling .expression (.conditional test body otherwise)
        (s ++ (spaced "if" ++ (t ++ (spaced "else" ++ u))))
  | boolean (op : BoolOp) (first second : Written) (others : List Written)
      (operands : ∀ w ∈ first :: second :: others, Spelling op.level.tighter w.1 w.2) :
      Spelling op.level (.boolean op ((first :: second :: others).map Prod.fst))
        (first.2 ++ (second :: others).flatMap fun w => spaced op.keyword ++ w.2)
  | negation {e : Expr} {s : List Char} (h : Spelling .negation e s) :
      Spelling .negation (.unary .not e) ("not".toList ++ ' ' :: s)
  | compare {left : Expr} {s : List Char} (hleft : Spelling .bitOr left s)
      (links : List (CmpOp × Written)) (some : links ≠ [])
      (operands : ∀ l ∈ links, Spelling .bitOr l.2.1 l.2.2) :
      Spelling .comparison (.compare left (links.map (·.1)) (links.map (·.2.1)))
        (s ++ links.flatMap fun l => spaced l.1.symbol ++ l.2.2)
  | binary {left right : Expr} {s t : List Char} (op : BinaryOp) (hop : op ≠ .pow)
      (hleft : Spelling op.level left s) (hright : Spelling op.level.tighter right t) :
      Spelling op.level (.binary left op right) (s ++ (spaced op.symbol ++ t))
  | sign {e : Expr} {s : List Char} (op : UnaryOp) (hop : op ≠ .not) (h : Spelling .signed e s) :
      Spelling .signed (.unary op e) (op.mark.toList ++ s)
  | power {base exponent : Expr} {s t : List Char} (hbase : Spelling .primary base s)
      (hexponent : Spelling .signed exponent t) :
      Spelling .power (.binary base .pow exponent) (s ++ (spaced "**" ++ t))
  /-- In front of a point, digits alone would be read as a part of a number. -/
  | attr {value : Expr} {s : List Char} {label : String} (h : Spelling .primary value s)
      (hlabel : IsName label) (hs : ∃ c ∈ s, c.isDigit = false) :
      Spelling .primary (.attr value label) (s ++ '.' :: label.toList)
  /-- A gap in front of the point keeps it from the digits. -/
  | gapAttr {value : Expr} {s : List Char} {label : String} (h : Spelling .primary value s)
      (hlabel : IsName label) : Spelling .primary (.attr value label) (s ++ ' ' :: '.' :: label.toList)
  | call {callee : Expr} {s : List Char} (h : Spelling .primary callee s)
      (args : List (Passed Written)) (keywords : List (Keyword Written))
      (labels : ∀ k ∈ keywords, ∀ id ∈ k.label, IsName id) (proper : ∀ a ∈ args, a.Proper)
      (hargs : ∀ a ∈ args, Spelling .expression a.value.1 a.value.2)
      (sources : ∀ a ∈ args, ∀ c ∈ a.clauses, Spelling .disjunction c.source.1 c.source.2)
      (conditions : ∀ a ∈ args, ∀ c ∈ a.clauses, ∀ w ∈ c.conditions,
        Spelling .disjunction w.1 w.2)
      (hkeywords : ∀ k ∈ keywords, Spelling .expression k.value.1 k.value.2) :
      Spelling .primary
        (.call callee (args.map fun a => (a.map Prod.fst).expr) (keywords.map (·.map Prod.fst)))
        (s ++ '(' :: (commas (args.map (fun a => (a.map Prod.snd).text) ++
          keywords.map fun k => (k.map Prod.snd).text) ++ [')']))
  | subscript {value : Expr} {s : List Char} (h : Spelling .primary value s) (i : Index Written)
      (parts : ∀ w ∈ i.parts, Spelling .expression w.1 w.2) :
      Spelling .primary (.subscript value (i.map Prod.fst).expr)
        (s ++ '[' :: ((i.map Prod.snd).text ++ [']']))
  | subscripts {value : Expr} {s : List Char} (h : Spelling .primary value s)
      (first : Index Written) (others : List (Index Written))
      (parts : ∀ i ∈ first :: others, ∀ w ∈ i.parts, Spelling .expression w.1 w.2) :
      Spelling .primary
        (.subscript value (.tuple ((first :: others).map fun i => (i.map Prod.fst).expr)))
        (s ++ '[' :: (commas ((first :: others).map fun i => (i.map Prod.snd).text) ++
          (loneComma others ++ [']'])))
  | paren {e : Expr} {s : List Char} (h : Spelling .expression e s) :
      Spelling .atom e ('(' :: (s ++ [')']))
  | unit : Spelling .atom (.tuple []) ['(', ')']
  | tuple (first : Written) (others : List Written)
      (items : ∀ w ∈ first :: others, Spelling .expression w.1 w.2) :
      Spelling .atom (.tuple ((first :: others).map Prod.fst))
        ('(' :: (commas ((first :: others).map Prod.snd) ++ (loneComma others ++ [')'])))
  | list (items : List Written) (h : ∀ w ∈ items, Spelling .expression w.1 w.2) :
      Spelling .atom (.list (items.map Prod.fst)) ('[' :: (commas (items.map Prod.snd) ++ [']']))
  | listComp {e : Expr} {s : List Char} (h : Spelling .expression e s)
      (clauses : List (Clause Written)) (some : clauses ≠ [])
      (targets : ∀ c ∈ clauses, IsName c.target)
      (sources : ∀ c ∈ clauses, Spelling .disjunction c.source.1 c.source.2)
      (conditions : ∀ c ∈ clauses, ∀ w ∈ c.conditions, Spelling .disjunction w.1 w.2) :
      Spelling .atom (.listComp e (clauses.map (·.map Prod.fst)))
        ('[' :: (s ++ (clauses.flatMap (fun c => (c.map Prod.snd).text) ++ [']'])))
  | generator {e : Expr} {s : List Char} (h : Spelling .expression e s)
      (clauses : List (Clause Written)) (some : clauses ≠ [])
      (targets : ∀ c ∈ clauses, IsName c.target)
      (sources : ∀ c ∈ clauses, Spelling .disjunction c.source.1 c.source.2)
      (conditions : ∀ c ∈ clauses, ∀ w ∈ c.conditions, Spelling .disjunction w.1 w.2) :
      Spelling .atom (.generator e (clauses.map (·.map Prod.fst)))
        ('(' :: (s ++ (clauses.flatMap (fun c => (c.map Prod.snd).text) ++ [')'])))
  | none : Spelling .atom (.literal .none) "None".toList
  | bool (b : Bool) : Spelling .atom (.literal (.bool b)) (Literal.bool b).render.toList
  | int (n : Nat) (h : n < Width.signed64) :
      Spelling .atom (.literal (.int n)) (Nat.toDigits 10 n)
  | str (s : String) : Spelling .atom (.literal (.str s)) (Text.quoted s).toList
  | name {id : String} (h : IsName id) : Spelling .atom (.name id) id.toList

end DocQuery
