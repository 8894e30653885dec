import DocQuery.Proofs.Spelling

/-! # How the phrases of the grammar are put together

All phrases are made of the same few combinators, from tokens and from the inner parsers of a
grammar. What holds of tokens and goes through the combinators holds of all phrases at once.

* `Built`: the parsers that are put together in this way, with what can be told from their shape.
* `Grammar.built_level`, `Grammar.built_lambda`, …: all phrases are.
-/

set_option autoImplicit false

namespace DocQuery

open DocQuery.Parser Token

/-- The characters that count when parentheses are paired: the parentheses, and the quotes around
strings. -/
def Text.marks : List Char := ['(', ')', '\'', '"']

/-- Whether a word is not empty and has no mark in it. -/
def Token.isUnmarked (w : String) : Bool :=
  !w.toList.isEmpty && w.toList.all fun c => !Text.marks.contains c

/-- `Built inner m k P`: the parser `P g` is put together from tokens and from the inner parsers of
`g`, so that it takes at least `m` characters and closes `k` more parentheses than it opens. Only if
`inner` is true, an inner parser may stand at its start. -/
inductive Built : Bool → Nat → Nat → {α : Type} → (Grammar → Parser α) → Prop
  | pure {i : Bool} {α : Type} (a : α) : Built i 0 0 fun _ => Pure.pure a
  | fail {i : Bool} {m k : Nat} {α : Type} : Built i m k fun _ => (Parser.fail : Parser α)
  | name {i : Bool} : Built i 1 0 fun _ => Token.name
  | number {i : Bool} : Built i 1 0 fun _ => Token.number
  | stringPiece {i : Bool} : Built i 1 0 fun _ => Token.stringPiece
  | keyword {i : Bool} (w : String) (hw : isUnmarked w = true) :
      Built i 1 0 fun _ => Token.keyword w
  | operator {i : Bool} (w : String) (others : List Char) (hw : isUnmarked w = true)
      (hothers : others.contains ')' = false) :
      Built i 1 0 fun _ => Token.operator w others
  | expression : Built true 1 0 Grammar.expression
  | orTest : Built true 1 0 Grammar.orTest
  | notTest : Built true 1 0 Grammar.notTest
  | factor : Built true 1 0 Grammar.factor
  /-- That something is taken need not be said. -/
  | any {i : Bool} {m k : Nat} {α : Type} {P : Grammar → Parser α} (h : Built i m k P) :
      Built i 0 k P
  /-- Inner parsers may stand behind something that is taken. -/
  | bind {i : Bool} {k : Nat} {α β : Type} {P : Grammar → Parser α}
      {F : Grammar → α → Parser β} (h : Built i 1 0 P)
      (hf : ∀ a, Built true 0 k fun g => F g a) : Built i 1 k fun g => P g >>= F g
  | after {i : Bool} {m k : Nat} {α β : Type} {P : Grammar → Parser α}
      {F : Grammar → α → Parser β} (h : Built i 0 0 P) (hf : ∀ a, Built i m k fun g => F g a) :
      Built i m k fun g => P g >>= F g
  | opening {i : Bool} {α : Type} {F : Grammar → Unit → Parser α}
      (hf : ∀ u, Built true 0 1 fun g => F g u) : Built i 1 0 fun g => symbol "(" >>= F g
  | closing {i : Bool} {α : Type} {F : Grammar → Unit → Parser α}
      (hf : ∀ u, Built true 0 0 fun g => F g u) : Built i 1 1 fun g => symbol ")" >>= F g
  | orElse {i : Bool} {m k : Nat} {α : Type} {P Q : Grammar → Parser α} (hp : Built i m k P)
      (hq : Built i m k Q) : Built i m k fun g => P g <|> Q g
  | opt {i : Bool} {m : Nat} {α : Type} {P : Grammar → Parser α} (h : Built i m 0 P) :
      Built i 0 0 fun g => Parser.opt (P g)
  /-- What an optional part takes counts where the rest counts on it. -/
  | optBind {i : Bool} {m k : Nat} {α β : Type} {P : Grammar → Parser α}
      {F : Grammar → Option α → Parser β} (h : Built i m 0 P)
      (hsome : ∀ a, Built i 0 k fun g => F g (some a)) (hnone : Built i m k fun g => F g none) :
      Built i m k fun g => Parser.opt (P g) >>= F g
  | many {i : Bool} {α : Type} {P : Grammar → Parser α} (h : Built i 1 0 P) :
      Built i 0 0 fun g => Parser.many (P g)

namespace Built

variable {i : Bool} {α β : Type} {P : Grammar → Parser α} {S : Grammar → Parser β}

theorem symbol (w : String) (hw : isUnmarked w = true) :
    Built i 1 0 fun _ => Token.symbol w :=
  .operator w [] hw rfl

theorem comma : Built i 1 0 fun _ => Token.symbol "," := .symbol "," rfl

theorem many1 (h : ∀ {i}, Built i 1 0 P) : Built i 1 0 fun g => Parser.many1 (P g) :=
  .bind h fun _ => .after (.many h) fun _ => .pure _

theorem sepBy1 (h : Built true 1 0 P) (hsep : Built true 1 0 S) :
    Built true 1 0 fun g => Parser.sepBy1 (P g) (S g) :=
  .bind h fun _ => .after (.many (.bind hsep fun _ => .any h)) fun _ => .pure _

theorem sepBy (h : Built true 1 0 P) (hsep : Built true 1 0 S) :
    Built true 0 0 fun g => Parser.sepBy (P g) (S g) :=
  .after (.opt (sepBy1 h hsep)) fun _ => .pure _

end Built

namespace Grammar

variable {i : Bool}

/-! ## Atoms -/

theorem built_clause : Built i 1 0 clause :=
  .bind (.keyword "for" rfl) fun _ => .after (.any .name) fun _ =>
    .after (.any (.keyword "in" rfl)) fun _ => .after (.any .orTest) fun _ =>
    .after (.many (.bind (.keyword "if" rfl) fun _ => .any .orTest)) fun _ => .pure _

theorem built_clauses : Built i 1 0 clauses := .many1 built_clause

theorem built_commaTail : Built i 0 0 commaTail :=
  .many (.bind .comma fun _ => .any .expression)

/-- Behind clauses, a parenthesis is a generator, and otherwise the items of a tuple go on. -/
theorem parenTail_eq (g : Grammar) (first : Expr) : g.parenTail first = (do
    let cs ← opt g.clauses
    cs.elim
      (do
        let others ← g.commaTail
        let comma ← opt (symbol ",")
        symbol ")"
        return if others.isEmpty && comma.isNone then first else Expr.tuple (first :: others))
      fun cs => do symbol ")"; return Expr.generator first cs) := by
  funext s
  cases hs : g.clauses s with
  | ok cs r =>
    rw [parenTail, hs, bind_ok (opt_ok hs)]
    rfl
  | error place =>
    rw [parenTail, hs, bind_ok (opt_of_fails ⟨place, hs⟩)]
    rfl

theorem bracketTail_eq (g : Grammar) (first : Expr) : g.bracketTail first = (do
    let cs ← opt g.clauses
    cs.elim
      (do
        let others ← g.commaTail
        let _ ← opt (symbol ",")
        symbol "]"
        return Expr.list (first :: others))
      fun cs => do symbol "]"; return Expr.listComp first cs) := by
  funext s
  cases hs : g.clauses s with
  | ok cs r =>
    rw [bracketTail, hs, bind_ok (opt_ok hs)]
    rfl
  | error place =>
    rw [bracketTail, hs, bind_ok (opt_of_fails ⟨place, hs⟩)]
    rfl

theorem built_parenTail (first : Expr) : Built i 0 1 fun g => g.parenTail first := by
  simp only [parenTail_eq]
  refine .optBind (.any built_clauses) (fun _ => .any (.closing fun _ => .pure _)) ?_
  exact .after built_commaTail fun _ => .after (.opt .comma) fun _ =>
    .any (.closing fun _ => .pure _)

theorem built_paren : Built i 1 0 paren :=
  .opening fun _ => .orElse (.any (.closing fun _ => .pure _)) <|
    .after (.any .expression) fun first => built_parenTail first

theorem built_bracketTail (first : Expr) : Built i 0 0 fun g => g.bracketTail first := by
  simp only [bracketTail_eq]
  have hclose : Built i 0 0 fun _ => symbol "]" := .any (.symbol "]" rfl)
  refine .optBind (.any built_clauses) (fun _ => .after hclose fun _ => .pure _) ?_
  exact .after built_commaTail fun _ => .after (.opt .comma) fun _ => .after hclose fun _ => .pure _

theorem built_bracket : Built i 1 0 bracket :=
  .bind (.symbol "[" rfl) fun _ => .orElse (.after (.any (.symbol "]" rfl)) fun _ => .pure _) <|
    .after (.any .expression) fun first => built_bracketTail first

theorem built_entry : Built true 1 0 entry :=
  .bind .expression fun _ =>
    .after (.opt (.bind (.symbol ":" rfl) fun _ => .any .expression)) fun _ => .pure _

theorem built_brace : Built i 1 0 brace :=
  .bind (.symbol "\x7b" rfl) fun _ => .after (.sepBy built_entry .comma) fun _ =>
    .after (.opt .comma) fun _ => .after (.any (.symbol "\x7d" rfl)) fun _ => .pure _

theorem built_stringLiteral : Built i 1 0 fun _ => stringLiteral :=
  .bind (.many1 .stringPiece) fun _ => .pure _

theorem built_atom : Built i 1 0 atom :=
  .orElse built_paren <| .orElse built_bracket <| .orElse built_brace <|
    .orElse (.bind built_stringLiteral fun _ => .pure _) <|
    .orElse (.bind .number fun _ => .pure _) <|
    .orElse (.bind (.keyword "None" rfl) fun _ => .pure _) <|
    .orElse (.bind (.keyword "True" rfl) fun _ => .pure _) <|
    .orElse (.bind (.keyword "False" rfl) fun _ => .pure _) <| .bind .name fun _ => .pure _

/-! ## Trailers -/

theorem built_argument : Built true 1 0 argument :=
  .orElse (.bind (.symbol "**" rfl) fun _ => .after (.any .expression) fun _ => .pure _) <|
    .orElse (.bind (.operator "*" ['*'] rfl rfl) fun _ =>
      .after (.any .expression) fun _ => .pure _) <|
    .orElse (.bind .name fun _ => .after (.any (.operator "=" ['='] rfl rfl)) fun _ =>
      .after (.any .expression) fun _ => .pure _) <|
    .bind .expression fun _ => .after (.opt built_clauses) fun _ => .pure _

theorem built_arguments : Built i 1 0 arguments :=
  .opening fun _ => .after (.sepBy built_argument .comma) fun _ =>
    .after (.opt .comma) fun _ => .any (.closing fun _ => .pure _)

theorem built_sliceItem : Built true 1 0 sliceItem := by
  have hslice : ∀ lower : Option Expr, Built true 0 0 fun g => (do
      let upper ← opt g.expression
      let step ← opt (do symbol ":"; opt g.expression)
      return Expr.slice lower upper step.join : Parser Expr) := fun lower =>
    .after (.opt .expression) fun _ =>
      .after (.opt (.bind (.symbol ":" rfl) fun _ => .opt .expression)) fun _ => .pure _
  refine .optBind .expression (fun e => ?_) ?_
  · exact .optBind (.any (.symbol ":" rfl)) (fun _ => hslice (some e)) (.pure _)
  · exact .optBind (.symbol ":" rfl) (fun _ => hslice none) .fail

theorem built_subscript : Built i 1 0 subscript :=
  .bind (.symbol "[" rfl) fun _ => .after (.any (.sepBy1 built_sliceItem .comma)) fun _ =>
    .after (.opt .comma) fun _ => .after (.any (.symbol "]" rfl)) fun _ => .pure _

theorem built_trailer : Built i 1 0 trailer :=
  .orElse (.bind (.symbol "." rfl) fun _ => .after (.any .name) fun _ => .pure _) <|
    .orElse (.bind built_arguments fun _ => .pure _) <| .bind built_subscript fun _ => .pure _

theorem built_primary : Built i 1 0 primary :=
  .bind built_atom fun _ => .after (.many built_trailer) fun _ => .pure _

/-! ## Operators -/

theorem built_power : Built i 1 0 power :=
  .bind built_primary fun _ =>
    .after (.opt (.bind (.symbol "**" rfl) fun _ => .any .factor)) fun _ => .pure _

theorem built_sign : Built i 1 0 fun _ => sign :=
  .orElse (.bind (.symbol "-" rfl) fun _ => .pure _) <|
    .orElse (.bind (.symbol "+" rfl) fun _ => .pure _) <| .bind (.symbol "~" rfl) fun _ => .pure _

theorem built_signed : Built i 1 0 signed :=
  .orElse (.bind built_sign fun _ => .after (.any .factor) fun _ => .pure _) built_power

theorem built_binaryOp (op : BinaryOp) (others : List Char)
    (hothers : others.contains ')' = false) : Built i 1 0 fun _ => binaryOp op others :=
  .bind (.operator op.symbol others (by cases op <;> rfl) hothers) fun _ => .pure _

section Links

variable {α : Type} {operand : Grammar → Parser Expr} (h : ∀ {i}, Built i 1 0 operand)
include h

/-- An operator with the operand after it. -/
theorem built_link {op : Parser α} (hop : Built i 1 0 fun _ => op) :
    Built i 1 0 fun g => (do let o ← op; let e ← operand g; return (o, e)) :=
  .bind hop fun _ => .after (.any h) fun _ => .pure _

theorem built_leftChain {op : Parser BinaryOp} (hop : ∀ {i}, Built i 1 0 fun _ => op) :
    Built i 1 0 fun g => leftChain (operand g) op :=
  .bind h fun _ => .after (.many (built_link h hop)) fun _ => .pure _

theorem built_boolChain (op : BoolOp) : Built i 1 0 fun g => boolChain op (operand g) :=
  .bind h fun _ =>
    .after (.many (.bind (.keyword op.keyword (by cases op <;> rfl)) fun _ => .any h)) fun _ =>
      .pure _

end Links

theorem built_term : Built i 1 0 term :=
  built_leftChain built_signed <|
    .orElse (built_binaryOp _ _ rfl) <| .orElse (built_binaryOp _ _ rfl) <|
    .orElse (built_binaryOp _ _ rfl) <| .orElse (built_binaryOp _ _ rfl) (built_binaryOp _ _ rfl)

theorem built_arith : Built i 1 0 arith :=
  built_leftChain built_term (.orElse (built_binaryOp _ _ rfl) (built_binaryOp _ _ rfl))

theorem built_shift : Built i 1 0 shift :=
  built_leftChain built_arith (.orElse (built_binaryOp _ _ rfl) (built_binaryOp _ _ rfl))

theorem built_bitAnd : Built i 1 0 bitAnd := built_leftChain built_shift (built_binaryOp _ _ rfl)

theorem built_bitXor : Built i 1 0 bitXor := built_leftChain built_bitAnd (built_binaryOp _ _ rfl)

theorem built_bitOr : Built i 1 0 bitOr := built_leftChain built_bitXor (built_binaryOp _ _ rfl)

theorem built_cmpOp : Built i 1 0 fun _ => cmpOp :=
  .orElse (.bind (.symbol "==" rfl) fun _ => .pure _) <|
    .orElse (.bind (.symbol "!=" rfl) fun _ => .pure _) <|
    .orElse (.bind (.symbol "<=" rfl) fun _ => .pure _) <|
    .orElse (.bind (.symbol ">=" rfl) fun _ => .pure _) <|
    .orElse (.bind (.operator "<" ['<'] rfl rfl) fun _ => .pure _) <|
    .orElse (.bind (.operator ">" ['>'] rfl rfl) fun _ => .pure _) <|
    .orElse (.bind (.keyword "not" rfl) fun _ =>
      .after (.any (.keyword "in" rfl)) fun _ => .pure _) <|
    .orElse (.bind (.keyword "is" rfl) fun _ =>
      .after (.any (.keyword "not" rfl)) fun _ => .pure _) <|
    .orElse (.bind (.keyword "is" rfl) fun _ => .pure _) <|
    .bind (.keyword "in" rfl) fun _ => .pure _

theorem built_comparison : Built i 1 0 comparison :=
  .bind built_bitOr fun _ => .after (.many (built_link built_bitOr built_cmpOp)) fun _ => .pure _

theorem built_negation : Built i 1 0 negation :=
  .orElse (.bind (.keyword "not" rfl) fun _ => .after (.any .notTest) fun _ => .pure _)
    built_comparison

theorem built_conjunction : Built i 1 0 conjunction := built_boolChain built_negation .and

theorem built_disjunction : Built i 1 0 disjunction := built_boolChain built_conjunction .or

theorem built_conditional : Built i 1 0 conditional :=
  .bind built_disjunction fun _ => .after
    (.opt (.bind (.keyword "if" rfl) fun _ => .after (.any built_disjunction) fun _ =>
      .after (.any (.keyword "else" rfl)) fun _ => .after (.any .expression) fun _ => .pure _))
    fun _ => .pure _

/-! ## Anonymous functions -/

theorem built_parameter : Built i 1 0 parameter :=
  .orElse (.bind (.symbol "**" rfl) fun _ => .after (.any .name) fun _ => .pure _) <|
    .orElse (.bind (.operator "*" ['*'] rfl rfl) fun _ => .after (.any .name) fun _ => .pure _) <|
    .bind .name fun _ =>
      .after (.opt (.bind (.operator "=" ['='] rfl rfl) fun _ => .any .expression)) fun _ => .pure _

theorem built_parameters : Built true 0 0 parameters := .sepBy built_parameter .comma

theorem built_lambda : Built i 1 0 lambda :=
  .bind (.keyword "lambda" rfl) fun _ => .after built_parameters fun _ =>
    .after (.any (.symbol ":" rfl)) fun _ => .after (.any .expression) fun _ => .pure _

theorem built_anyExpression : Built i 1 0 anyExpression := .orElse built_lambda built_conditional

/-! ## Levels -/

theorem built_level (L : Level) : Built i 1 0 fun g => L.parser g := by
  cases L with
  | expression => exact built_anyExpression
  | disjunction => exact built_disjunction
  | conjunction => exact built_conjunction
  | negation => exact built_negation
  | comparison => exact built_comparison
  | bitOr => exact built_bitOr
  | bitXor => exact built_bitXor
  | bitAnd => exact built_bitAnd
  | shift => exact built_shift
  | arith => exact built_arith
  | term => exact built_term
  | signed => exact built_signed
  | power => exact built_power
  | primary => exact built_primary
  | atom => exact built_atom

end Grammar

end DocQuery
