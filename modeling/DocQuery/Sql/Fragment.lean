import DocQuery.Pattern.Comprehension
import DocQuery.Pattern.Membership
import DocQuery.Scope.Basic
import DocQuery.Sql.Path
import DocQuery.Data.Width

/-! # SQL fragments

An expression becomes a fragment of an SQL statement over the JSON documents of a base table. Every
part of it has a value first, which becomes text only where text is needed: a chain of attributes is
one field path, and a membership test that the statement guarantees vanishes from a conjunction.

* `Sql.Value`: the value of an expression.
* `Sql.Context`: the base table and what names stand for.
* `Sql.Context.eval`: the value of an expression; `compile`, `predicate` and `fieldPath` read it as
  text, as a condition and as a path.
-/

set_option autoImplicit false

namespace DocQuery.Sql

/-- The value of an expression. -/
inductive Value where
  /-- Finished SQL. -/
  | text (sql : String)
  | path (p : FieldPath)
  /-- A value of the domain. -/
  | bound (value : DomainValue)
  | table (name : String)
  /-- The items of a list or a tuple, in SQL. -/
  | sequence (items : List String)
  /-- A condition that the statement guarantees. -/
  | satisfied
deriving Repr

/-- Where an expression stands. -/
structure Context where
  scope : Scope
  base : String
  /-- Whether the document of the base table is named with its table. -/
  qualify : Bool
  /-- The membership test that the statement guarantees. -/
  guaranteed : Option Membership

def comparison : CmpOp → String
  | .eq => "="
  | .notEq => "!="
  | .lt => "<"
  | .ltEq => "<="
  | .gt => ">"
  | .gtEq => ">="
  | .same => "IS"
  | .notSame => "IS NOT"
  | .elemOf => "IN"
  | .notElemOf => "NOT IN"

def connective : BoolOp → String
  | .and => "AND"
  | .or => "OR"

/-- What stands in front of a negated operand. -/
def sign : UnaryOp → String
  | .not => "NOT "
  | .neg => "-"
  | .pos => "+"
  | .invert => "~"

/-- Several conditions in one. -/
def connected (op : BoolOp) : List String → Value
  | [] => .satisfied
  | [part] => .text part
  | parts => .text ("(" ++ (" " ++ connective op ++ " ").intercalate parts ++ ")")

/-- The links of a comparison chain in one. -/
def chained : List String → String
  | [link] => link
  | links => "(" ++ " AND ".intercalate links ++ ")"

/-- The SQL for a binary operation; there is none for a product of matrices. -/
def arithmetic? (op : BinaryOp) (l r : String) : Option String :=
  match op with
  | .pow => some ("POW(" ++ l ++ ", " ++ r ++ ")")
  | .floorDiv => some ("CAST((" ++ l ++ ") / (" ++ r ++ ") AS INTEGER)")
  | .bitXor => some ("((" ++ l ++ " | " ++ r ++ ") - (" ++ l ++ " & " ++ r ++ "))")
  | .matMul => none
  | op => some ("(" ++ l ++ " " ++ op.symbol ++ " " ++ r ++ ")")

/-- The SQL for the question whether some element of an array meets the conditions. -/
def existence (array : FieldPath) (target : String) (conditions : List String) : String :=
  "EXISTS (SELECT 1 FROM " ++ array.expansion target ++
    (match connected .and conditions with
      | .text condition => " WHERE " ++ condition
      | _ => "") ++ ")"

/-- The opposite of an index, among the integers of 64 bits with a sign. -/
def oppositeIndex (n : Int) : Int := if n = -Width.signed64 then n else -n

/-- The step that an index stands for. -/
def segment? : Expr → Option Segment
  | .literal (.int n) => some (.index n)
  | .unary .neg (.literal (.int n)) => some (.index (oppositeIndex n))
  | .literal (.str key) => some (.field key)
  | _ => none

def numberSql : Expr → String
  | .literal l => l.sql
  | _ => ""

/-- The comparison, if it is a single test whether a value is in a list. -/
def membershipOp? : List CmpOp → Option CmpOp
  | [.elemOf] => some .elemOf
  | [.notElemOf] => some .notElemOf
  | _ => none

namespace Context

/-- The context of a base table whose document needs no table name. -/
def of (base : String) (env : Environment) (tables : Tables) : Context :=
  ⟨Scope.of env tables, base, false, none⟩

/-- The context in which documents are named with their tables, or not. -/
def qualified (c : Context) (qualify : Bool) : Context := { c with qualify }

/-- The context inside an iteration. -/
def iterating (c : Context) (target : Option String) : Context :=
  { c with scope := { c.scope with iteration := target } }

/-- The context in which a membership test is guaranteed. -/
def guaranteeing (c : Context) (m : Option Membership) : Context := { c with guaranteed := m }

/-- The context of the conditions on the elements of an array. -/
def within (c : Context) (target : String) : Context :=
  (c.iterating (some target)).guaranteeing none

/-- The document of a table. Only that of the base table can go without the name of its table. -/
def rootOf (c : Context) (table : String) : Root := .table table (c.qualify || table != c.base)

/-- The SQL for the document of the base table. -/
def document (c : Context) : String := (Root.table c.base c.qualify).document

/-- Whether an expression is the membership test that is guaranteed. -/
def isGuaranteed (c : Context) (e : Expr) : Bool := c.guaranteed.any (·.isTest e)

def named (c : Context) (id : String) : Value :=
  match c.scope.resolve id with
  | .element => .path (.ofRoot (.element id))
  | .bound value => .bound value
  | .table => .table id
  | .unbound => .text id

/-- The SQL for the value of the expression `e`. -/
def sqlOf (c : Context) (e : Expr) : Value → Except Error String
  | .text sql => .ok sql
  | .path p => .ok p.field
  | .bound (.constant l) => .ok l.sql
  | .bound (.holder name _) => .error (.mismatch e.render (.classAsValue name))
  | .table name => .ok (c.rootOf name).document
  | .sequence items => .ok ("(" ++ Sql.sequence items ++ ")")
  | .satisfied => .ok "TRUE"

/-- The condition that the value of `e` is; a condition that is satisfied is none. -/
def conditionOf (c : Context) (e : Expr) : Value → Except Error (Option String)
  | .satisfied => .ok none
  | v => some <$> c.sqlOf e v

/-- The path that the value of `e` is. -/
def pathOf (e : Expr) : Value → Except Error FieldPath
  | .path p => .ok p
  | _ => .error (.mismatch e.render .notPath)

/-- The value of the attribute `label` of a value; `whole` is the expression with the attribute. -/
def attributeOf (c : Context) (whole : Expr) (label : String) : Value → Except Error Value
  | .table name => .ok (.path ((FieldPath.ofRoot (c.rootOf name)).push (.field label)))
  | .path p => .ok (.path (p.push (.field label)))
  | .bound value =>
    match value.member? label with
    | some v => .ok (.bound v)
    | none => .error (.mismatch whole.render (.noAttribute label))
  | .text sql => .ok (.text (sql ++ "." ++ label))
  | .sequence _ => .error (.mismatch whole.render .attributeOfValue)
  | .satisfied => .error (.mismatch whole.render .attributeOfValue)

/-- The value at an index of a value; `whole` is the expression with the index. -/
def itemOf (whole index : Expr) : Value → Except Error Value
  | .path p =>
    match segment? index with
    | some s => .ok (.path (p.push s))
    | none => .error (.mismatch whole.render .indexKind)
  | _ => .error (.mismatch whole.render .indexOfValue)

/-- The value of a unary operation on a value. -/
def signedOf (c : Context) (op : UnaryOp) (operand : Expr) (v : Value) : Except Error Value :=
  match v with
  | .satisfied => .error (.unsupported (Expr.unary op operand).render .negatedMembership)
  | v => do return .text (sign op ++ "(" ++ (← c.sqlOf operand v) ++ ")")

/-- The SQL for the test whether a value is in a list. -/
def listTest (l : String) (op : CmpOp) (items : List String) : Value :=
  .text ("(" ++ l ++ " " ++ comparison op ++ " (" ++ Sql.sequence items ++ "))")

/-- The SQL for the test whether a text matches a pattern. -/
def patternTest (value : String) (negated : Bool) (pattern : String) : Value :=
  .text ("(" ++ value ++ (if negated then " NOT LIKE " else " LIKE ") ++ quote pattern ++ ")")

/-- The pattern of a method that tests one end of a text. -/
def endPattern? (method text : String) : Option String :=
  if method = "startswith" then some (text ++ "%")
  else if method = "endswith" then some ("%" ++ text)
  else none

mutual

/-- The value of an expression. -/
def eval (c : Context) : Expr → Except Error Value
  | .literal l => .ok (.text l.sql)
  | .name id => .ok (c.named id)
  | .attr value label => do c.attributeOf (.attr value label) label (← eval c value)
  | .subscript value index => do itemOf (.subscript value index) index (← eval c value)
  | .binary left op right => do
    let l ← c.sqlOf left (← eval c left)
    let r ← c.sqlOf right (← eval c right)
    match arithmetic? op l r with
    | some sql => return .text sql
    | none => .error (.unsupported (Expr.binary left op right).render .matrixProduct)
  | .unary op operand =>
    if op = .neg && operand.isNumber then .ok (.text ("-" ++ numberSql operand))
    -- The SQL of a quantifier is closed, so `NOT` needs no parentheses around it.
    else if op = .not && (operand.quantifierCall?).isSome then do
      return .text ("NOT " ++ (← c.sqlOf operand (← eval c operand)))
    else do c.signedOf op operand (← eval c operand)
  | .compare left ops operands =>
    if c.isGuaranteed (.compare left ops operands) then .ok .satisfied
    else
      -- Delayed, because the tests for membership below do not come to it.
      let general : Unit → Except Error Value := fun _ =>
        if ops.length ≠ operands.length ∨ ops.isEmpty then
          .error (.mismatch (Expr.compare left ops operands).render .malformedComparison)
        else do
          let first ← c.sqlOf left (← eval c left)
          return .text (chained (← links c first ops operands))
      match membershipOp? ops, operands with
      | some op, [.list items] => do
        let l ← c.sqlOf left (← eval c left)
        return listTest l op (← compileAll c items)
      | some op, [.tuple items] => do
        let l ← c.sqlOf left (← eval c left)
        return listTest l op (← compileAll c items)
      | some op, [.literal .none] => do
        let l ← c.sqlOf left (← eval c left)
        return listTest l op []
      | some op, [right] =>
        match left with
        | .literal (.str text) => do
          let r ← c.sqlOf right (← eval c right)
          return patternTest r (op = .notElemOf) ("%" ++ text ++ "%")
        -- A free name ranges over the array on the right. The statement expands one array only, and
        -- the test for that one has been answered above.
        | .name id =>
          if (c.scope.resolve id).isUnbound then do
            match ← eval c right with
            | .path _ =>
              .error (.unsupported (Expr.compare left ops operands).render .nestedMembership)
            | _ => general ()
          else general ()
        | _ => general ()
      | _, _ => general ()
  | .boolean op operands => do
    match ← conditions c op operands with
    | none => return .satisfied
    | some parts => return connected op parts
  | .conditional test body otherwise => do
    let t ← c.sqlOf test (← eval c test)
    let b ← c.sqlOf body (← eval c body)
    let o ← c.sqlOf otherwise (← eval c otherwise)
    return .text ("CASE WHEN " ++ t ++ " THEN " ++ b ++ " ELSE " ++ o ++ " END")
  | .call callee args keywords =>
    if !keywords.isEmpty then
      .error (.unsupported (Expr.call callee args keywords).render .keywordArguments)
    else
      match callee with
      | .name id =>
        if id = "len" then
          match args with
          | [argument] => do
            match ← eval c argument with
            | .path p => return .text p.length
            | _ => .error (.mismatch (Expr.call callee args keywords).render .lengthOfValue)
          | _ => .error (.mismatch (Expr.call callee args keywords).render .lengthArity)
        else
          match (if id = Expr.quantifierName then quantified c args else none) with
          | some answer => answer
          | none => .error (.unsupported id (.function (Expr.call callee args keywords).render))
      | .attr value label =>
        if (endPattern? label "").isSome then
          match args with
          | [.literal (.str text)] => do
            let v ← c.sqlOf value (← eval c value)
            return patternTest v false ((endPattern? label text).getD text)
          | _ => .error (.mismatch (Expr.call callee args keywords).render (.patternArgument label))
        else .error (.unsupported label (.method (Expr.call callee args keywords).render))
      | _ => .error (.unsupported (Expr.call callee args keywords).render .callee)
  | .list items => do return .sequence (← compileAll c items)
  | .tuple items => do return .sequence (← compileAll c items)
  | e => .error (.unsupported e.render (.noSqlForm e.kind))
termination_by structural e => e

def compileAll (c : Context) : List Expr → Except Error (List String)
  | [] => .ok []
  | e :: es => do
    let sql ← c.sqlOf e (← eval c e)
    return sql :: (← compileAll c es)
termination_by structural es => es

/-- The SQL for the links of a comparison chain; `current` is the operand before them. -/
def links (c : Context) (current : String) : List CmpOp → List Expr → Except Error (List String)
  | op :: ops, e :: es => do
    let next ← c.sqlOf e (← eval c e)
    return ("(" ++ current ++ " " ++ comparison op ++ " " ++ next ++ ")") :: (← links c next ops es)
  | _, _ => .ok []
termination_by structural _ es => es

/-- The conditions of a connective. Those that are satisfied vanish from a conjunction, and satisfy
a disjunction, for which the answer is none. -/
def conditions (c : Context) (op : BoolOp) : List Expr → Except Error (Option (List String))
  | [] => .ok (some [])
  | e :: es => do
    match ← c.conditionOf e (← eval c e) with
    | some sql => return (← conditions c op es).map (sql :: ·)
    | none => if op = .or then return none else conditions c op es
termination_by structural es => es

/-- The value of a quantifier over the comprehension that its only argument is. -/
def quantified (c : Context) : List Expr → Option (Except Error Value)
  | [.generator element [⟨target, array, filters⟩]]
  | [.listComp element [⟨target, array, filters⟩]] =>
    if array.chain?.isSome then some do
      let path ← pathOf array (← eval c array)
      -- The variable alone says of an element only that it is there.
      let own ← if element.asName? = some target then pure none
        else (c.within target).conditionOf element (← eval (c.within target) element)
      let others ← conditions (c.within target) .and filters
      return .text (existence path target (own.toList ++ others.getD []))
    else none
  | _ => none
termination_by structural es => es

end

def compile (c : Context) (e : Expr) : Except Error String := do
  c.sqlOf e (← c.eval e)

/-- The condition that an expression is; a condition that always holds is none. -/
def predicate (c : Context) (e : Expr) : Except Error (Option String) := do
  c.conditionOf e (← c.eval e)

/-- The path that an expression is. -/
def fieldPath (c : Context) (e : Expr) : Except Error FieldPath := do
  pathOf e (← c.eval e)

end Context

end DocQuery.Sql
