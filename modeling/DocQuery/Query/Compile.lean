import DocQuery.Query.Source
import DocQuery.Query.Statement
import DocQuery.Sql.Fragment

/-! # Compiling requests

The condition of a request is taken apart first: equalities of handles become joins, a membership
test expands an array beside the base table. Where a disjunction has disjuncts with and without the
membership test, the query is the union of two statements, one for each kind.

* `Compiler`: the names of the domain and the tables.
* `Compiler.compile`: the query of a request.
-/

set_option autoImplicit false

namespace DocQuery

/-- The names of the domain and the tables that requests may use. -/
structure Compiler where
  env : Environment
  tables : Tables

/-- The expressions of a request. `document` says that the whole document is selected. -/
structure Parts where
  what : List Expr
  document : Bool
  condition : Option Expr
  order : List (Expr × Bool)

def Request.parts (r : Request) : Except Error Parts := do
  let what ← match r.what with
    | .document => pure []
    | .one source => pure [← source.expr]
    | .many sources => sources.mapM Source.expr
  let condition ← r.condition.mapM Source.expr
  let order ← r.order.mapM fun o => do pure (← o.source.expr, o.descending)
  let document := match r.what with
    | .document => true
    | _ => false
  return ⟨what, document, condition, order⟩

/-- What the statements of one query share. -/
structure Layout where
  compiler : Compiler
  base : String
  parts : Parts
  joins : OrderedMap JoinCondition

namespace Layout

/-- The context of an expression that stands outside any iteration. -/
def context (l : Layout) : Sql.Context := .of l.base l.compiler.env l.compiler.tables

/-- The comprehension that is selected, if that is all. -/
def comprehension? (l : Layout) : Except Error (Option ArrayComprehension) :=
  match l.parts.what with
  | [e] => e.comprehension?
  | _ => .ok none

/-- The array under a name, which is always named with its table. -/
def expand (l : Layout) (target : String) (array : Expr) : Except Error Expansion := do
  return ⟨target, ← (l.context.qualified true).fieldPath array⟩

/-- The array that is expanded: that of the membership test or that of the comprehension. There is
only one, so both must be the same under the same name. -/
def expansion (m : Option Expansion) (c : Option Expansion) : Except Error (Option Expansion) :=
  match m, c with
  | some x, some y =>
    if x = y then .ok (some x) else .error (.unsupported y.target (.secondIteration x.target))
  | some x, none => .ok (some x)
  | none, y => .ok y

/-- The variable of the iteration around the expressions of a statement. -/
def target? (l : Layout) (m : Option Membership) : Option String :=
  match m, l.parts.what with
  | some m, _ => some m.target
  | none, [e] => e.iterationTarget?
  | none, _ => none

/-- The context of the expressions of a statement. -/
def inner (l : Layout) (m : Option Membership) (expanded union : Bool) : Sql.Context :=
  ((l.context.qualified (union || !l.joins.isEmpty || expanded)).iterating
    (l.target? m)).guaranteeing m

def columns (l : Layout) (c : Sql.Context) (comprehension : Option ArrayComprehension) :
    Except Error (List String) :=
  if l.parts.document then .ok [c.document]
  else match comprehension with
    | some x => do return [← c.compile x.element]
    | none => l.parts.what.mapM c.compile

/-- The expressions to sort by. Beside joined tables, the document of the base table is named with
its table. -/
def orderTexts (l : Layout) (c : Sql.Context) : Except Error (List String) :=
  l.parts.order.mapM fun o => do
    let text ← c.compile o.1
    return if text = documentColumn ∧ !l.joins.isEmpty then l.base ++ "." ++ documentColumn
      else text

/-- Two conditions in one. -/
def both : Option String → Option String → Option String
  | some a, some b => some ("(" ++ a ++ " AND " ++ b ++ ")")
  | some a, none => some a
  | none, b => b

/-- One statement, under a condition and with a membership test that it guarantees, and the context
of its expressions. -/
def select (l : Layout) (condition : Option Expr) (m : Option Membership) (union : Bool) :
    Except Error (Select × Sql.Context) := do
  let tested ← m.mapM fun m => l.expand m.target m.array
  let comprehension ← l.comprehension?
  let iterated ← comprehension.mapM fun x => l.expand x.target x.array
  let expanded ← expansion tested iterated
  let c := l.inner m expanded.isSome union
  let columns ← l.columns c comprehension
  -- A union is sorted as a whole, so its statements select what it is sorted by.
  let ordering ← if union then l.orderTexts c else pure []
  let own ← condition.mapM c.predicate
  let filter ← (comprehension.bind (·.condition)).mapM c.predicate
  return (⟨columns, ⟨l.base, expanded, l.joins⟩, both own.join filter.join, ordering⟩, c)

/-- The directions of the terms to sort by. -/
def directions (l : Layout) : List Bool := l.parts.order.map (·.2)

/-- The terms of an ordered union, by their aliases. -/
def unionOrder (l : Layout) : List OrderTerm :=
  l.directions.zipIdx.map fun d => ⟨orderAlias d.2, d.1⟩

/-- The columns that the query around an ordered union selects. -/
def unionColumns (l : Layout) : List String :=
  if l.parts.order.isEmpty then []
  else (List.range (max 1 l.parts.what.length)).map columnAlias

/-- The union of the statements for the disjuncts without and with a membership test. -/
def union (l : Layout) (m : Membership) (without within : Expr) : Except Error Query := do
  let (first, _) ← l.select (some without) none true
  let (second, _) ← l.select (some within) (some m) true
  return .union first second l.unionColumns l.unionOrder

/-- The query of a single statement. -/
def single (l : Layout) (condition : Option Expr) (m : Option Membership) : Except Error Query := do
  let (s, c) ← l.select condition m false
  let texts ← l.orderTexts c
  return .single s ((texts.zip l.directions).map fun t => ⟨t.1, t.2⟩)

end Layout

namespace Compiler

/-- The compiler of the genealogy domain. -/
def genealogy : Compiler := ⟨Genealogy.environment, Tables.genealogy⟩

/-- The tables beside the base table whose fields the condition or the columns name. -/
def referenced (c : Compiler) (base : String) (p : Parts) : NameSet :=
  (p.condition.toList ++ p.what).foldl
    (fun found e => found.union (e.referencedTables base c.tables)) .empty

def joins (c : Compiler) (base : String) (p : Parts) : OrderedMap JoinCondition :=
  match p.condition with
  | some condition => condition.joins (c.referenced base p) c.tables
  | none => .empty

/-- The query of a request. -/
def compile (c : Compiler) (r : Request) : Except Error Query := do
  if !c.tables.contains r.table then .error (.mismatch r.table .unknownTable)
  else
    let parts ← r.parts
    let joins := c.joins r.table parts
    let condition := parts.condition.bind (Expr.withoutJoins? c.tables (joins.map (·.2)))
    -- The test is looked for in what the joins have left of the condition.
    let membership := condition.bind (Expr.membership? r.table (.of c.env c.tables))
    let layout : Layout := ⟨c, r.table, parts, joins⟩
    match membership, condition.bind fun e => membership.bind (·.split? e) with
    | some m, some (without, within) => layout.union m without within
    | _, _ => layout.single condition membership

end Compiler

end DocQuery
