import DocQuery.Pattern.Join
import DocQuery.Sql.Path

/-! # Statements

* `From`: the tables that a statement reads: the base table, at most one array that is expanded, and
  the tables that are joined.
* `Select`: one statement; `Query`: one statement or the union of two, with an order.
* `Select.sql`, `Query.sql`: their texts. Inside an ordered union the columns and the terms to sort
  by have aliases, by which the query around it selects and sorts.
-/

set_option autoImplicit false

namespace DocQuery

/-- An array with one row for each element, under a name. -/
structure Expansion where
  target : String
  array : FieldPath
deriving DecidableEq, Repr

/-- The tables that a statement reads. -/
structure From where
  base : String
  expansion : Option Expansion
  joins : OrderedMap JoinCondition
deriving Repr

def From.sql (f : From) : String :=
  f.base ++
    (match f.expansion with
      | some x => ", " ++ x.array.expansion x.target
      | none => "") ++
    String.join (f.joins.map fun j => " " ++ j.2.sql j.1)

/-- The alias of a column of an ordered union. -/
def columnAlias (i : Nat) : String := "_col_" ++ toString i

/-- The alias of a term to sort by. -/
def orderAlias (i : Nat) : String := "_order_" ++ toString i

/-- Texts with aliases, numbered from `i`. -/
def aliased (label : Nat → String) : Nat → List String → List String
  | _, [] => []
  | i, text :: rest => (text ++ " AS " ++ label i) :: aliased label (i + 1) rest

/-- One statement. Where `ordering` has terms, a query around the statement sorts by them. -/
structure Select where
  columns : List String
  source : From
  predicate : Option String
  ordering : List String
deriving Repr

namespace Select

def projection (s : Select) : String :=
  commaJoined (if s.ordering.isEmpty then s.columns else aliased columnAlias 0 s.columns)

def sql (s : Select) : String :=
  "SELECT " ++ s.projection ++
    String.join ((aliased orderAlias 0 s.ordering).map (", " ++ ·)) ++
    " FROM " ++ s.source.sql ++
    (match s.predicate with
      | some condition => " WHERE " ++ condition
      | none => "")

end Select

/-- A term to sort by. -/
structure OrderTerm where
  text : String
  descending : Bool
deriving DecidableEq, Repr

def OrderTerm.sql (t : OrderTerm) : String := if t.descending then t.text ++ " DESC" else t.text

/-- One statement, or the union of two. The query around an ordered union selects `columns`. -/
inductive Query where
  | single (select : Select) (order : List OrderTerm)
  | union (first second : Select) (columns : List String) (order : List OrderTerm)
deriving Repr

namespace Query

def branches : Query → List Select
  | single s _ => [s]
  | union s t _ _ => [s, t]

def isUnion : Query → Bool
  | single .. => false
  | union .. => true

/-- The columns that the query around an ordered union selects. -/
def columns : Query → List String
  | single .. => []
  | union _ _ columns _ => columns

/-- The terms by which a query sorts. -/
def order : Query → List OrderTerm
  | single _ order => order
  | union _ _ _ order => order

/-- The SQL for the order, if there is one. -/
def orderText? (q : Query) : Option String :=
  if q.order.isEmpty then none else some (commaJoined (q.order.map OrderTerm.sql))

def sql (q : Query) : String :=
  let statements := " UNION ".intercalate (q.branches.map Select.sql)
  match q.orderText? with
  | none => statements ++ ";"
  | some order =>
    if q.isUnion then
      "SELECT " ++ commaJoined q.columns ++ " FROM (" ++ statements ++ ") ORDER BY " ++ order ++ ";"
    else statements ++ " ORDER BY " ++ order ++ ";"

end Query

end DocQuery
