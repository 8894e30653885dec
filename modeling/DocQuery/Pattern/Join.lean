import DocQuery.Expr.Nodes
import DocQuery.Data.NameSet
import DocQuery.Data.Dictionary
import DocQuery.Scope.Tables
import DocQuery.Sql.Path

/-! # Joins

An equality between the handles of two tables, among the top-level conjuncts of a condition, says
how the tables are joined.

* `Expr.referencedTables`: the tables beside the base table whose fields an expression names.
* `JoinCondition`: an equality of handles; `Expr.joinCondition?` recognizes it.
* `Expr.joins`: a join for each table that has one.
* `Expr.withoutJoins?`: what is left of a condition without the equalities that joins stand for.
-/

set_option autoImplicit false

namespace DocQuery

/-- Whether a field holds the identifier of a record. -/
def isHandle (label : String) : Bool :=
  label == "handle" || label == "ref" || "_handle".toList.isSuffixOf label.toList

/-- The condition that two fields of different tables are equal. -/
structure JoinCondition where
  leftTable : String
  leftLabel : String
  rightTable : String
  rightLabel : String
deriving DecidableEq, Repr

namespace JoinCondition

/-- Whether a table is one of the two. -/
def involves (j : JoinCondition) (table : String) : Bool :=
  j.leftTable == table || j.rightTable == table

/-- The words that join a table. -/
def keyword : String := "INNER JOIN"

/-- The SQL for a field of a table. -/
def fieldOf (table label : String) : String :=
  ((FieldPath.ofRoot (.table table true)).push (.field label)).field

/-- The SQL that joins a table under the condition. -/
def sql (j : JoinCondition) (table : String) : String :=
  keyword ++ " " ++ table ++ " ON " ++ fieldOf j.leftTable j.leftLabel ++ " = " ++
    fieldOf j.rightTable j.rightLabel

end JoinCondition

namespace Expr

/-- The table beside the base table whose field an expression is. -/
def referencedTable? (base : String) (tables : Tables) : Expr → Option String
  | attr (name id) _ => if id ≠ base ∧ tables.contains id then some id else none
  | _ => none

/-- The tables beside the base table whose fields an expression names. -/
def referencedTables (e : Expr) (base : String) (tables : Tables) : NameSet :=
  NameSet.ofList (e.nodes.filterMap (referencedTable? base tables))

/-- The table and the field of an expression `table.field`. -/
def tableField? (tables : Tables) (e : Expr) : Option (String × String) :=
  match e.chain? with
  | some (table, [label]) => if tables.contains table then some (table, label) else none
  | _ => none

/-- The equality of handles that an expression is. -/
def joinCondition? (tables : Tables) : Expr → Option JoinCondition
  | compare left [.eq] (right :: _) => do
    let (leftTable, leftLabel) ← tableField? tables left
    let (rightTable, rightLabel) ← tableField? tables right
    if leftTable ≠ rightTable ∧ isHandle leftLabel ∧ isHandle rightLabel then
      return ⟨leftTable, leftLabel, rightTable, rightLabel⟩
    else none
  | _ => none

/-- The top-level conjuncts of a condition. -/
def conjuncts : Expr → List Expr
  | boolean .and operands => operands
  | e => [e]

/-- The joins of the tables `referenced`, each under the first condition that names the table. A
table without one is not joined. -/
def joins (e : Expr) (referenced : NameSet) (tables : Tables) : OrderedMap JoinCondition :=
  let conditions := e.conjuncts.filterMap (joinCondition? tables)
  .assign referenced fun table => conditions.find? (·.involves table)

/-- Whether an expression is one of the given equalities. -/
def isUsed (tables : Tables) (used : List JoinCondition) (e : Expr) : Bool :=
  (joinCondition? tables e).any used.contains

/-- A condition without the equalities that joins stand for, if anything is left of it. -/
def withoutJoins? (tables : Tables) (used : List JoinCondition) : Expr → Option Expr
  | boolean .and operands => ofOperands? .and (operands.filter (!isUsed tables used ·))
  | e => if isUsed tables used e then none else some e

end Expr

end DocQuery
