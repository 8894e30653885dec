import DocQuery.Expr.Render

/-! # SQL literals

* `Sql.quote`: a text as an SQL string; a quote inside it is doubled.
* `Literal.sql`: a literal in SQL.
* `Sql.sequence`: the items of a list in SQL; there is always at least one.
-/

set_option autoImplicit false

namespace DocQuery

namespace Sql

/-- The characters of an SQL string, where every quote is doubled. -/
def doubled : List Char → List Char
  | [] => []
  | c :: cs => if c = '\'' then '\'' :: '\'' :: doubled cs else c :: doubled cs

theorem doubled_append (cs ds : List Char) : doubled (cs ++ ds) = doubled cs ++ doubled ds := by
  induction cs with
  | nil => rfl
  | cons c cs ih =>
    rw [List.cons_append, doubled, doubled, ih]
    split <;> rfl

/-- An SQL string. -/
def quote (text : String) : String := "'" ++ String.ofList (doubled text.toList) ++ "'"

/-- The items of a list; nothing is written `NULL`. -/
def sequence : List String → String
  | [] => "NULL"
  | items => commaJoined items

end Sql

def Literal.sql : Literal → String
  | .none => "NULL"
  | .bool true => "TRUE"
  | .bool false => "FALSE"
  | .str s => Sql.quote s
  | l => l.render

end DocQuery
