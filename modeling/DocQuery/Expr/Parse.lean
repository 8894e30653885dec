import DocQuery.Expr.Grammar
import DocQuery.Error

/-! # Reading expressions

* `Expr.parse`: reads a text that is one expression, with blanks around it. A failure reports the
  place where reading stopped, without the blanks there, as a number of bytes from the start of the
  text.
-/

set_option autoImplicit false

namespace DocQuery

/-- The place of `rest`, which ends the text `s`, as a number of bytes from the start of `s`. -/
def bytePosition (s rest : List Char) : Nat :=
  (String.ofList s).utf8ByteSize - (String.ofList rest).utf8ByteSize

/-- Reads an expression. -/
def Expr.parse (text : String) : Except Error Expr :=
  let s := text.toList
  match Expr.reader s with
  | .ok e rest =>
    let rest := Text.trimStart rest
    if rest.isEmpty then .ok e
    else .error (.unparseable text (.trailing (bytePosition s rest) (String.ofList rest)))
  | .error place =>
    let rest := Text.trimStart place
    .error (.unparseable text (.unexpected (bytePosition s rest) (String.ofList rest)))

end DocQuery
