/-! # Words at the ends of a text

* `after?`, `before?`: the rest of a text that starts or ends with a word.
* `afterAll`: the rest of a text after all copies of a word at its start.
-/

set_option autoImplicit false

namespace DocQuery.Text

/-- What follows the word `w` in a text that starts with it. -/
def after? : List Char → List Char → Option (List Char)
  | [], s => some s
  | c :: w, d :: s => if c = d then after? w s else none
  | _ :: _, [] => none

/-- What precedes the word `w` in a text that ends with it. -/
def before? (w s : List Char) : Option (List Char) :=
  (after? w.reverse s.reverse).map List.reverse

/-- What follows the copies of `w` at the start of a text, at most `fuel` copies. -/
def afterCopies (w : List Char) : Nat → List Char → List Char
  | 0, s => s
  | fuel + 1, s =>
    match after? w s with
    | some rest => afterCopies w fuel rest
    | none => s

/-- What follows all copies of `w` at the start of a text. -/
def afterAll (w s : List Char) : List Char := afterCopies w s.length s

end DocQuery.Text
