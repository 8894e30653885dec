/-! # Sets of code points given by their boundaries

A set of code points is written as the list of its boundaries: the first point of a run, then the
first point after it, run after run. `contains` reads such a list.
-/

set_option autoImplicit false

namespace DocQuery.Text.CodePoints

/-- Whether `n` lies in one of the runs that `bounds` delimits. -/
def contains : List Nat → Nat → Bool
  | lo :: hi :: rest, n => (lo ≤ n && n < hi) || contains rest n
  | _, _ => false

end DocQuery.Text.CodePoints
