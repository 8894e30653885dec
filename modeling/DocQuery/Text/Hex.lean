/-! # Hexadecimal digits

* `hexValue?`: the value of a hexadecimal digit in either case.
* `hexNumber?`: the number that several digits write.
-/

set_option autoImplicit false

namespace DocQuery.Text

def hexValue? (c : Char) : Option Nat :=
  if c.isDigit then some (c.toNat - 48)
  else if 'a' ≤ c && c ≤ 'f' then some (c.toNat - 87)
  else if 'A' ≤ c && c ≤ 'F' then some (c.toNat - 55)
  else none

/-- The number that hexadecimal digits write. -/
def hexNumber? (digits : List Char) : Option Nat :=
  digits.foldlM (fun n c => (hexValue? c).map (n * 16 + ·)) 0

end DocQuery.Text
