/-! # Widths of integers

The first natural numbers that integers of a given width do not hold.

* `Width.unsigned32`, `Width.unsigned64`: without a sign.
* `Width.signed32`, `Width.signed64`: with a sign; the least integer is the opposite.
-/

set_option autoImplicit false

namespace DocQuery.Width

/-- Two to the power of 32. -/
def unsigned32 : Nat := 4294967296

/-- Two to the power of 64. -/
def unsigned64 : Nat := 18446744073709551616

/-- Two to the power of 31. -/
def signed32 : Nat := 2147483648

/-- Two to the power of 63. -/
def signed64 : Nat := 9223372036854775808

end DocQuery.Width
