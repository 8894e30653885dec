/-! # Blank characters

Two notions of blank are used. Between the tokens of an expression only space, tab, carriage return
and line feed may stand (`isGap`). At the ends of a text, and at the ends of a remainder that is
reported, every code point with the property White_Space is trimmed (`isBlank`).

* `skipGap`: drops the leading gap of a text.
* `trimStart`, `trimEnd`, `trim`: drop blanks at the ends.
-/

set_option autoImplicit false

namespace DocQuery.Text

/-- Space, tab, carriage return and line feed: what may separate two tokens. -/
def isGap (c : Char) : Bool :=
  c == ' ' || c == '\t' || c == '\r' || c == '\n'

/-- The code points with the property White_Space. -/
def isBlank (c : Char) : Bool :=
  let n := c.toNat
  (9 ≤ n && n ≤ 13) || n == 0x20 || n == 0x85 || n == 0xa0 || n == 0x1680 ||
    (0x2000 ≤ n && n ≤ 0x200a) || n == 0x2028 || n == 0x2029 || n == 0x202f || n == 0x205f ||
    n == 0x3000

/-- A text without its leading gap. -/
def skipGap (cs : List Char) : List Char := cs.dropWhile isGap

def trimStart (cs : List Char) : List Char := cs.dropWhile isBlank

def trimEnd (cs : List Char) : List Char := (cs.reverse.dropWhile isBlank).reverse

/-- A text without the blanks at its two ends. -/
def trim (cs : List Char) : List Char := trimEnd (trimStart cs)

end DocQuery.Text
