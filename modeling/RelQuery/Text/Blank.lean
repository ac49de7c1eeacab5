/-!
# Blank characters

The characters of the Unicode property White_Space, and the removal of blanks at both ends of a
text.
-/

namespace RelQuery.Text

/-- The character is white space. -/
def isBlank (c : Char) : Bool :=
  let point := c.toNat
  (9 ≤ point && point ≤ 13) || point == 0x20 || point == 0x85 || point == 0xA0 ||
    point == 0x1680 || (0x2000 ≤ point && point ≤ 0x200A) || point == 0x2028 ||
    point == 0x2029 || point == 0x202F || point == 0x205F || point == 0x3000

/-- The characters without the blanks at their start. -/
def trimStart (chars : List Char) : List Char :=
  chars.dropWhile isBlank

/-- The characters without the blanks at both ends. -/
def trim (chars : List Char) : List Char :=
  (trimStart (trimStart chars).reverse).reverse

end RelQuery.Text
