/-!
# Blank characters

The characters with the Unicode property `White_Space`, and the removal of them at both ends of a
text.
-/

namespace Reflection.Text

/-- Does the character have the Unicode property `White_Space`? -/
def isBlank (c : Char) : Bool :=
  let n := c.toNat
  (0x9 ≤ n && n ≤ 0xd) || n = 0x20 || n = 0x85 || n = 0xa0 || n = 0x1680
    || (0x2000 ≤ n && n ≤ 0x200a) || n = 0x2028 || n = 0x2029 || n = 0x202f || n = 0x205f || n = 0x3000

/-- A list without the longest run at its end on which `p` holds. -/
def dropEnd {α : Type} (p : α → Bool) (xs : List α) : List α :=
  (xs.reverse.dropWhile p).reverse

/-- A text without blanks at either end. -/
def trim (text : List Char) : List Char :=
  dropEnd isBlank (text.dropWhile isBlank)

end Reflection.Text
