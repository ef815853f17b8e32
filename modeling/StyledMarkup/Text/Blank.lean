/-!
# Blank characters

A character is blank when it has the Unicode property White_Space. There are twenty-five of them,
in ten intervals of code points.
-/

namespace StyledMarkup.Text

/-- A character with the Unicode property White_Space. -/
def isBlank (c : Char) : Bool :=
  let n := c.toNat
  (0x9 ≤ n && n ≤ 0xD) || n == 0x20 || n == 0x85 || n == 0xA0 || n == 0x1680 ||
    (0x2000 ≤ n && n ≤ 0x200A) || (0x2028 ≤ n && n ≤ 0x2029) || n == 0x202F || n == 0x205F ||
    n == 0x3000

end StyledMarkup.Text
