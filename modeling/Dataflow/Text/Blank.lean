/-!
# Blank text

A text is blank when it has no characters but white space, which is meant in the
sense of the Unicode property White_Space.
-/

namespace Dataflow

/-- Whether a character is white space. -/
def isWhiteSpace (c : Char) : Bool :=
  let n := c.toNat
  (0x09 ≤ n && n ≤ 0x0d) || n = 0x20 || n = 0x85 || n = 0xa0 || n = 0x1680
    || (0x2000 ≤ n && n ≤ 0x200a) || n = 0x2028 || n = 0x2029 || n = 0x202f
    || n = 0x205f || n = 0x3000

/-- Whether a text is empty or white space throughout. -/
def isBlank (text : String) : Bool :=
  text.toList.all isWhiteSpace

end Dataflow
