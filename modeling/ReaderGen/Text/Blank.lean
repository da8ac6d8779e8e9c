/-!
# Blank characters

The characters that separate tokens: the Unicode property `White_Space`, and the two direction
marks.
-/

namespace ReaderGen.Text

/-- Blank characters beyond ASCII, as code points. -/
def blankCodes : List Nat :=
  [0x85, 0xa0, 0x1680, 0x2000, 0x2001, 0x2002, 0x2003, 0x2004, 0x2005, 0x2006, 0x2007, 0x2008,
   0x2009, 0x200a, 0x200e, 0x200f, 0x2028, 0x2029, 0x202f, 0x205f, 0x3000]

/-- A character that only separates tokens. -/
def isBlank (c : Char) : Bool :=
  c = ' ' || (0x09 ≤ c.toNat && c.toNat ≤ 0x0d) || blankCodes.contains c.toNat

end ReaderGen.Text
