import ReaderGen.Text.Identifier
import ReaderGen.Text.Width.Table

/-!
# Columns that characters take

The number of columns a character takes on a terminal line: none for control characters and
combining marks, two for wide characters, one for all others.
-/

namespace ReaderGen.Text

/-- Columns taken by one character. -/
def width (c : Char) : Nat :=
  if c.toNat < 0x20 || (0x7f ≤ c.toNat && c.toNat < 0xa0) then 0
  else if c.toNat < 0x7f then 1
  else if inRanges zeroWidthRanges c.toNat then 0
  else if inRanges wideRanges c.toNat then 2
  else 1

end ReaderGen.Text
