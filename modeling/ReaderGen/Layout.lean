/-!
# Indentation

Lines of code are indented by the braces they open and close: a line that begins with a closing brace
is indented one level less than the line before, and lines after one that ends with an opening brace
one level more.

The levels are counted in machine words. Indenting breaks off, and there is no text, where the indentation
of a line would be too long for a text.
-/

namespace ReaderGen.Layout

/-- A text `n` times. -/
def times (n : Nat) (text : String) : String :=
  if text.isEmpty then "" else String.join (List.replicate n text)

/-- The greatest length of a text, in bytes. -/
def capacity : Nat := 0x7fffffffffffffff

/-- A text `n` times, unless that would be too long for a text. -/
def times? (n : UInt64) (text : String) : Option String :=
  if text.utf8ByteSize * n.toNat ≤ capacity then some (times n.toNat text) else none

/-- Whether a line begins with a closing brace. -/
def closes (line : String) : Bool := line.toList.head? = some '\x7d'

/-- Whether a line ends with an opening brace. -/
def opens (line : String) : Bool := line.toList.getLast? = some '\x7b'

/-- How levels are counted. They are machine words: after the last one the count begins again at zero, or
the run breaks off. -/
inductive Counting
  | wrapping
  | checked
deriving DecidableEq, Repr

/-- The next level. -/
def Counting.up? (counting : Counting) (level : UInt64) : Option UInt64 :=
  if counting = .checked ∧ level + 1 = 0 then none else some (level + 1)

/-- The level of a line that follows lines of level `nest`. -/
def wordOf (nest : UInt64) (line : String) : UInt64 :=
  if closes line ∧ nest ≠ 0 then nest - 1 else nest

/-- The level of the lines after a line that follows lines of level `nest`. -/
def wordAfter? (counting : Counting) (nest : UInt64) (line : String) : Option UInt64 :=
  if opens line then counting.up? (wordOf nest line) else some (wordOf nest line)

/-- Indents each line by its level. -/
def indent? (counting : Counting) (unit : String) : UInt64 → List String → Option (List String)
  | _, [] => some []
  | nest, line :: lines => do
    let indentation ← times? (wordOf nest line) unit
    let after ← wordAfter? counting nest line
    let rest ← indent? counting unit after lines
    return (indentation ++ line) :: rest

/-- The indented lines as one text. -/
def render? (counting : Counting) (unit : String) (nest : UInt64) (lines : List String) :
    Option String :=
  (indent? counting unit nest lines).map "\n".intercalate

end ReaderGen.Layout
