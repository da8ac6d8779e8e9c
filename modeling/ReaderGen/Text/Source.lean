/-!
# Lines, columns and byte offsets

A position in a text is a line, counted from 1, and a column, counted in characters from 0. The
offset of a position is counted in the bytes of the text's UTF-8 form.

* `positionAt`: the position of a character.
* `offset`: the byte offset of a position. A line after the last one counts as the last one, and a
  column after the end of its line as that end; the carriage returns and the newline that end a line
  are not part of it.
-/

namespace ReaderGen.Source

structure Position where
  line : Nat
  column : Nat
deriving DecidableEq, Repr

/-- The length of a text in bytes. -/
def byteLength : List Char → Nat
  | [] => 0
  | c :: cs => c.utf8Size + byteLength cs

@[simp] theorem byteLength_append (xs ys : List Char) :
    byteLength (xs ++ ys) = byteLength xs + byteLength ys := by
  induction xs with
  | nil => simp [byteLength]
  | cons x xs ih => simp [byteLength, ih, Nat.add_assoc]

/-! ## Lines -/

/-- The lines of a text, without the newlines between them. There is always at least one. -/
def lines : List Char → List (List Char)
  | [] => [[]]
  | c :: cs =>
    if c = '\n' then [] :: lines cs
    else
      match lines cs with
      | [] => [[c]]
      | l :: ls => (c :: l) :: ls

theorem lines_ne_nil (cs : List Char) : lines cs ≠ [] := by
  cases cs with
  | nil => simp [lines]
  | cons c cs =>
    simp only [lines]
    split
    · simp
    · split <;> simp

/-- A line without the carriage returns and newlines at its end. -/
def trimEnd (line : List Char) : List Char :=
  (line.reverse.dropWhile (fun c => c = '\r' || c = '\n')).reverse

/-- The byte offset at which line `k`, counted from 0, begins. -/
def lineStart : List (List Char) → Nat → Nat
  | line :: lines, k + 1 => byteLength line + 1 + lineStart lines k
  | _, _ => 0

/-! ## Positions -/

/-- The position of the character at index `p`. -/
def positionAt (text : List Char) (p : Nat) : Position :=
  let before := text.take p
  ⟨1 + before.count '\n', (before.reverse.takeWhile (· ≠ '\n')).length⟩

/-- The byte offset of a position. -/
def offset (text : List Char) (position : Position) : Nat :=
  let ls := lines text
  let k := min (position.line - 1) (ls.length - 1)
  lineStart ls k + byteLength ((trimEnd (ls.getD k [])).take position.column)

/-- The byte offset that is shown for the character at index `p`. -/
def offsetAt (text : List Char) (p : Nat) : Nat := offset text (positionAt text p)

end ReaderGen.Source
