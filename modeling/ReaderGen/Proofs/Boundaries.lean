import ReaderGen.Proofs.Offsets

/-!
# Offsets that a text has

A place is shown from the offset of its beginning to that of its end. Whatever line and column are asked
for, the answer is an offset at which a character of the text begins or the text ends, since it is the
size of what the text begins with. Offsets also keep the order of positions. The stops at the first line,
at the last one and at the end of a line cannot turn two positions around, as long as the lines are those
of the text.

* `Source.exists_append_line`, `Source.lineStart_add_lt`: where the lines of a text are, and their order.
* `Source.isValid_offset`: an offset is on a character boundary.
* `Source.offset_le_offset`: offsets are in the order of their positions.
* `Source.offset_of_position`: the two, and the offset of each character.
-/

namespace ReaderGen.Source

/-! ## Bytes -/

theorem byteLength_eq_utf8ByteSize (cs : List Char) :
    byteLength cs = (String.ofList cs).utf8ByteSize := by
  induction cs with
  | nil => simp [byteLength]
  | cons c cs ih =>
    rw [byteLength, ih, String.ofList_cons, String.utf8ByteSize_append, String.utf8ByteSize_singleton]

theorem byteLength_le_of_prefix {xs ys : List Char} (h : xs <+: ys) : byteLength xs ≤ byteLength ys := by
  obtain ⟨rest, rfl⟩ := h
  rw [byteLength_append]
  omega

/-! ## Lines in a text -/

theorem lines_eq_splitOn (cs : List Char) : lines cs = cs.splitOn '\n' := by
  induction cs with
  | nil => rfl
  | cons c cs ih =>
    rw [lines, List.splitOn_cons_eq_if_modifyHead, ih]
    simp only [beq_iff_eq]
    split
    · rfl
    · cases h : cs.splitOn '\n' with
      | nil => exact absurd h (List.splitOn_ne_nil _ cs)
      | cons l ls => rfl

/-- A line stands in the text after as many bytes as are counted for the lines before it. -/
theorem exists_append_line {ls : List (List Char)} {k : Nat} (hk : k < ls.length) :
    ∃ before after, ['\n'].intercalate ls = before ++ ls.getD k [] ++ after ∧
      byteLength before = lineStart ls k := by
  induction ls generalizing k with
  | nil => simp at hk
  | cons line ls ih =>
    cases k with
    | zero =>
      cases ls with
      | nil => exact ⟨[], [], by simp, rfl⟩
      | cons next ls => exact ⟨[], '\n' :: ['\n'].intercalate (next :: ls), by simp, rfl⟩
    | succ k =>
      rw [List.length_cons] at hk
      obtain ⟨before, after, htext, hstart⟩ := ih (k := k) (by omega)
      cases ls with
      | nil => simp at hk
      | cons next ls =>
        refine ⟨line ++ '\n' :: before, after, ?_, ?_⟩
        · rw [List.intercalate_cons_cons, htext]
          simp
        · have hnewline : '\n'.utf8Size = 1 := by decide
          rw [byteLength_append, byteLength, hstart, lineStart]
          omega

/-- A line ends before the next ones begin. -/
theorem lineStart_add_lt {ls : List (List Char)} {j k : Nat} (hjk : j < k) (hk : k < ls.length) :
    lineStart ls j + byteLength (ls.getD j []) < lineStart ls k := by
  induction ls generalizing j k with
  | nil => simp at hk
  | cons line ls ih =>
    obtain ⟨k, rfl⟩ := Nat.exists_eq_succ_of_ne_zero (Nat.ne_zero_of_lt hjk)
    cases j with
    | zero =>
      simp only [lineStart, List.getD_cons_zero]
      omega
    | succ j =>
      have hrest := ih (j := j) (k := k) (by omega) (by simpa using hk)
      simp only [lineStart, List.getD_cons_succ]
      omega

/-! ## Offsets of all positions -/

/-- The line, counted from 0, at which a position is looked for. -/
def lineIndex (text : List Char) (a : Position) : Nat := min (a.line - 1) ((lines text).length - 1)

theorem lineIndex_lt (text : List Char) (a : Position) : lineIndex text a < (lines text).length := by
  have hlines := List.length_pos_iff.2 (lines_ne_nil text)
  unfold lineIndex
  omega

theorem offset_eq (text : List Char) (a : Position) :
    offset text a = lineStart (lines text) (lineIndex text a) +
      byteLength ((trimEnd ((lines text).getD (lineIndex text a) [])).take a.column) :=
  rfl

/-- What is shown of a line up to a column, the line begins with. -/
theorem isPrefix_take_trimEnd (line : List Char) (column : Nat) :
    (trimEnd line).take column <+: line := by
  have htrim := trimEnd_prefix line
  exact (List.take_prefix column _).trans htrim

/-- An offset is the size of a part that the text begins with. -/
theorem exists_append_offset (text : List Char) (a : Position) :
    ∃ before after, text = before ++ after ∧ offset text a = byteLength before := by
  obtain ⟨before, after, htext, hstart⟩ := exists_append_line (lineIndex_lt text a)
  -- the lines, with newlines between them, are the text again
  rw [lines_eq_splitOn text, List.intercalate_splitOn, ← lines_eq_splitOn] at htext
  obtain ⟨rest, hline⟩ := isPrefix_take_trimEnd ((lines text).getD (lineIndex text a) []) a.column
  rw [← hline] at htext
  refine ⟨before ++ (trimEnd ((lines text).getD (lineIndex text a) [])).take a.column, rest ++ after,
    ?_, ?_⟩
  · simpa only [List.append_assoc] using htext
  · rw [offset_eq, byteLength_append, hstart]

/-- An offset is on a character boundary. -/
theorem isValid_offset (text : String) (a : Position) :
    String.Pos.Raw.IsValid text ⟨offset text.toList a⟩ := by
  obtain ⟨before, after, htext, hoffset⟩ := exists_append_offset text.toList a
  rw [String.Pos.Raw.isValid_iff_exists_append]
  refine ⟨String.ofList before, String.ofList after, ?_, ?_⟩
  · rw [← String.ofList_append, ← htext, String.ofList_toList]
  · rw [hoffset, byteLength_eq_utf8ByteSize]
    rfl

/-- Positions are in the order of their lines, and on one line in that of their columns. -/
instance : LE Position where
  le a b := a.line < b.line ∨ a.line = b.line ∧ a.column ≤ b.column

instance (a b : Position) : Decidable (a ≤ b) :=
  inferInstanceAs (Decidable (a.line < b.line ∨ a.line = b.line ∧ a.column ≤ b.column))

/-- Offsets are in the order of their positions. -/
theorem offset_le_offset {text : List Char} {a b : Position} (ha : 1 ≤ a.line)
    (hb : b.line ≤ (lines text).length) (h : a ≤ b) : offset text a ≤ offset text b := by
  rw [offset_eq, offset_eq]
  rcases h with hline | ⟨hline, hcolumn⟩
  · have hindex : lineIndex text a < lineIndex text b := by
      unfold lineIndex
      omega
    -- however far the column is, it stays before the newline that ends its line
    have hlt := lineStart_add_lt hindex (lineIndex_lt text b)
    have hend := byteLength_le_of_prefix
      (isPrefix_take_trimEnd ((lines text).getD (lineIndex text a) []) a.column)
    omega
  · have hindex : lineIndex text a = lineIndex text b := by
      unfold lineIndex
      rw [hline]
    rw [hindex]
    have hle := byteLength_le_of_prefix (List.take_prefix_take_left
      (l := trimEnd ((lines text).getD (lineIndex text b) [])) hcolumn)
    omega

/-! ## The offset of a position -/

/-- Line `n` of a text, counted from 1, without the carriage returns and the newline that end it. -/
def shownLine (text : List Char) (n : Nat) : List Char := trimEnd ((lines text).getD (n - 1) [])

theorem shownLine_positionAt (text : List Char) (p : Nat) :
    shownLine text (positionAt text p).line =
      trimEnd (lastLine (text.take p) ++ (text.drop p).takeWhile (· ≠ '\n')) := by
  have hline := (lines_append (text.take p) (text.drop p)).1
  rw [List.take_append_drop] at hline
  rw [← hline, shownLine, positionAt, Nat.add_sub_cancel_left]

/-- The offset of a character is the number of bytes before it, if its column is not beyond the end of its
line. Every offset is in the text and on a character boundary, and on the lines of the text offsets are in
the order of their positions. -/
theorem offset_of_position (text : String) :
    (∀ p, (positionAt text.toList p).column ≤
        (shownLine text.toList (positionAt text.toList p).line).length →
      offset text.toList (positionAt text.toList p) =
        (String.ofList (text.toList.take p)).utf8ByteSize) ∧
    (∀ a, offset text.toList a ≤ text.utf8ByteSize ∧
      String.Pos.Raw.IsValid text ⟨offset text.toList a⟩) ∧
    ∀ a b : Position, 1 ≤ a.line → b.line ≤ (lines text.toList).length → a ≤ b →
      offset text.toList a ≤ offset text.toList b := by
  refine ⟨fun p hcolumn => ?_, fun a => ⟨?_, isValid_offset text a⟩, fun a b => offset_le_offset⟩
  · rw [← byteLength_eq_utf8ByteSize]
    apply offsetAt_eq_byteLength
    rw [← shownLine_positionAt, lastLine, List.length_reverse]
    exact hcolumn
  · exact (isValid_offset text a).le_rawEndPos

/-- Two carriage returns end its first line, its second one is empty, and its last one has no newline. -/
def unevenText : String := "é\r\r\n\nx变 = 1\r"

theorem offset_of_position_uneven :
    positionAt unevenText.toList 7 = ⟨3, 2⟩ ∧ (shownLine unevenText.toList 3).length = 6 ∧
    offset unevenText.toList ⟨3, 2⟩ = (String.ofList (unevenText.toList.take 7)).utf8ByteSize ∧
    (lines unevenText.toList).length = 3 ∧ (⟨1, 9⟩ : Position) ≤ ⟨2, 0⟩ ∧
    offset unevenText.toList ⟨1, 9⟩ ≤ offset unevenText.toList ⟨2, 0⟩ ∧
    String.Pos.Raw.IsValid unevenText ⟨offset unevenText.toList ⟨1, 9⟩⟩ := by
  obtain ⟨hplace, hvalid, horder⟩ := offset_of_position unevenText
  have hposition : positionAt unevenText.toList 7 = ⟨3, 2⟩ := by decide
  have hshown : (shownLine unevenText.toList 3).length = 6 := by decide
  have hlines : (lines unevenText.toList).length = 3 := by decide
  have hle : (⟨1, 9⟩ : Position) ≤ ⟨2, 0⟩ := by decide
  refine ⟨hposition, hshown, ?_, hlines, hle, ?_, (hvalid ⟨1, 9⟩).2⟩
  · have hoffset := hplace 7
    rw [hposition] at hoffset
    exact hoffset (by decide)
  · exact horder _ _ (by decide) (by decide) hle

end ReaderGen.Source
