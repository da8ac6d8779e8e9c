import ReaderGen.Text.Source

/-!
# Byte offsets of positions

The position of a character is found by counting newlines and the characters after the last of them;
the offset of that position adds up the lines before it again. Nothing is lost on the way, unless the
column lies in the carriage returns at the end of its line: these are not part of the line, and the
offset stays before them.

* `Source.lines_append`: the line in which a part of a text ends, and where that line begins.
* `Source.offsetAt_eq_byteLength`: the offset of a character is the number of bytes before it.
* `Source.Visible`: the characters of which this holds because no carriage return is before them, or
  because something is shown after them.
-/

namespace ReaderGen.Source

theorem byteLength_eq_length {cs : List Char} (h : ∀ c ∈ cs, c.utf8Size = 1) :
    byteLength cs = cs.length := by
  induction cs with
  | nil => rfl
  | cons c cs ih =>
    have hc := h c (.head _)
    have hcs := ih fun d hd => h d (.tail _ hd)
    simp only [List.length_cons, byteLength]
    omega

/-! ## Lines -/

/-- What stands after the last newline of a text. -/
def lastLine (b : List Char) : List Char := (b.reverse.takeWhile (· ≠ '\n')).reverse

theorem lastLine_of_notMem {b : List Char} (h : '\n' ∉ b) : lastLine b = b := by
  have hall : ∀ c ∈ b.reverse, decide (c ≠ '\n') = true := by
    intro c hc
    refine decide_eq_true ?_
    rintro rfl
    exact h (List.mem_reverse.1 hc)
  have htake : (b.reverse ++ []).takeWhile (fun c => decide (c ≠ '\n')) = b.reverse ++ [] :=
    List.takeWhile_append_of_pos hall
  rw [List.append_nil] at htake
  rw [lastLine, htake, List.reverse_reverse]

theorem newline_notMem_takeWhile (l : List Char) : '\n' ∉ l.takeWhile (fun c => decide (c ≠ '\n')) :=
  fun h => absurd (List.all_eq_true.1 (List.all_takeWhile (l := l)) _ h) (by decide)

theorem lastLine_cons_of_mem {b : List Char} (h : '\n' ∈ b) (c : Char) :
    lastLine (c :: b) = lastLine b := by
  have hshort : (b.reverse.takeWhile (fun c => decide (c ≠ '\n'))).length ≠ b.reverse.length := by
    intro hlen
    have hself := (List.takeWhile_prefix (l := b.reverse) fun c => decide (c ≠ '\n')).eq_of_length hlen
    apply newline_notMem_takeWhile b.reverse
    rw [hself]
    exact List.mem_reverse.2 h
  rw [lastLine, List.reverse_cons, List.takeWhile_append, if_neg hshort, lastLine]

theorem lastLine_newline (b : List Char) : lastLine ('\n' :: b) = lastLine b := by
  rw [lastLine, List.reverse_cons, List.takeWhile_append]
  split
  · rename_i hlen
    have hself := (List.takeWhile_prefix (l := b.reverse) fun c => decide (c ≠ '\n')).eq_of_length hlen
    rw [lastLine, hself]
    simp
  · rfl

theorem exists_lines (cs : List Char) : ∃ ls, lines cs = cs.takeWhile (· ≠ '\n') :: ls := by
  cases cs with
  | nil => exact ⟨[], rfl⟩
  | cons c cs =>
    by_cases hc : c = '\n'
    · exact ⟨lines cs, by simp [lines, hc]⟩
    · obtain ⟨ls, hls⟩ := exists_lines cs
      exact ⟨ls, by simp [lines, hc, hls]⟩

/-- The line in which the first part of a text ends, and where that line begins. -/
theorem lines_append (b a : List Char) :
    (lines (b ++ a)).getD (b.count '\n') [] = lastLine b ++ a.takeWhile (· ≠ '\n') ∧
    lineStart (lines (b ++ a)) (b.count '\n') + byteLength (lastLine b) = byteLength b ∧
    b.count '\n' < (lines (b ++ a)).length := by
  induction b with
  | nil =>
    obtain ⟨ls, hls⟩ := exists_lines a
    simp [hls, lastLine, lineStart, byteLength]
  | cons c b ih =>
    obtain ⟨hline, hstart, hlen⟩ := ih
    obtain ⟨ls, hls⟩ := exists_lines (b ++ a)
    by_cases hc : c = '\n'
    · subst hc
      have hlines : lines ('\n' :: b ++ a) = [] :: lines (b ++ a) := by simp [lines]
      rw [hlines, lastLine_newline, List.count_cons_self, List.getD_cons_succ, lineStart,
        List.length_cons]
      refine ⟨hline, ?_, by omega⟩
      have hsize : '\n'.utf8Size = 1 := by decide
      simp only [byteLength]
      omega
    · have hlines : lines (c :: b ++ a) = (c :: (b ++ a).takeWhile (· ≠ '\n')) :: ls := by
        simp [lines, hc, hls]
      rw [hls] at hline hstart hlen
      rw [hlines, List.count_cons_of_ne hc]
      by_cases hb : '\n' ∈ b
      · have hpos : 0 < b.count '\n' := List.count_pos_iff.2 hb
        obtain ⟨k, hk⟩ := Nat.exists_eq_succ_of_ne_zero (Nat.pos_iff_ne_zero.1 hpos)
        rw [hk] at hline hstart hlen ⊢
        rw [lastLine_cons_of_mem hb]
        refine ⟨hline, ?_, hlen⟩
        simp only [lineStart, byteLength] at hstart ⊢
        omega
      · have hzero : b.count '\n' = 0 := List.count_eq_zero.2 hb
        rw [lastLine_of_notMem hb] at hline
        rw [hzero] at hline hlen ⊢
        rw [lastLine_of_notMem (by simp [hb, Ne.symm hc])]
        refine ⟨?_, ?_, hlen⟩
        · simpa using hline
        · simp [lineStart]

/-! ## Offsets -/

theorem trimEnd_prefix (line : List Char) : trimEnd line <+: line := by
  have h := List.dropWhile_suffix (l := line.reverse) fun c => c = '\r' || c = '\n'
  rw [← List.reverse_prefix, List.reverse_reverse] at h
  exact h

/-- The offset of a character is the number of bytes before it, unless the character is beyond the end
of its line. -/
theorem offsetAt_eq_byteLength {text : List Char} {p : Nat}
    (h : (lastLine (text.take p)).length ≤
      (trimEnd (lastLine (text.take p) ++ (text.drop p).takeWhile (· ≠ '\n'))).length) :
    offsetAt text p = byteLength (text.take p) := by
  obtain ⟨hline, hstart, hlen⟩ := lines_append (text.take p) (text.drop p)
  rw [List.take_append_drop] at hline hstart hlen
  have hcolumn : ((text.take p).reverse.takeWhile (· ≠ '\n')).length =
      (lastLine (text.take p)).length := by
    rw [lastLine, List.length_reverse]
  have htake : (trimEnd (lastLine (text.take p) ++ (text.drop p).takeWhile (· ≠ '\n'))).take
      (lastLine (text.take p)).length = lastLine (text.take p) := by
    obtain ⟨ends, hends⟩ :=
      trimEnd_prefix (lastLine (text.take p) ++ (text.drop p).takeWhile (· ≠ '\n'))
    rw [← List.take_append_of_le_length h, hends, List.take_left]
  have hk : min (1 + (text.take p).count '\n' - 1) ((lines text).length - 1) =
      (text.take p).count '\n' := by omega
  rw [offsetAt, offset, positionAt]
  dsimp only
  rw [hk, hline, hcolumn, htake, hstart]

theorem trimEnd_append (x y : List Char) :
    trimEnd (x ++ y) = if trimEnd y = [] then trimEnd x else x ++ trimEnd y := by
  rw [trimEnd, List.reverse_append, List.dropWhile_append]
  simp only [trimEnd, List.reverse_eq_nil_iff, List.isEmpty_iff]
  split
  · rfl
  · rw [List.reverse_append, List.reverse_reverse]

/-- Everything up to a character that is no line end is kept. -/
theorem trimEnd_concat (x : List Char) {c : Char} (hcr : c ≠ '\r') (hlf : c ≠ '\n') (y : List Char) :
    ∃ z, trimEnd (x ++ c :: y) = x ++ c :: z := by
  have hc : trimEnd [c] = [c] := by simp [trimEnd, hcr, hlf]
  have hcy : ∃ z, trimEnd ([c] ++ y) = c :: z := by
    rw [trimEnd_append]
    split
    · exact ⟨[], hc⟩
    · exact ⟨trimEnd y, rfl⟩
  obtain ⟨z, hz⟩ := hcy
  refine ⟨z, ?_⟩
  rw [trimEnd_append, ← List.singleton_append, hz, if_neg (List.cons_ne_nil c z)]

theorem newline_notMem_lastLine (b : List Char) : '\n' ∉ lastLine b :=
  fun h => newline_notMem_takeWhile b.reverse (List.mem_reverse.1 h)

theorem lastLine_suffix (b : List Char) : lastLine b <:+ b := by
  have h := List.takeWhile_prefix (l := b.reverse) fun c => decide (c ≠ '\n')
  rw [← List.reverse_suffix, List.reverse_reverse] at h
  exact h

/-- No carriage return stands before the character, or the character itself is shown. -/
def Visible (text : List Char) (p : Nat) : Prop :=
  (text.take p).getLast? ≠ some '\r' ∨ ∃ c ∈ (text.drop p).head?, c ≠ '\r' ∧ c ≠ '\n'

theorem Visible.offsetAt {text : List Char} {p : Nat} (h : Visible text p) :
    offsetAt text p = byteLength (text.take p) := by
  apply offsetAt_eq_byteLength
  rcases h with hlast | ⟨c, hc, hcr, hlf⟩
  · cases hline : (lastLine (text.take p)).getLast? with
    | none => simp [List.getLast?_eq_none_iff.1 hline]
    | some c =>
      obtain ⟨line, hline⟩ := List.getLast?_eq_some_iff.1 hline
      obtain ⟨before, hbefore⟩ := lastLine_suffix (text.take p)
      have hcr : c ≠ '\r' := by
        rintro rfl
        rw [← hbefore, hline] at hlast
        simp at hlast
      have hlf : c ≠ '\n' := by
        rintro rfl
        exact newline_notMem_lastLine (text.take p) (by simp [hline])
      rw [hline, List.append_assoc]
      obtain ⟨z, hz⟩ := trimEnd_concat line hcr hlf ((text.drop p).takeWhile (· ≠ '\n'))
      rw [List.singleton_append, hz]
      simp
  · obtain ⟨cs, hcs⟩ := List.head?_eq_some_iff.1 hc
    rw [hcs, List.takeWhile_cons, if_pos (by simpa using hlf)]
    obtain ⟨z, hz⟩ := trimEnd_concat (lastLine (text.take p)) hcr hlf (cs.takeWhile (· ≠ '\n'))
    rw [hz]
    simp

end ReaderGen.Source
