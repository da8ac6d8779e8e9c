import ReaderGen.Layout

/-!
# When lines can be indented

A run that indents lines can break off in two ways. The indentation of a line is a text repeated as often
as the level of the line says, and may be longer than a text can be; and the level may pass the last
machine word. The two do not meet: if there is any indentation at all, it is too long before the level has
passed the last word. So where levels wrap around nothing is indented by them, and the text is the one that
unbounded levels give.

* `Layout.indent`, `Layout.render`: the text that unbounded levels give.
* `Layout.levels`: the level of each line; `Layout.Fits`: what a run needs of the levels.
* `Layout.wordOf_eq`, `Layout.wordAfter?_eq`: how one line moves a level that is counted in words.
* `Layout.indent?_eq`, `Layout.render?_eq`: a run gives the indented text just if it fits.
-/

namespace ReaderGen.Layout

/-! ## Unbounded levels -/

/-- The level of a line that follows lines of level `nest`. -/
def levelOf (nest : Nat) (line : String) : Nat := if closes line then nest - 1 else nest

/-- The level of the lines after a line that follows lines of level `nest`. -/
def levelAfter (nest : Nat) (line : String) : Nat :=
  if opens line then levelOf nest line + 1 else levelOf nest line

/-- Indents each line by its level. -/
def indent (unit : String) : Nat → List String → List String
  | _, [] => []
  | nest, line :: lines =>
    (times (levelOf nest line) unit ++ line) :: indent unit (levelAfter nest line) lines

/-- The indented lines as one text. -/
def render (unit : String) (nest : Nat) (lines : List String) : String :=
  "\n".intercalate (indent unit nest lines)

/-- The levels of lines that follow lines of level `nest`. -/
def levels : Nat → List String → List Nat
  | _, [] => []
  | nest, line :: lines => levelOf nest line :: levels (levelAfter nest line) lines

/-- Lines after others are on the levels that follow the one these leave. -/
theorem levels_append (nest : Nat) (xs ys : List String) :
    levels nest (xs ++ ys) = levels nest xs ++ levels (xs.foldl levelAfter nest) ys := by
  induction xs generalizing nest with
  | nil => rfl
  | cons x xs ih => simp only [List.cons_append, levels, List.foldl_cons, ih]

/-- A line is indented by its level. -/
theorem indent_eq_zipWith (unit : String) (nest : Nat) (lines : List String) :
    indent unit nest lines =
      List.zipWith (fun level line => times level unit ++ line) (levels nest lines) lines := by
  induction lines generalizing nest with
  | nil => rfl
  | cons line lines ih => rw [indent, levels, List.zipWith_cons_cons, ih]

/-! ## Lines that fit -/

/-- No indentation is longer than a text can be. If levels are checked, none that lines lead to is past
the last word. -/
structure Fits (counting : Counting) (unit : String) (nest : Nat) (lines : List String) : Prop where
  capacity : ∀ level ∈ levels nest lines, unit.utf8ByteSize * level ≤ capacity
  words : counting = .checked → ∀ k ≤ lines.length, (lines.take k).foldl levelAfter nest < UInt64.size

instance (counting : Counting) (unit : String) (nest : Nat) (lines : List String) :
    Decidable (Fits counting unit nest lines) :=
  decidable_of_iff ((∀ level ∈ levels nest lines, unit.utf8ByteSize * level ≤ capacity) ∧
      (counting = .checked → ∀ k ≤ lines.length, (lines.take k).foldl levelAfter nest < UInt64.size))
    ⟨fun ⟨hcapacity, hwords⟩ => ⟨hcapacity, hwords⟩, fun ⟨hcapacity, hwords⟩ => ⟨hcapacity, hwords⟩⟩

section

variable {counting : Counting} {unit : String} {nest : Nat}

theorem fits_nil : Fits counting unit nest [] ↔ (counting = .checked → nest < UInt64.size) := by
  constructor
  · intro h hchecked
    exact h.words hchecked 0 (Nat.le_refl 0)
  · intro h
    refine ⟨by simp [levels], fun hchecked k hk => ?_⟩
    simpa using h hchecked

/-- What the first line needs, and what the others need after it. -/
theorem fits_cons {line : String} {lines : List String} :
    Fits counting unit nest (line :: lines) ↔
      unit.utf8ByteSize * levelOf nest line ≤ capacity ∧ (counting = .checked → nest < UInt64.size) ∧
        Fits counting unit (levelAfter nest line) lines := by
  constructor
  · intro h
    refine ⟨h.capacity _ (.head _), fun hchecked => h.words hchecked 0 (Nat.zero_le _), ?_, ?_⟩
    · exact fun level hlevel => h.capacity level (.tail _ hlevel)
    · exact fun hchecked k hk => h.words hchecked (k + 1) (by simpa using hk)
  · rintro ⟨hfirst, hnest, hrest⟩
    refine ⟨List.forall_mem_cons.2 ⟨hfirst, hrest.capacity⟩, fun hchecked k hk => ?_⟩
    cases k with
    | zero => exact hnest hchecked
    | succ k => exact hrest.words hchecked k (by simpa using hk)

/-- Lines after others fit from the level that these leave. -/
theorem fits_append {xs ys : List String} :
    Fits counting unit nest (xs ++ ys) ↔
      Fits counting unit nest xs ∧ Fits counting unit (xs.foldl levelAfter nest) ys := by
  induction xs generalizing nest with
  | nil =>
    refine ⟨fun h => ⟨fits_nil.2 fun hchecked => h.words hchecked 0 (Nat.zero_le _), h⟩, And.right⟩
  | cons x xs ih => simp only [List.cons_append, fits_cons, ih, List.foldl_cons, and_assoc]

end

/-! ## One line -/

/-- A line is on the same level, counted in words or not. -/
theorem wordOf_eq (nest : UInt64) (line : String) :
    (wordOf nest line).toNat = levelOf nest.toNat line := by
  unfold wordOf levelOf
  by_cases hcloses : closes line
  · by_cases hzero : nest = 0
    · simp [hcloses, hzero]
    · have hle : 1 ≤ nest := by
        rw [UInt64.le_iff_toNat_le, UInt64.toNat_one, Nat.one_le_iff_ne_zero]
        exact fun h => hzero (UInt64.toNat_inj.1 h)
      simp [hcloses, hzero, UInt64.toNat_sub_of_le nest 1 hle]
  · simp [hcloses]

/-- The level after a line is the next word, if there is one. -/
theorem wordAfter?_eq {nest : UInt64} {line : String} (h : levelAfter nest.toNat line < UInt64.size)
    (counting : Counting) :
    ∃ after, wordAfter? counting nest line = some after ∧ after.toNat = levelAfter nest.toNat line := by
  have hof := wordOf_eq nest line
  unfold levelAfter at h ⊢
  unfold wordAfter?
  by_cases hopens : opens line
  · rw [if_pos hopens] at h ⊢
    have hnext : (wordOf nest line + 1).toNat = levelOf nest.toNat line + 1 := by
      rw [UInt64.toNat_add, hof]
      exact Nat.mod_eq_of_lt h
    have hne : wordOf nest line + 1 ≠ 0 := by
      intro hzero
      rw [hzero] at hnext
      simp at hnext
    rw [if_pos hopens, Counting.up?, if_neg fun hlast => hne hlast.2]
    exact ⟨_, rfl, hnext⟩
  · rw [if_neg hopens, if_neg hopens]
    exact ⟨_, rfl, hof⟩

/-- Past the last word a run breaks off if levels are checked. -/
theorem wordAfter?_eq_none {nest : UInt64} {line : String} (h : ¬ levelAfter nest.toNat line < UInt64.size) :
    wordAfter? .checked nest line = none := by
  have hof := wordOf_eq nest line
  have hlt : (wordOf nest line).toNat < UInt64.size := (wordOf nest line).toNat_lt
  unfold levelAfter at h
  by_cases hopens : opens line
  · rw [if_pos hopens] at h
    have hlast : wordOf nest line + 1 = 0 := by
      rw [← UInt64.toNat_inj, UInt64.toNat_add, hof]
      have : levelOf nest.toNat line + 1 = UInt64.size := by omega
      rw [UInt64.toNat_one, this]
      rfl
    rw [wordAfter?, if_pos hopens, Counting.up?, if_pos ⟨rfl, hlast⟩]
  · rw [if_neg hopens] at h
    omega

/-- Where there is any indentation, a level whose indentation fits is far from the last word. -/
theorem levelAfter_lt {unit : String} (hunit : unit ≠ "") {nest : Nat} {line : String}
    (h : unit.utf8ByteSize * levelOf nest line ≤ capacity) : levelAfter nest line < UInt64.size := by
  have hpos : 0 < unit.utf8ByteSize :=
    Nat.pos_of_ne_zero (mt String.utf8ByteSize_eq_zero_iff.1 hunit)
  have hlevel : levelOf nest line ≤ capacity := Nat.le_trans (Nat.le_mul_of_pos_left _ hpos) h
  have hwords : capacity + 1 < UInt64.size := by decide
  unfold levelAfter
  split <;> omega

/-! ## Runs -/

/-- Without any indentation every level gives the same lines, and one that wraps around does not matter. -/
theorem indent_empty (nest : Nat) (lines : List String) : indent "" nest lines = lines := by
  induction lines generalizing nest with
  | nil => rfl
  | cons line lines ih => simp [indent, times, ih]

theorem indent?_empty (nest : UInt64) (lines : List String) :
    indent? .wrapping "" nest lines = some lines := by
  induction lines generalizing nest with
  | nil => rfl
  | cons line lines ih =>
    have hafter : ∃ after, wordAfter? .wrapping nest line = some after := by
      unfold wordAfter? Counting.up?
      split <;> exact ⟨_, rfl⟩
    obtain ⟨after, hafter⟩ := hafter
    simp [indent?, times?, times, hafter, ih]

/-- A run gives the indented lines just if they fit. -/
theorem indent?_eq (counting : Counting) (unit : String) (nest : UInt64) (lines : List String) :
    indent? counting unit nest lines =
      if Fits counting unit nest.toNat lines then some (indent unit nest.toNat lines) else none := by
  by_cases hwraps : unit = "" ∧ counting = .wrapping
  · obtain ⟨rfl, rfl⟩ := hwraps
    have hfits : Fits .wrapping "" nest.toNat lines := ⟨by simp, nofun⟩
    rw [indent?_empty, if_pos hfits, indent_empty]
  -- otherwise a run breaks off before its words wrap around
  induction lines generalizing nest with
  | nil => rw [if_pos (fits_nil.2 fun _ => nest.toNat_lt)]; rfl
  | cons line lines ih =>
    rw [indent?, times?, wordOf_eq]
    by_cases hcapacity : unit.utf8ByteSize * levelOf nest.toNat line ≤ capacity
    · rw [if_pos hcapacity]
      by_cases hlast : levelAfter nest.toNat line < UInt64.size
      · obtain ⟨after, hafter, hlevel⟩ := wordAfter?_eq hlast counting
        have hlines := ih after
        rw [hlevel] at hlines
        by_cases hrest : Fits counting unit (levelAfter nest.toNat line) lines
        · have hfits := fits_cons.2 ⟨hcapacity, fun _ => nest.toNat_lt, hrest⟩
          simp [hafter, hlines, hrest, hfits, indent]
        · have hfits : ¬ Fits counting unit nest.toNat (line :: lines) :=
            fun h => hrest (fits_cons.1 h).2.2
          simp [hafter, hlines, hrest, hfits]
      · have hunit : unit = "" :=
          Decidable.byContradiction fun hunit => hlast (levelAfter_lt hunit hcapacity)
        obtain rfl : counting = .checked := by
          cases counting with
          | wrapping => exact absurd ⟨hunit, rfl⟩ hwraps
          | checked => rfl
        have hfits : ¬ Fits .checked unit nest.toNat (line :: lines) :=
          fun h => hlast ((fits_cons.1 h).2.2.words rfl 0 (Nat.zero_le _))
        rw [wordAfter?_eq_none hlast, if_neg hfits]
        rfl
    · have hfits : ¬ Fits counting unit nest.toNat (line :: lines) := fun h => hcapacity (fits_cons.1 h).1
      rw [if_neg hcapacity, if_neg hfits]
      rfl

/-- So the text of a run is the one that unbounded levels give. -/
theorem render?_eq (counting : Counting) (unit : String) (nest : UInt64) (lines : List String) :
    render? counting unit nest lines =
      if Fits counting unit nest.toNat lines then some (render unit nest.toNat lines) else none := by
  rw [render?, indent?_eq]
  split <;> rfl

end ReaderGen.Layout
