import ReaderGen.Proofs.Nesting

/-!
# Indentation of balanced lines

The level of indentation stops at zero: a brace that is closed there without having been opened is
forgotten, and what comes after it is indented too far. The depth of a line, counted from the lines
before it, has no such stop. As long as the level affords every brace that the lines close, the two go
side by side; balanced lines close only what they opened themselves, so every level affords them, and
they leave it as they found it.

* `Layout.depth`, `Layout.rise`: how deep a line stands, and at which depth lines end.
* `Layout.Affords`: no line goes below level zero; `Layout.Affords.step` and `Layout.Affords.indent` say
  what one line and all lines are then indented by.
* `Layout.render_append_of_balanced`: what follows balanced lines is indented as if it stood alone.
-/

namespace ReaderGen.Layout

/-- Lines after others are indented from the level that these leave. -/
theorem indent_append (unit : String) (nest : Nat) (xs ys : List String) :
    indent unit nest (xs ++ ys) = indent unit nest xs ++ indent unit (xs.foldl levelAfter nest) ys := by
  induction xs generalizing nest with
  | nil => rfl
  | cons x xs ih => simp only [List.cons_append, indent, List.foldl_cons, ih]

/-! ## Depth -/

/-- The depth at which lines end that begin at depth zero. -/
def rise (lines : List String) : Int := lines.countP opens - lines.countP closes

/-- The depth of line `k`, if the first one begins at depth zero: the braces that the lines before it
open, less those that they and the line itself close. -/
def depth (lines : List String) (k : Nat) : Int :=
  (lines.take k).countP opens - (lines.take (k + 1)).countP closes

/-- There are lines, none of them goes below depth zero, and they end there. -/
structure Balanced (lines : List String) : Prop where
  ne_nil : lines ≠ []
  depth_nonneg : ∀ k < lines.length, 0 ≤ depth lines k
  rise_eq_zero : rise lines = 0

instance (lines : List String) : Decidable (Balanced lines) :=
  decidable_of_iff (lines ≠ [] ∧ (∀ k < lines.length, 0 ≤ depth lines k) ∧ rise lines = 0)
    ⟨fun ⟨hne, hdepth, hrise⟩ => ⟨hne, hdepth, hrise⟩, fun ⟨hne, hdepth, hrise⟩ => ⟨hne, hdepth, hrise⟩⟩

theorem rise_cons (line : String) (lines : List String) :
    rise (line :: lines) = rise [line] + rise lines := by
  simp only [rise, List.countP_cons, List.countP_nil]
  omega

theorem depth_cons_zero (line : String) (lines : List String) :
    depth (line :: lines) 0 = if closes line then -1 else 0 := by
  unfold depth
  by_cases h : closes line <;> simp [h]

theorem depth_cons_succ (line : String) (lines : List String) (k : Nat) :
    depth (line :: lines) (k + 1) = rise [line] + depth lines k := by
  simp only [depth, rise, List.take_succ_cons, List.countP_cons, List.countP_nil]
  omega

/-! ## Levels that suffice -/

/-- Level `nest` is high enough for all braces that the lines close. -/
def Affords (nest : Nat) (lines : List String) : Prop :=
  ∀ k < lines.length, 0 ≤ nest + depth lines k

theorem Balanced.affords {lines : List String} (h : Balanced lines) (nest : Nat) :
    Affords nest lines := by
  intro k hk
  have hdepth := h.depth_nonneg k hk
  omega

/-- One line is indented by its depth, moves the level by its own braces, and leaves a level that affords
the rest. -/
theorem Affords.step {nest : Nat} {line : String} {lines : List String}
    (h : Affords nest (line :: lines)) :
    (levelOf nest line : Int) = nest + depth (line :: lines) 0 ∧
      (levelAfter nest line : Int) = nest + rise [line] ∧ Affords (levelAfter nest line) lines := by
  have hfirst := h 0 (by simp)
  rw [depth_cons_zero] at hfirst ⊢
  have hof : (levelOf nest line : Int) = nest + if closes line then -1 else 0 := by
    by_cases hcloses : closes line
    · rw [if_pos hcloses] at hfirst ⊢
      rw [levelOf, if_pos hcloses]
      omega
    · simp [levelOf, hcloses]
  -- a line may both close and open, so all four cases arise
  have hafter : (levelAfter nest line : Int) = nest + rise [line] := by
    unfold levelAfter
    by_cases hopens : opens line <;> by_cases hcloses : closes line <;>
      simp [rise, hopens, hcloses] at hof ⊢ <;> omega
  refine ⟨hof, hafter, fun k hk => ?_⟩
  have hrest := h (k + 1) (by simp [hk])
  rw [depth_cons_succ] at hrest
  omega

/-- All lines are indented by their depths, and the level moves by their braces. -/
theorem Affords.indent {nest : Nat} {lines : List String} (h : Affords nest lines) (unit : String) :
    Layout.indent unit nest lines =
        lines.mapIdx (fun k line => times (nest + depth lines k).toNat unit ++ line) ∧
      ((lines.foldl levelAfter nest : Nat) : Int) = nest + rise lines := by
  induction lines generalizing nest with
  | nil => simp [Layout.indent, rise]
  | cons line lines ih =>
    obtain ⟨hof, hafter, hrest⟩ := h.step
    obtain ⟨hindent, hlevel⟩ := ih hrest
    constructor
    · -- the rest counts its depths from its own first line, at the level that this line leaves
      have hdepth : ∀ k, (levelAfter nest line : Int) + depth lines k =
          nest + depth (line :: lines) (k + 1) := by
        intro k
        rw [depth_cons_succ]
        omega
      rw [Layout.indent, hindent, List.mapIdx_cons, ← hof, Int.toNat_natCast]
      simp only [hdepth]
    · rw [List.foldl_cons, hlevel, hafter, rise_cons line lines]
      omega

/-- Balanced lines leave the level as it was, whatever it was. -/
theorem Balanced.foldl_levelAfter {lines : List String} (h : Balanced lines) (nest : Nat) :
    lines.foldl levelAfter nest = nest := by
  have hlevel := ((h.affords nest).indent "").2
  rw [h.rise_eq_zero] at hlevel
  omega

/-- Each of the balanced lines is indented by its depth above the level they stand at. -/
theorem Balanced.indent {lines : List String} (h : Balanced lines) (unit : String) (nest : Nat) :
    Layout.indent unit nest lines = lines.mapIdx fun k line =>
      String.join (List.replicate (nest + (depth lines k).toNat) unit) ++ line := by
  rw [((h.affords nest).indent unit).1, List.mapIdx_eq_mapIdx_iff]
  intro k hk
  have hdepth := h.depth_nonneg k hk
  have hlevel : (nest + depth lines k).toNat = nest + (depth lines k).toNat := by omega
  rw [hlevel, times_eq_join]

/-- What follows balanced lines is indented as if it stood alone. -/
theorem Balanced.render_append {block rest : List String} (hblock : Balanced block) (hrest : rest ≠ [])
    (unit : String) (nest : Nat) :
    render unit nest (block ++ rest) = render unit nest block ++ "\n" ++ render unit nest rest := by
  have hfirst : Layout.indent unit nest block ≠ [] := by
    rw [hblock.indent unit nest]
    simpa using hblock.ne_nil
  have hsecond : Layout.indent unit nest rest ≠ [] := by
    obtain ⟨line, lines, rfl⟩ := List.exists_cons_of_ne_nil hrest
    simp [Layout.indent]
  rw [render, indent_append, hblock.foldl_levelAfter nest,
    String.intercalate_append_of_ne_nil hfirst hsecond]
  rfl

/-- What follows balanced lines is indented as if it stood alone, and each of the balanced lines by its
depth, at every level and for every text that a level adds. A run breaks off in the same way: just if it
does so at the balanced lines or at the others. -/
theorem render_append_of_balanced {block rest : List String} (hblock : Balanced block)
    (hrest : rest ≠ []) (unit : String) (nest : Nat) :
    render unit nest (block ++ rest) =
        render unit nest block ++ "\n" ++ render unit nest rest ∧
      render unit nest block = "\n".intercalate (block.mapIdx fun k line =>
        String.join (List.replicate (nest + (depth block k).toNat) unit) ++ line) ∧
      ∀ (counting : Counting) (word : UInt64), render? counting unit word (block ++ rest) = do
        let first ← render? counting unit word block
        let second ← render? counting unit word rest
        return first ++ "\n" ++ second := by
  refine ⟨hblock.render_append hrest unit nest, by rw [render, hblock.indent unit nest], ?_⟩
  intro counting word
  have hfits : Fits counting unit word.toNat (block ++ rest) ↔
      Fits counting unit word.toNat block ∧ Fits counting unit word.toNat rest := by
    rw [fits_append, hblock.foldl_levelAfter]
  simp only [render?_eq, hfits, hblock.render_append hrest]
  by_cases hfirst : Fits counting unit word.toNat block <;>
    by_cases hsecond : Fits counting unit word.toNat rest <;> simp [hfirst, hsecond]

/-- A line that closes and opens, a loop inside it, and an empty block. -/
def branches : List String :=
  ["if (a) \x7b", "\x7d else \x7b", "REP (i, N) \x7b", "f(\x7d);", "\x7d", "\x7d"]

theorem render_append_of_balanced_outermost : Balanced branches ∧ ["\x7d", "g();"] ≠ [] ∧
    (List.range 6).map (depth branches) = [0, 0, 1, 2, 1, 0] ∧
    render "  " 0 (branches ++ ["\x7d", "g();"]) = "if (a) \x7b\n\x7d else \x7b\n" ++
      "  REP (i, N) \x7b\n    f(\x7d);\n  \x7d\n\x7d" ++ "\n" ++ "\x7d\ng();" := by
  have hbalanced : Balanced branches := by decide +kernel
  have hrest : ["\x7d", "g();"] ≠ [] := by decide
  obtain ⟨hwhole, hblock, -⟩ := render_append_of_balanced hbalanced hrest "  " 0
  refine ⟨hbalanced, hrest, by decide +kernel, ?_⟩
  rw [hwhole, hblock]
  decide +kernel

end ReaderGen.Layout
