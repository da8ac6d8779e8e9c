import ReaderGen.Text.Identifier.Table

/-!
# Identifiers

Which characters make an identifier: a letter or an underscore, then letters, digits, underscores
and marks, of any script. No normalisation takes place, so two spellings are two identifiers.
-/

namespace ReaderGen.Text

/-- Whether a code point lies in one of the closed ranges. -/
def inRanges (ranges : List (Nat × Nat)) (code : Nat) : Bool :=
  ranges.any fun r => r.1 ≤ code && code ≤ r.2

/-- A character that may begin an identifier. -/
def isIdentifierStart (c : Char) : Bool :=
  if c.toNat < 0x80 then c.isAlpha || c = '_' else inRanges identifierStartRanges c.toNat

/-- A character that may stand in an identifier. -/
def isIdentifierPart (c : Char) : Bool :=
  if c.toNat < 0x80 then c.isAlphanum || c = '_'
  else inRanges identifierStartRanges c.toNat || inRanges identifierPartRanges c.toNat

theorem isIdentifierPart_of_start {c : Char} (h : isIdentifierStart c = true) :
    isIdentifierPart c = true := by
  unfold isIdentifierStart at h
  unfold isIdentifierPart
  split
  · rename_i hc
    rw [if_pos hc] at h
    simp only [Bool.or_eq_true] at h ⊢
    exact h.imp (fun ha => by simp [Char.isAlphanum, ha]) id
  · rename_i hc
    rw [if_neg hc] at h
    simp [h]

/-- The identifier at the beginning of a text, if there is one. -/
def identifierAt : List Char → Option (List Char)
  | [] => none
  | c :: cs => if isIdentifierStart c then some (c :: cs.takeWhile isIdentifierPart) else none

end ReaderGen.Text
