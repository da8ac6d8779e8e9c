import ReaderGen.Error
import ReaderGen.Names

/-!
# Declarations

A variable is declared with the sizes of its dimensions, outermost first, the smallest index of each
of them, and the variables that have to be read before its sizes are known.
-/

namespace ReaderGen

/-- A dimension of an array: its size, and its smallest index. -/
structure Dimension where
  size : String
  base : String
deriving DecidableEq, Repr

/-- A declaration. A variable without dimensions is a scalar. -/
structure Decl where
  name : String
  dims : List Dimension
  /-- The variables that have to be read before. -/
  after : Names
deriving DecidableEq, Repr

namespace Decl

def sizes (d : Decl) : List String := d.dims.map (·.size)

def bases (d : Decl) : List String := d.dims.map (·.base)

/-- Pairs sizes with bases, of which there must be as many. -/
def ofLists (name : String) (sizes bases : List String) (after : Names) : Except FormatError Decl :=
  if sizes.length = bases.length then .ok ⟨name, List.zipWith Dimension.mk sizes bases, after⟩
  else .error (.dimsBasesMismatch name sizes.length bases.length)

/-- A dimension as text; a base of zero is left out. -/
def dimText (dim : Dimension) : String :=
  if dim.base = "0" then "[" ++ dim.size ++ "]" else "[" ++ dim.size ++ "; from " ++ dim.base ++ "]"

/-- A declaration as text: `A[N; from 1][M] after M, N`. -/
def text (d : Decl) : String :=
  d.name ++ String.join (d.dims.map dimText) ++
    if d.after.toList.isEmpty then "" else " after " ++ ", ".intercalate d.after.toList

theorem map_zipWith_mk : ∀ {sizes bases : List String}, sizes.length = bases.length →
    (List.zipWith Dimension.mk sizes bases).map (·.size) = sizes ∧
      (List.zipWith Dimension.mk sizes bases).map (·.base) = bases
  | [], [], _ => by simp
  | [], _ :: _, h => by simp at h
  | _ :: _, [], h => by simp at h
  | s :: ss, b :: bs, h => by
    have ⟨hs, hb⟩ := map_zipWith_mk (Nat.succ.inj h)
    simp [hs, hb]

theorem eq_of_ofLists {name : String} {sizes bases : List String} {after : Names} {d : Decl}
    (h : ofLists name sizes bases after = .ok d) :
    d.name = name ∧ d.sizes = sizes ∧ d.bases = bases ∧ d.after = after := by
  unfold ofLists at h
  split at h
  · cases h
    rename_i same
    exact ⟨rfl, (map_zipWith_mk same).1, (map_zipWith_mk same).2, rfl⟩
  · cases h

end Decl

end ReaderGen
