import ReaderGen.Text.Order

/-!
# Sets of names

A set of names is a list in code point order without repetition, so that equal sets are equal
values and listing one is deterministic.

* `mem_insert`, `mem_union`, `mem_erase`: the operations as seen through membership.
* `ext_mem`: sets with the same members are equal.
-/

namespace ReaderGen

open Text

/-- A finite set of names. -/
structure Names where
  /-- The names, in code point order. -/
  toList : List String
  sorted : toList.Pairwise (fun x y => textOrder x y = .lt)
deriving DecidableEq, Repr

namespace Names

instance : Membership String Names := ⟨fun s x => x ∈ s.toList⟩

instance (x : String) (s : Names) : Decidable (x ∈ s) :=
  inferInstanceAs (Decidable (x ∈ s.toList))

theorem mem_def {x : String} {s : Names} : x ∈ s ↔ x ∈ s.toList := Iff.rfl

def empty : Names := ⟨[], .nil⟩

instance : Inhabited Names := ⟨empty⟩

/-! ## Insertion -/

/-- Puts a name in its place, unless it is there already. -/
def insertSorted (x : String) : List String → List String
  | [] => [x]
  | y :: ys =>
    match textOrder x y with
    | .lt => x :: y :: ys
    | .eq => y :: ys
    | .gt => y :: insertSorted x ys

theorem mem_insertSorted {x y : String} {ys : List String} :
    x ∈ insertSorted y ys ↔ x = y ∨ x ∈ ys := by
  induction ys with
  | nil => simp [insertSorted]
  | cons z zs ih =>
    rw [insertSorted]
    cases h : textOrder y z with
    | lt => simp
    | eq =>
      rw [IsOrder.text.eq_iff] at h
      subst h
      simp
    | gt =>
      simp only [List.mem_cons, ih]
      exact ⟨fun h => h.elim (.inr ∘ .inl) (Or.imp_right .inr),
        fun h => h.elim (.inr ∘ .inl) (Or.imp_right .inr)⟩

theorem pairwise_insertSorted {x : String} {ys : List String}
    (h : ys.Pairwise (fun x y => textOrder x y = .lt)) :
    (insertSorted x ys).Pairwise (fun x y => textOrder x y = .lt) := by
  induction ys with
  | nil => simp [insertSorted]
  | cons y ys ih =>
    have ⟨hy, hys⟩ := List.pairwise_cons.1 h
    rw [insertSorted]
    cases hxy : textOrder x y with
    | lt =>
      refine List.pairwise_cons.2 ⟨fun z hz => ?_, h⟩
      rcases List.mem_cons.1 hz with rfl | hz
      · exact hxy
      · exact IsOrder.text.trans x y z hxy (hy z hz)
    | eq => exact h
    | gt =>
      refine List.pairwise_cons.2 ⟨fun z hz => ?_, ih hys⟩
      rcases mem_insertSorted.1 hz with rfl | hz
      · exact (IsOrder.text.gt_iff z y).1 hxy
      · exact hy z hz

/-! ## Operations -/

def insert (x : String) (s : Names) : Names :=
  ⟨insertSorted x s.toList, pairwise_insertSorted s.sorted⟩

def singleton (x : String) : Names := ⟨[x], List.pairwise_singleton _ x⟩

def ofList (xs : List String) : Names := xs.foldr insert empty

def union (s t : Names) : Names := s.toList.foldr insert t

/-- The union of a list of sets. -/
def unions (ss : List Names) : Names := ss.foldr union empty

def erase (x : String) (s : Names) : Names :=
  ⟨s.toList.filter (· ≠ x), s.sorted.filter _⟩

def contains (s : Names) (x : String) : Bool := decide (x ∈ s)

/-- Whether every name of the first set is in the second. -/
def subset (s t : Names) : Bool := s.toList.all t.contains

/-! ## Membership -/

@[simp] theorem not_mem_empty {x : String} : ¬x ∈ empty := by simp [mem_def, empty]

@[simp] theorem mem_insert {x y : String} {s : Names} : x ∈ s.insert y ↔ x = y ∨ x ∈ s :=
  mem_insertSorted

@[simp] theorem mem_singleton {x y : String} : x ∈ singleton y ↔ x = y := by
  simp [mem_def, singleton]

theorem mem_foldr_insert {x : String} {xs : List String} {t : Names} :
    x ∈ xs.foldr insert t ↔ x ∈ xs ∨ x ∈ t := by
  induction xs with
  | nil => simp
  | cons y ys ih => simp [ih, or_assoc]

@[simp] theorem mem_ofList {x : String} {xs : List String} : x ∈ ofList xs ↔ x ∈ xs := by
  simp [ofList, mem_foldr_insert]

@[simp] theorem mem_union {x : String} {s t : Names} : x ∈ s.union t ↔ x ∈ s ∨ x ∈ t :=
  mem_foldr_insert

@[simp] theorem mem_unions {x : String} {ss : List Names} : x ∈ unions ss ↔ ∃ s ∈ ss, x ∈ s := by
  induction ss with
  | nil => simp [unions]
  | cons s ss ih =>
    rw [show unions (s :: ss) = s.union (unions ss) from rfl, mem_union, ih]
    simp

@[simp] theorem mem_erase {x y : String} {s : Names} : x ∈ s.erase y ↔ x ∈ s ∧ x ≠ y := by
  simp [mem_def, erase]

@[simp] theorem contains_iff {s : Names} {x : String} : s.contains x = true ↔ x ∈ s := by
  simp [contains]

theorem subset_iff {s t : Names} : s.subset t = true ↔ ∀ x ∈ s, x ∈ t := by
  simp [subset, mem_def]

/-! ## Equality -/

/-- The first of the names is smaller than the others, so two lists begin alike. -/
theorem eq_of_mem_iff : ∀ {xs ys : List String},
    xs.Pairwise (fun x y => textOrder x y = .lt) → ys.Pairwise (fun x y => textOrder x y = .lt) →
    (∀ x, x ∈ xs ↔ x ∈ ys) → xs = ys
  | [], [], _, _, _ => rfl
  | [], y :: _, _, _, h => by simpa using h y
  | x :: _, [], _, _, h => by simpa using h x
  | x :: xs, y :: ys, hx, hy, h => by
    have ⟨hx, hxs⟩ := List.pairwise_cons.1 hx
    have ⟨hy, hys⟩ := List.pairwise_cons.1 hy
    have e : x = y := by
      rcases List.mem_cons.1 ((h x).1 (.head _)) with e | hxy
      · exact e
      · rcases List.mem_cons.1 ((h y).2 (.head _)) with e | hyx
        · exact e.symm
        · exact absurd (hx y hyx) (IsOrder.text.lt_asymm (hy x hxy))
    subst e
    have hne : ∀ z, z ∈ xs → z ≠ x := fun z hz e =>
      IsOrder.text.lt_irrefl x (by simpa [e] using hx z hz)
    have hne' : ∀ z, z ∈ ys → z ≠ x := fun z hz e =>
      IsOrder.text.lt_irrefl x (by simpa [e] using hy z hz)
    rw [eq_of_mem_iff hxs hys fun z => ?_]
    constructor
    · intro hz
      exact (List.mem_cons.1 ((h z).1 (.tail _ hz))).resolve_left (hne z hz)
    · intro hz
      exact (List.mem_cons.1 ((h z).2 (.tail _ hz))).resolve_left (hne' z hz)

theorem ext_mem {s t : Names} (h : ∀ x, x ∈ s ↔ x ∈ t) : s = t := by
  cases s
  cases t
  congr
  exact eq_of_mem_iff (by assumption) (by assumption) h

end Names

end ReaderGen
