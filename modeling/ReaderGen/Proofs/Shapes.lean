import Mathlib.Data.List.Chain
import Mathlib.Logic.Function.Iterate
import Mathlib.Order.Monotone.Basic
import ReaderGen.Cpp.Type

/-!
# Array types and their constructors

A shape grows from the inside out: a scalar is wrapped in one vector after another, the last size first.
What the wrapping sees of the inner shape is whether its constructor is empty and how its type ends. Both
tell the same, whether there is an inner vector at all, so the shape can also be read from the outside in.

* `type_shape`: the type is that of vectors of vectors, as many as there are sizes; `type_shape_eq_iff`:
  it tells their number.
* `Angles`: the angle brackets that are open in a text; `Angled`: they are balanced and nested so deep.
* `shape_unfolds_outsideIn`: the constructor and the type from the outside in, and the brackets of the type.
-/

namespace ReaderGen.Cpp

/-! ## The type tells the number of sizes -/

theorem type_shape (std : String) (scalar : Scalar) (sizes : List String) :
    (shape std scalar sizes).type = (vectorOf std)^[sizes.length] scalar.name := by
  induction sizes with
  | nil => rfl
  | cons size sizes ih =>
    rw [List.length_cons, Function.iterate_succ_apply', ← ih]
    rfl

theorem length_lt_vectorOf (std item : String) : item.length < (vectorOf std item).length := by
  unfold vectorOf
  simp only [String.length_append]
  have : 0 < ">".length := by decide
  omega

/-- Each vector makes the type longer. -/
theorem strictMono_length_iterate (std item : String) :
    StrictMono fun n => ((vectorOf std)^[n] item).length := by
  apply strictMono_nat_of_lt_succ
  intro n
  rw [Function.iterate_succ_apply']
  exact length_lt_vectorOf std _

theorem type_shape_eq_iff {std : String} {scalar : Scalar} {xs ys : List String} :
    (shape std scalar xs).type = (shape std scalar ys).type ↔ xs.length = ys.length := by
  rw [type_shape, type_shape]
  constructor
  · intro h
    exact (strictMono_length_iterate std scalar.name).injective (congrArg String.length h)
  · intro h
    rw [h]

/-! ## The ends of the inner shape -/

theorem ctor_shape_eq_empty_iff {std : String} {scalar : Scalar} {sizes : List String} :
    (shape std scalar sizes).ctor = "" ↔ sizes = [] := by
  cases sizes with
  | nil => exact iff_of_true rfl rfl
  | cons size sizes =>
    refine iff_of_false (fun h => ?_) (List.cons_ne_nil _ _)
    -- the constructor begins with a bracket
    have hlist := congrArg String.toList h
    simp only [shape, List.foldr_cons, Shape.vector] at hlist
    split at hlist <;> simp at hlist

/-- A vector type is a pair of brackets after a name. -/
theorem toList_vectorOf (std item : String) : (vectorOf std item).toList =
    (std ++ "vector").toList ++ '<' :: (item.toList ++
      (if item.toList.getLast? = some '>' then [' '] else []) ++ ['>']) := by
  unfold vectorOf
  split <;> simp

theorem getLast?_type_shape_iff {std : String} {scalar : Scalar} {sizes : List String} :
    (shape std scalar sizes).type.toList.getLast? = some '>' ↔ sizes ≠ [] := by
  cases sizes with
  | nil =>
    show scalar.name.toList.getLast? = some '>' ↔ [] ≠ []
    cases scalar <;> decide
  | cons size sizes =>
    refine iff_of_true ?_ (List.cons_ne_nil _ _)
    show (vectorOf std _).toList.getLast? = some '>'
    rw [toList_vectorOf, ← List.cons_append, ← List.append_assoc, List.getLast?_concat]

/-! ## Angle brackets -/

/-- The angle brackets that are open at a place of a text, and the most that were open up to it. -/
structure Angles where
  depth : Nat
  deepest : Nat
  depth_le : depth ≤ deepest
deriving DecidableEq, Repr

namespace Angles

def start : Angles := ⟨0, 0, Nat.le_refl 0⟩

def opened (a : Angles) : Angles := ⟨a.depth + 1, max a.deepest (a.depth + 1), Nat.le_max_right _ _⟩

/-- A closing bracket needs an open one. -/
def closed? : Angles → Option Angles
  | ⟨0, _, _⟩ => none
  | ⟨depth + 1, deepest, h⟩ => some ⟨depth, deepest, Nat.le_of_succ_le h⟩

/-- Goes on by one character. -/
def step (a : Angles) (c : Char) : Option Angles :=
  if c = '<' then some a.opened else if c = '>' then a.closed? else some a

/-- The place after a text with brackets of its own, nested so deep. -/
def deepen (n : Nat) (a : Angles) : Angles :=
  ⟨a.depth, max a.deepest (a.depth + n), Nat.le_trans a.depth_le (Nat.le_max_left _ _)⟩

theorem deepen_zero (a : Angles) : a.deepen 0 = a := by
  simp [deepen, Nat.max_eq_left a.depth_le]

theorem deepen_deepen (m n : Nat) (a : Angles) : (a.deepen m).deepen n = a.deepen (max m n) := by
  simp only [deepen, Angles.mk.injEq, true_and]
  omega

theorem closed?_opened_deepen (n : Nat) (a : Angles) :
    (a.opened.deepen n).closed? = some (a.deepen (n + 1)) := by
  simp only [opened, deepen, closed?, Option.some.injEq, Angles.mk.injEq, true_and]
  omega

/-- The brackets among the characters are balanced, wherever they stand, and nested so deep. -/
def Spans (n : Nat) (cs : List Char) : Prop := ∀ a : Angles, cs.foldlM step a = some (a.deepen n)

theorem Spans.plain {cs : List Char} (h : ∀ c ∈ cs, c ≠ '<' ∧ c ≠ '>') : Spans 0 cs := by
  intro a
  rw [deepen_zero]
  induction cs with
  | nil => rfl
  | cons c cs ih =>
    obtain ⟨hopen, hclose⟩ := h c (.head _)
    have hstep : a.step c = some a := by simp [step, hopen, hclose]
    rw [List.foldlM_cons, hstep]
    exact ih fun d hd => h d (.tail _ hd)

theorem Spans.append {m n : Nat} {cs ds : List Char} (hcs : Spans m cs) (hds : Spans n ds) :
    Spans (max m n) (cs ++ ds) := by
  intro a
  rw [List.foldlM_append, hcs a, ← deepen_deepen]
  exact hds (a.deepen m)

/-- A pair of brackets goes one level deeper than what is between them. -/
theorem Spans.bracket {n : Nat} {cs : List Char} (h : Spans n cs) : Spans (n + 1) ('<' :: (cs ++ ['>'])) := by
  intro a
  have hopen : a.step '<' = some a.opened := rfl
  rw [List.foldlM_cons, hopen, Option.bind_eq_bind, Option.bind_some, List.foldlM_append, h a.opened]
  simp [step, closed?_opened_deepen]

end Angles

/-- The angle brackets of a text are balanced and nested exactly so deep. -/
def Angled (n : Nat) (text : String) : Prop :=
  text.toList.foldlM Angles.step .start = some ⟨0, n, Nat.zero_le n⟩

instance (n : Nat) (text : String) : Decidable (Angled n text) :=
  inferInstanceAs (Decidable (_ = _))

theorem Angles.Spans.angled {n : Nat} {text : String} (h : Spans n text.toList) : Angled n text := by
  unfold Angled
  rw [h .start]
  simp [start, deepen]

/-- No two closing brackets stand side by side. -/
def Spaced (cs : List Char) : Prop := cs.IsChain fun a b => a = '>' → b ≠ '>'

theorem Spaced.of_not_mem {cs : List Char} (h : '>' ∉ cs) : Spaced cs := by
  apply List.Pairwise.isChain
  apply List.pairwise_of_forall_mem_list
  rintro a ha b - rfl
  exact absurd ha h

/-- The space before the closing bracket keeps it from one that ends the type of the elements. -/
theorem Spaced.closed {cs : List Char} (h : Spaced cs) :
    Spaced (cs ++ (if cs.getLast? = some '>' then [' '] else []) ++ ['>']) := by
  unfold Spaced at h ⊢
  by_cases hlast : cs.getLast? = some '>'
  · rw [if_pos hlast, List.append_assoc, List.isChain_append]
    exact ⟨h, by simp, by simp⟩
  · rw [if_neg hlast, List.append_nil, List.isChain_append]
    refine ⟨h, by simp, fun a ha b _ heq => ?_⟩
    rw [heq] at ha
    exact absurd ha hlast

theorem Spaced.not_shift {cs : List Char} (h : Spaced cs) : ¬ ['>', '>'] <:+: cs := by
  intro hinfix
  have hpair := h.infix hinfix
  simp at hpair

section

variable {std : String} (hstd : ∀ c ∈ std.toList, c ≠ '<' ∧ c ≠ '>')
include hstd

theorem plain_name : ∀ c ∈ (std ++ "vector").toList, c ≠ '<' ∧ c ≠ '>' := by
  intro c hc
  rw [String.toList_append, List.mem_append] at hc
  rcases hc with hc | hc
  · exact hstd c hc
  · revert c
    simp

/-- A vector type puts one pair of brackets around those of its elements. -/
theorem spans_vectorOf {n : Nat} {item : String} (h : Angles.Spans n item.toList) :
    Angles.Spans (n + 1) (vectorOf std item).toList := by
  have hspace : Angles.Spans 0 (if item.toList.getLast? = some '>' then [' '] else []) := by
    apply Angles.Spans.plain
    split <;> simp
  have hspan := (Angles.Spans.plain (plain_name hstd)).append (h.append hspace).bracket
  rw [toList_vectorOf]
  simpa using hspan

theorem spaced_vectorOf {item : String} (h : Spaced item.toList) : Spaced (vectorOf std item).toList := by
  have hname : '>' ∉ (std ++ "vector").toList ++ ['<'] := by
    intro hmem
    rcases List.mem_append.1 hmem with hmem | hmem
    · exact (plain_name hstd _ hmem).2 rfl
    · simp at hmem
  rw [toList_vectorOf, List.append_cons]
  refine List.isChain_append.2 ⟨Spaced.of_not_mem hname, h.closed, fun a ha b _ heq => ?_⟩
  rw [heq] at ha
  exact absurd (List.mem_of_mem_getLast? ha) hname

/-- However many vectors are wrapped around it, the brackets of a type are balanced and kept apart. -/
theorem brackets_type_shape (scalar : Scalar) (sizes : List String) :
    Angles.Spans sizes.length (shape std scalar sizes).type.toList ∧
      Spaced (shape std scalar sizes).type.toList := by
  induction sizes with
  | nil =>
    have hplain : ∀ c ∈ scalar.name.toList, c ≠ '<' ∧ c ≠ '>' := by cases scalar <;> simp [Scalar.name]
    exact ⟨.plain hplain, .of_not_mem fun hmem => (hplain _ hmem).2 rfl⟩
  | cons size sizes ih => exact ⟨spans_vectorOf hstd ih.1, spaced_vectorOf hstd ih.2⟩

end

/-! ## From the outside in -/

theorem plain_std {std : String} (h : std = "" ∨ std = "std::") : ∀ c ∈ std.toList, c ≠ '<' ∧ c ≠ '>' := by
  rcases h with rfl | rfl <;> simp

theorem ctor_shape_cons {std : String} {scalar : Scalar} (size : String) {sizes : List String}
    (h : sizes ≠ []) : (shape std scalar (size :: sizes)).ctor =
      "(" ++ size ++ ", " ++ (shape std scalar sizes).type ++ (shape std scalar sizes).ctor ++ ")" := by
  have hne : (shape std scalar sizes).ctor ≠ "" := mt ctor_shape_eq_empty_iff.1 h
  show (Shape.vector std size (shape std scalar sizes)).ctor = _
  simp [Shape.vector, hne]

theorem type_shape_cons (std : String) (scalar : Scalar) (size : String) (sizes : List String) :
    (shape std scalar (size :: sizes)).type =
      std ++ "vector<" ++ (shape std scalar sizes).type ++ (if sizes = [] then "" else " ") ++ ">" := by
  show vectorOf std (shape std scalar sizes).type = _
  simp only [vectorOf, getLast?_type_shape_iff]
  by_cases h : sizes = [] <;> simp [h]

/-- The shape that is built from the inside out, one vector after another from the last size to the
first, satisfies the equations of a reading from the outside in: a scalar has no constructor, a single
size is the constructor by itself, and each further size is followed by how its elements are constructed.
The type is that of vectors of what the other sizes give. In it no two closing angle brackets stand side
by side, and its angle brackets are balanced and nested as deep as there are sizes. -/
theorem shape_unfolds_outsideIn {std : String} (hstd : std = "" ∨ std = "std::") (scalar : Scalar) :
    (∀ sizes, shape std scalar sizes =
      sizes.reverse.foldl (fun item size => Shape.vector std size item) ⟨scalar.name, ""⟩) ∧
    shape std scalar [] = ⟨scalar.name, ""⟩ ∧
    (∀ size, (shape std scalar [size]).ctor = "(" ++ size ++ ")") ∧
    (∀ size sizes, sizes ≠ [] → (shape std scalar (size :: sizes)).ctor =
      "(" ++ size ++ ", " ++ (shape std scalar sizes).type ++ (shape std scalar sizes).ctor ++ ")") ∧
    (∀ size sizes, (shape std scalar (size :: sizes)).type =
      std ++ "vector<" ++ (shape std scalar sizes).type ++ (if sizes = [] then "" else " ") ++ ">") ∧
    ∀ sizes, ¬ ['>', '>'] <:+: (shape std scalar sizes).type.toList ∧
      Angled sizes.length (shape std scalar sizes).type := by
  refine ⟨fun sizes => List.foldl_reverse.symm, rfl, fun size => rfl,
    fun size sizes h => ctor_shape_cons size h, type_shape_cons std scalar, fun sizes => ?_⟩
  obtain ⟨hspans, hspaced⟩ := brackets_type_shape (plain_std hstd) scalar sizes
  exact ⟨hspaced.not_shift, hspans.angled⟩

/-- `std::vector<std::vector<std::vector<int64_t> > > cube(A, …)` -/
theorem shape_unfolds_outsideIn_cube :
    ("std::" = "" ∨ "std::" = "std::") ∧ ["B", "C"] ≠ [] ∧
    (shape "std::" .int64 ["A", "B", "C"]).ctor =
      "(A, std::vector<std::vector<int64_t> >(B, std::vector<int64_t>(C)))" ∧
    ¬ ['>', '>'] <:+: "std::vector<std::vector<std::vector<int64_t> > >".toList ∧
    Angled 3 "std::vector<std::vector<std::vector<int64_t> > >" := by
  obtain ⟨-, -, -, hctor, -, hbrackets⟩ := shape_unfolds_outsideIn (.inr rfl) .int64
  obtain ⟨hshift, hangled⟩ := hbrackets ["A", "B", "C"]
  exact ⟨.inr rfl, by simp, (hctor "A" ["B", "C"] (by simp)).trans (by decide), hshift, hangled⟩

end ReaderGen.Cpp
