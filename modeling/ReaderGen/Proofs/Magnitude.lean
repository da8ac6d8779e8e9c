import Mathlib.Algebra.BigOperators.Ring.List
import ReaderGen.Proofs.Relowering

/-!
# When there is no overflow

Coefficients are checked at every step: in each partial sum, in each product of two terms before it is
added, and when signs change. The sum of the absolute values of all coefficients controls every one of
these numbers, whatever the order in which terms come and however they cancel, and it grows no faster
than the expression says: sums add up, products multiply, a division that is left as it is counts 1. So
where that bound is a 64-bit integer in every part of an expression, nothing overflows.

* `Poly.norm`: the sum of the absolute values of the coefficients.
* `Poly.exists_foldlM`: steps that each add at most their weight have a result as long as the weights do
  not add up to too much; `Poly.exists_add`, `Poly.exists_sub`, `Poly.exists_mul` follow from it.
* `Expr.magnitude`: how large the coefficients of an expression can get.
* `Expr.meets_lowering`: lowering keeps to the bound, in every part.
* `canonicalize_ne_overflow`: canonical text is never refused for an overflow.
-/

namespace ReaderGen

theorem fits?_of_natAbs_le {n : Int} (h : n.natAbs ≤ 9223372036854775807) : fits? n = some n := by
  refine fits?_eq_some_iff.2 ⟨rfl, ?_⟩
  unfold Fits
  omega

/-! ## The sum of all coefficients -/

namespace Poly

/-- The sum of the absolute values of the coefficients. -/
def normTerms (ts : List Term) : Nat := (ts.map (·.coeff.natAbs)).sum

@[simp] theorem normTerms_nil : normTerms [] = 0 := rfl

@[simp] theorem normTerms_cons (t : Term) (ts : List Term) :
    normTerms (t :: ts) = t.coeff.natAbs + normTerms ts := by simp [normTerms]

/-- The sum of the absolute values of the coefficients of a polynomial. -/
def norm (p : Poly) : Nat := normTerms p.terms

@[simp] theorem norm_zero : zero.norm = 0 := rfl

@[simp] theorem norm_constant (n : Int) : (constant n).norm = n.natAbs := by
  unfold constant
  split
  · simp [*]
  · simp [norm]

theorem norm_of_constant? {p : Poly} {n : Int} (h : p.constant? = some n) : p.norm = n.natAbs := by
  unfold constant? at h
  rw [norm]
  split at h
  · rename_i ht
    simp [ht, ← Option.some.inj h]
  · rename_i ht
    split at h
    · simp [ht, Option.some.inj h]
    · cases h
  · cases h

/-! ## Sums -/

/-- A coefficient may cancel with another one, but the partial sum is never above both together. -/
theorem exists_insertTerm {t : Term} : ∀ {us : List Term},
    t.coeff.natAbs + normTerms us ≤ 9223372036854775807 →
      ∃ vs, insertTerm t us = some vs ∧ normTerms vs ≤ t.coeff.natAbs + normTerms us
  | [], _ => ⟨[t], rfl, by simp⟩
  | u :: us, h => by
    rw [normTerms_cons] at h ⊢
    rw [insertTerm]
    cases t.monomial.order u.monomial with
    | lt => exact ⟨_, rfl, by simp⟩
    | eq =>
      have hsum := Int.natAbs_add_le u.coeff t.coeff
      rw [fits?_of_natAbs_le (n := u.coeff + t.coeff) (by omega)]
      refine ⟨_, rfl, ?_⟩
      split
      · omega
      · rw [normTerms_cons]
        dsimp only
        omega
    | gt =>
      have hrest : t.coeff.natAbs + normTerms us ≤ 9223372036854775807 := by omega
      obtain ⟨vs, hvs, hnorm⟩ := exists_insertTerm hrest
      refine ⟨u :: vs, by rw [hvs]; rfl, ?_⟩
      rw [normTerms_cons]
      omega

theorem exists_addTerm_of_norm {t : Term} {p : Poly}
    (h : t.coeff.natAbs + p.norm ≤ 9223372036854775807) :
    ∃ r, addTerm t p = some r ∧ r.norm ≤ t.coeff.natAbs + p.norm := by
  by_cases ht : t.coeff = 0
  · exact ⟨p, by simp [addTerm, ht], by omega⟩
  · obtain ⟨us, hus, hnorm⟩ := exists_insertTerm h
    obtain ⟨r, hr, rfl⟩ := exists_addTerm ht hus
    exact ⟨r, hr, hnorm⟩

/-- Steps that each have a result as long as it is not too large, and add at most their weight to it, have
one together. -/
theorem exists_foldlM {α : Type} {step : Poly → α → Option Poly} {weight : α → Nat}
    (hstep : ∀ a p, weight a + p.norm ≤ 9223372036854775807 →
      ∃ r, step p a = some r ∧ r.norm ≤ weight a + p.norm) :
    ∀ {as : List α} {p : Poly}, (as.map weight).sum + p.norm ≤ 9223372036854775807 →
      ∃ r, as.foldlM step p = some r ∧ r.norm ≤ (as.map weight).sum + p.norm
  | [], p, _ => ⟨p, rfl, by simp⟩
  | a :: as, p, h => by
    rw [List.map_cons, List.sum_cons] at h ⊢
    obtain ⟨q, hq, hnorm⟩ := hstep a p (by omega)
    have hrest : (as.map weight).sum + q.norm ≤ 9223372036854775807 := by omega
    obtain ⟨r, hr, hnorm'⟩ := exists_foldlM hstep hrest
    refine ⟨r, ?_, by omega⟩
    rw [List.foldlM_cons, hq]
    exact hr

theorem exists_add {p q : Poly} (h : p.norm + q.norm ≤ 9223372036854775807) :
    ∃ r, p.add q = some r ∧ r.norm ≤ p.norm + q.norm := by
  rw [Nat.add_comm] at h ⊢
  exact exists_foldlM (fun t p => exists_addTerm_of_norm) h

theorem exists_negTerms : ∀ {ts : List Term}, normTerms ts ≤ 9223372036854775807 →
    ∃ us, negTerms ts = some us ∧ normTerms us = normTerms ts
  | [], _ => ⟨[], rfl, rfl⟩
  | t :: ts, h => by
    rw [normTerms_cons] at h
    have hrest : normTerms ts ≤ 9223372036854775807 := by omega
    obtain ⟨us, hus, hnorm⟩ := exists_negTerms hrest
    refine ⟨⟨t.monomial, -t.coeff⟩ :: us, ?_, by simp [hnorm]⟩
    rw [negTerms, hus, fits?_of_natAbs_le (n := -t.coeff) (by omega)]
    rfl

theorem exists_neg_of_norm {p : Poly} (h : p.norm ≤ 9223372036854775807) :
    ∃ r, p.neg = some r ∧ r.norm = p.norm := by
  obtain ⟨us, hus, hnorm⟩ := exists_negTerms h
  obtain ⟨r, hr, rfl⟩ := exists_neg hus
  exact ⟨r, hr, hnorm⟩

theorem exists_sub {p q : Poly} (h : p.norm + q.norm ≤ 9223372036854775807) :
    ∃ r, p.sub q = some r ∧ r.norm ≤ p.norm + q.norm := by
  obtain ⟨q', hq', hnorm⟩ := exists_neg_of_norm (p := q) (by omega)
  rw [← hnorm] at h ⊢
  obtain ⟨r, hr, hle⟩ := exists_add h
  refine ⟨r, ?_, hle⟩
  rw [sub, hq']
  exact hr

/-! ## Products -/

theorem exists_addProduct {s t : Term} {p : Poly}
    (h : s.coeff.natAbs * t.coeff.natAbs + p.norm ≤ 9223372036854775807) :
    ∃ r, addProduct s t p = some r ∧ r.norm ≤ s.coeff.natAbs * t.coeff.natAbs + p.norm := by
  rw [← Int.natAbs_mul] at h ⊢
  rw [addProduct, fits?_of_natAbs_le (n := s.coeff * t.coeff) (by omega)]
  exact exists_addTerm_of_norm (t := ⟨_, s.coeff * t.coeff⟩) h

/-- Pair by pair, the products of the terms add up to at most the product of the sums. -/
theorem exists_mul {p q : Poly} (h : p.norm * q.norm ≤ 9223372036854775807) :
    ∃ r, p.mul q = some r ∧ r.norm ≤ p.norm * q.norm := by
  -- a row of products, one term with all terms of the other polynomial, is one step
  have hrow : ∀ s r, s.coeff.natAbs * q.norm + r.norm ≤ 9223372036854775807 →
      ∃ r', q.terms.foldlM (fun r t => addProduct s t r) r = some r' ∧
        r'.norm ≤ s.coeff.natAbs * q.norm + r.norm := by
    intro s r h
    rw [norm, normTerms, ← List.sum_map_mul_left] at h ⊢
    exact exists_foldlM (fun t p => exists_addProduct) h
  have hsum : (p.terms.map fun s => s.coeff.natAbs * q.norm).sum = p.norm * q.norm :=
    List.sum_map_mul_right ..
  rw [← hsum] at h ⊢
  exact exists_foldlM hrow (p := zero) h

end Poly

/-! ## Results without overflow -/

/-- There is no overflow, and a result has the property. -/
def Meets {α : Type} (Q : α → Prop) : Except Refusal α → Prop
  | .ok a => Q a
  | .error refusal => refusal ≠ .overflow

theorem Meets.bind {α β : Type} {Q : α → Prop} {R : β → Prop} {x : Except Refusal α}
    {f : α → Except Refusal β} (hx : Meets Q x) (hf : ∀ a, Q a → Meets R (f a)) :
    Meets R (x >>= f) := by
  cases x with
  | ok a => exact hf a hx
  | error refusal => exact hx

theorem Meets.mono {α : Type} {Q R : α → Prop} {x : Except Refusal α} (hx : Meets Q x)
    (h : ∀ a, Q a → R a) : Meets R x := by
  cases x with
  | ok a => exact h a hx
  | error refusal => exact hx

theorem meets_orOverflow {α : Type} {Q : α → Prop} {r : Option α} (h : ∃ a, r = some a ∧ Q a) :
    Meets Q (orOverflow r) := by
  obtain ⟨a, rfl, ha⟩ := h
  exact ha

theorem Division.exists_constants (part : Division) {a b : Int} (h : a.natAbs ≤ 9223372036854775807) :
    ∃ n, part.constants a b = some n ∧ n.natAbs ≤ a.natAbs := by
  have hquotient : (a.tdiv b).natAbs ≤ a.natAbs := by
    rw [Int.natAbs_tdiv]
    exact Nat.div_le_self ..
  have hremainder : (a.tmod b).natAbs ≤ a.natAbs := by
    rw [Int.natAbs_tmod]
    exact Nat.mod_le ..
  have hfits := fits?_of_natAbs_le (hquotient.trans h)
  cases part with
  | quotient => exact ⟨_, hfits, hquotient⟩
  | remainder => exact ⟨_, by rw [constants, hfits]; rfl, hremainder⟩

/-- Neither part of a division is larger than what is divided, but for a division that is left as it
is. -/
theorem Division.meets_apply (part : Division) {p q : Poly} (h : p.norm ≤ 9223372036854775807) :
    Meets (·.norm ≤ max 1 p.norm) (part.apply p q) := by
  unfold apply
  split
  · exact Refusal.noConfusion
  · rename_i a b _ ha hb
    rw [Poly.norm_of_constant? ha] at h ⊢
    obtain ⟨n, hn, hle⟩ := part.exists_constants (b := b) h
    exact meets_orOverflow ⟨.constant n, by rw [hn]; rfl, by simp [hle]⟩
  · cases part with
    | quotient => exact Nat.le_max_right ..
    | remainder => exact Nat.zero_le _
  · exact Nat.le_max_left ..

/-! ## Expressions -/

/-- How large the coefficients of a sum, a product or a division can get, all together. -/
def BinaryOp.magnitude : BinaryOp → Nat → Nat → Nat
  | add, m, n => m + n
  | sub, m, n => m + n
  | mul, m, n => m * n
  | div, m, _ => max 1 m
  | rem, m, _ => max 1 m
  | other _, _, _ => 0

theorem BinaryOp.meets_apply {op : BinaryOp} {p q : Poly} {m n : Nat} (hp : p.norm ≤ m)
    (hq : q.norm ≤ n) (h : op.magnitude m n ≤ 9223372036854775807) :
    Meets (·.norm ≤ op.magnitude m n) (op.apply p q) := by
  cases op with
  | add =>
    rw [magnitude] at h ⊢
    obtain ⟨r, hr, hnorm⟩ := Poly.exists_add (p := p) (q := q) (by omega)
    exact meets_orOverflow ⟨r, hr, by omega⟩
  | sub =>
    rw [magnitude] at h ⊢
    obtain ⟨r, hr, hnorm⟩ := Poly.exists_sub (p := p) (q := q) (by omega)
    exact meets_orOverflow ⟨r, hr, by omega⟩
  | mul =>
    have hmul : p.norm * q.norm ≤ m * n := Nat.mul_le_mul hp hq
    obtain ⟨r, hr, hnorm⟩ := Poly.exists_mul (hmul.trans h)
    exact meets_orOverflow ⟨r, hr, hnorm.trans hmul⟩
  | div | rem =>
    rw [magnitude] at h ⊢
    exact (Division.meets_apply _ (by omega)).mono fun r hr => by omega
  | other s => exact Refusal.noConfusion

namespace Expr

/-- How large the coefficients of an expression can get, all together: a number counts itself, a variable
and a subscript 1. What is not arithmetic has no coefficients. -/
def magnitude : Expr → Nat
  | int n _ => n
  | name _ => 1
  | index _ _ => 1
  | paren inner => inner.magnitude
  | group inner => inner.magnitude
  | unary _ operand => operand.magnitude
  | binary op left right => op.magnitude left.magnitude right.magnitude
  | attributed _ inner => inner.magnitude
  | literal _ | path _ | foreign _ _ => 0

/-- Where no part of an expression is too large, lowering does not overflow, and the coefficients are as
large as the expression says, at most. -/
theorem meets_lowering {e : Expr} (h : e.Everywhere (·.magnitude ≤ 9223372036854775807)) :
    Meets (·.norm ≤ e.magnitude) e.toPoly ∧ Meets (fun _ => True) e.toAtom := by
  induction e with
  | int n text =>
    refine ⟨?_, Refusal.noConfusion⟩
    rw [toPoly, fits?_of_natAbs_le (n := n) h.self]
    exact (Poly.norm_constant n).le
  | name id => exact ⟨Nat.le_refl 1, trivial⟩
  | index array subscript iha ihi =>
    -- what the subscript comes to is hidden in an atom, but must not overflow either
    obtain ⟨-, ha, hi⟩ := everywhere_index.1 h
    exact ⟨(iha ha).2.bind fun a _ => (ihi hi).1.bind fun i _ => Nat.le_refl 1,
      (iha ha).2.bind fun a _ => (ihi hi).1.bind fun i _ => trivial⟩
  | paren inner ih => exact ih (everywhere_paren.1 h).2
  | group inner ih => exact ⟨(ih (everywhere_group.1 h).2).1, Refusal.noConfusion⟩
  | attributed attributes inner ih => exact ih (everywhere_attributed.1 h).2
  | unary op operand ih =>
    refine ⟨?_, Refusal.noConfusion⟩
    cases op with
    | neg =>
      refine (ih (everywhere_unary.1 h).2).1.bind fun p hp => meets_orOverflow ?_
      obtain ⟨r, hr, hnorm⟩ := Poly.exists_neg_of_norm (hp.trans h.self)
      exact ⟨r, hr, hnorm.trans_le hp⟩
    | not | deref => exact Refusal.noConfusion
  | binary op left right ihl ihr =>
    obtain ⟨hwhole, hl, hr⟩ := everywhere_binary.1 h
    refine ⟨?_, Refusal.noConfusion⟩
    exact (ihl hl).1.bind fun p hp => (ihr hr).1.bind fun q hq => BinaryOp.meets_apply hp hq hwhole
  | literal text | path tokens | foreign shape tokens =>
    exact ⟨Refusal.noConfusion, Refusal.noConfusion⟩

end Expr

/-- If no part of an expression, subscripts included, has coefficients that can get larger than a 64-bit
integer all together, its canonical text is not refused for an overflow, in whatever order its terms and
factors stand. -/
theorem canonicalize_ne_overflow {e : Expr}
    (h : e.Everywhere (·.magnitude ≤ 9223372036854775807)) (quote : String) :
    e.canonicalize ≠ .error (.overflow quote) := by
  intro hoverflow
  have hmeets := (Expr.meets_lowering h).1
  rw [Expr.canonicalize, Expr.polynomial] at hoverflow
  cases hpoly : e.toPoly with
  | ok p =>
    rw [hpoly] at hoverflow
    cases hoverflow
  | error refusal =>
    rw [hpoly] at hoverflow hmeets
    cases refusal with
    | overflow => exact hmeets rfl
    | _ => cases hoverflow

/-- `4611686018427387903 * (N - A[9223372036854775807 / 2]) + -1` -/
def largestCoefficients : Expr :=
  .binary .add
    (.binary .mul (.int 4611686018427387903 "4611686018427387903")
      (.paren (.binary .sub (.name "N") (.index (.name "A")
        (.binary .div (.int 9223372036854775807 "9223372036854775807") (.int 2 "2"))))))
    (.unary .neg (.int 1 "1"))

/-- The coefficients add up to the largest 64-bit integer, and so does the number in the subscript. -/
theorem canonicalize_ne_overflow_largest :
    largestCoefficients.magnitude = 9223372036854775807 ∧
      largestCoefficients.Everywhere (·.magnitude ≤ 9223372036854775807) ∧
      ∀ quote, largestCoefficients.canonicalize ≠ .error (.overflow quote) := by
  have h : largestCoefficients.Everywhere (·.magnitude ≤ 9223372036854775807) := by decide
  exact ⟨rfl, h, canonicalize_ne_overflow h⟩

/-- One more is too much. -/
example : (Expr.binary .add (.int 9223372036854775807 "9223372036854775807") (.int 1 "1")).canonicalize =
    .error (.overflow "9223372036854775807 + 1") := by rfl

end ReaderGen
