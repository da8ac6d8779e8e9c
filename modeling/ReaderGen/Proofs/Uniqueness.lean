import Mathlib.Algebra.MvPolynomial.Funext
import Mathlib.Data.Finsupp.Multiset
import ReaderGen.Proofs.Decoding

/-!
# Canonical text is unique

Two expressions that are made of numbers and variables by sums, differences and products have the same
canonical text just if they have the same value whatever the variables stand for. One direction is that
the text tells the polynomial, and the polynomial the value. The other is that a polynomial is known by
its values: its terms are in order, like terms are collected and none is zero, so it is one polynomial
over the integers, and over the integers only the zero polynomial is zero everywhere.

* `Poly.toMvPolynomial`: a polynomial, with its atoms as indeterminates.
* `Poly.eq_of_eval`: polynomials with the same values are the same.
* `Expr.IsPolynomial`: expressions without divisions and subscripts.
* `canonicalize_eq_iff`: their canonical texts are equal just if their values are.
-/

namespace ReaderGen

/-! ## Polynomials over the integers -/

/-- How often each atom is a factor. -/
noncomputable def Monomial.exponents (m : Monomial) : Atom →₀ ℕ :=
  Multiset.toFinsupp (m.factors : Multiset Atom)

theorem Monomial.exponents_injective : Function.Injective Monomial.exponents := by
  intro m n h
  have hfactors : (m.factors : Multiset Atom) = n.factors := Multiset.toFinsupp.injective h
  exact eq_of_perm (Multiset.coe_eq_coe.1 hfactors)

theorem Monomial.prod_exponents (f : Atom → Int) (m : Monomial) :
    (m.exponents.prod fun a n => f a ^ n) = m.eval f := by
  unfold exponents eval
  rw [← Multiset.prod_coe, ← Multiset.map_coe, Finset.prod_multiset_map_count]
  rfl

namespace Poly

/-- The polynomial over the integers that has the atoms for its indeterminates. -/
noncomputable def toMvPolynomial (p : Poly) : MvPolynomial Atom ℤ :=
  (p.terms.map fun t => MvPolynomial.monomial t.monomial.exponents t.coeff).sum

theorem eval_toMvPolynomial (f : Atom → Int) (p : Poly) :
    MvPolynomial.eval f p.toMvPolynomial = p.eval f := by
  unfold toMvPolynomial eval evalTerms
  rw [map_list_sum, List.map_map]
  congr 1
  refine List.map_congr_left fun t _ => ?_
  simp [MvPolynomial.eval_monomial, Monomial.prod_exponents, Term.eval]

theorem coeff_of_mem {p : Poly} {t : Term} (ht : t ∈ p.terms) : p.coeff t.monomial = t.coeff := by
  have hnodup := p.nodup_monomials
  unfold coeff
  split
  · rename_i u hu
    have hmem := List.mem_of_find?_eq_some hu
    have hmonomial : u.monomial = t.monomial := by simpa using List.find?_some hu
    rw [List.inj_on_of_nodup_map hnodup hmem ht hmonomial]
  · rename_i hnone
    simpa using List.find?_eq_none.1 hnone t ht

theorem coeff_eq_zero {p : Poly} {m : Monomial} (h : ∀ t ∈ p.terms, t.monomial ≠ m) :
    p.coeff m = 0 := by
  have hnone : p.terms.find? (·.monomial = m) = none := by simpa using h
  unfold coeff
  rw [hnone]

/-- The terms are the monomials whose coefficient is not zero. -/
theorem mem_terms_iff {p : Poly} {t : Term} :
    t ∈ p.terms ↔ t.coeff ≠ 0 ∧ p.coeff t.monomial = t.coeff := by
  constructor
  · exact fun ht => ⟨p.normal.nonzero t ht, coeff_of_mem ht⟩
  · rintro ⟨h0, hcoeff⟩
    by_contra hnot
    have hzero : p.coeff t.monomial = 0 := by
      refine coeff_eq_zero fun u hu heq => hnot ?_
      have hu' : u = t := by
        have := coeff_of_mem hu
        rw [heq, hcoeff] at this
        cases u; cases t
        simp_all
      exact hu' ▸ hu
    exact h0 (by rw [← hcoeff, hzero])

theorem coeff_sum_of_ne {m : Monomial} : ∀ {ts : List Term}, (∀ t ∈ ts, t.monomial ≠ m) →
    MvPolynomial.coeff m.exponents
      (ts.map fun t => MvPolynomial.monomial t.monomial.exponents t.coeff).sum = 0
  | [], _ => by simp
  | t :: ts, h => by
    have ht : t.monomial.exponents ≠ m.exponents := fun heq =>
      h t (.head _) (Monomial.exponents_injective heq)
    rw [List.map_cons, List.sum_cons, MvPolynomial.coeff_add, MvPolynomial.coeff_monomial, if_neg ht,
      coeff_sum_of_ne fun u hu => h u (.tail _ hu), add_zero]

/-- A monomial with a term in a polynomial has no other one there. -/
theorem exists_split {p : Poly} {t : Term} (ht : t ∈ p.terms) : ∃ as bs, p.terms = as ++ t :: bs ∧
    (∀ u ∈ as, u.monomial ≠ t.monomial) ∧ ∀ u ∈ bs, u.monomial ≠ t.monomial := by
  have hnodup := p.nodup_monomials
  obtain ⟨as, bs, hsplit⟩ := List.append_of_mem ht
  rw [hsplit] at hnodup
  simp only [List.map_append, List.map_cons, List.nodup_append, List.nodup_cons] at hnodup
  obtain ⟨-, ⟨hbs, -⟩, has⟩ := hnodup
  exact ⟨as, bs, hsplit, fun u hu => has _ (List.mem_map_of_mem hu) _ (.head _),
    fun u hu heq => hbs (List.mem_map.2 ⟨u, hu, heq⟩)⟩

theorem coeff_toMvPolynomial (p : Poly) (m : Monomial) :
    p.toMvPolynomial.coeff m.exponents = p.coeff m := by
  unfold toMvPolynomial
  by_cases h : ∃ t ∈ p.terms, t.monomial = m
  · obtain ⟨t, ht, rfl⟩ := h
    rw [coeff_of_mem ht]
    obtain ⟨as, bs, hsplit, has, hbs⟩ := exists_split ht
    rw [hsplit, List.map_append, List.sum_append, List.map_cons, List.sum_cons,
      MvPolynomial.coeff_add, MvPolynomial.coeff_add, MvPolynomial.coeff_monomial, if_pos rfl,
      coeff_sum_of_ne has, coeff_sum_of_ne hbs]
    omega
  · have hne : ∀ t ∈ p.terms, t.monomial ≠ m := fun t ht heq => h ⟨t, ht, heq⟩
    rw [coeff_sum_of_ne hne, coeff_eq_zero hne]

/-- Polynomials that have the same value, whatever their atoms are worth, are the same. -/
theorem eq_of_eval {p q : Poly} (h : ∀ f : Atom → Int, p.eval f = q.eval f) : p = q := by
  have hpolynomial : p.toMvPolynomial = q.toMvPolynomial := by
    refine MvPolynomial.funext fun f => ?_
    rw [eval_toMvPolynomial, eval_toMvPolynomial, h f]
  have hcoeff : ∀ m, p.coeff m = q.coeff m := by
    intro m
    rw [← coeff_toMvPolynomial, hpolynomial, coeff_toMvPolynomial]
  have hnodup : ∀ r : Poly, r.terms.Nodup := fun r => List.Nodup.of_map _ r.nodup_monomials
  refine eq_of_perm ((List.perm_ext_iff_of_nodup (hnodup p) (hnodup q)).2 fun t => ?_)
  rw [mem_terms_iff, mem_terms_iff, hcoeff]

end Poly

/-! ## Expressions without divisions and subscripts -/

/-- The expression is made of numbers and variables by brackets, signs, sums, differences and
products. -/
inductive Expr.IsPolynomial : Expr → Prop
  | int (n : Nat) (text : String) : IsPolynomial (.int n text)
  | name (x : String) : IsPolynomial (.name x)
  | paren {e : Expr} (h : IsPolynomial e) : IsPolynomial (.paren e)
  | group {e : Expr} (h : IsPolynomial e) : IsPolynomial (.group e)
  | neg {e : Expr} (h : IsPolynomial e) : IsPolynomial (.unary .neg e)
  | binary {op : BinaryOp} {e f : Expr} (hop : op = .add ∨ op = .sub ∨ op = .mul)
      (he : IsPolynomial e) (hf : IsPolynomial f) : IsPolynomial (.binary op e f)

theorem Atom.worth_var {x : String} (hx : Word.IsVariable x) (v : Valuation) :
    (var x).worth v = v.var x := by
  unfold worth
  rw [tree_var hx]
  rfl

/-- Such an expression is worth its polynomial, if every atom is worth as much as the variable it is. -/
theorem Expr.IsPolynomial.value?_eq_eval {e : Expr} (h : e.IsPolynomial) {v : Valuation}
    {f : Atom → Int} (hf : ∀ x, f (.var x) = v.var x) :
    ∀ p, e.toPoly = .ok p → e.value? v = some (p.eval f) := by
  induction h with
  | int n text =>
    intro p hp
    rw [toPoly] at hp
    split at hp
    · rename_i k hk
      cases hp
      rw [Poly.eval_constant, fits?_eq_some hk]
      rfl
    · cases hp
  | name x =>
    intro p hp
    cases hp
    rw [Poly.eval_atom, hf]
    rfl
  | paren _ ih => exact ih
  | group _ ih => exact ih
  | neg _ ih =>
    intro p hp
    obtain ⟨q, hq, hp⟩ := ok_of_bind hp
    rw [value?, ih q hq, Poly.eval_neg f (orOverflow_eq_ok hp)]
    rfl
  | binary hop _ _ ihe ihf =>
    intro p hp
    obtain ⟨q, hq, hp⟩ := ok_of_bind hp
    obtain ⟨r, hr, hp⟩ := ok_of_bind hp
    rw [value?, ihe q hq, ihf r hr]
    rcases hop with rfl | rfl | rfl
    · rw [Poly.eval_add f (orOverflow_eq_ok hp)]
      rfl
    · rw [Poly.eval_sub f (orOverflow_eq_ok hp)]
      rfl
    · rw [Poly.eval_mul f (orOverflow_eq_ok hp)]
      rfl

/-- Expressions without divisions and subscripts that have a canonical text have the same one just if
they have the same value under every valuation. Their names only have to be words, reserved or not. -/
theorem canonicalize_eq_iff {e₁ e₂ : Expr} (h₁ : e₁.IsPolynomial) (h₂ : e₂.IsPolynomial)
    (hn₁ : ∀ x ∈ e₁.names, Word.IsWord x) (hn₂ : ∀ x ∈ e₂.names, Word.IsWord x) {s₁ s₂ : String}
    (hs₁ : e₁.canonicalize = .ok s₁) (hs₂ : e₂.canonicalize = .ok s₂) :
    s₁ = s₂ ↔ ∀ v : Valuation, ∃ n, e₁.value? v = some n ∧ e₂.value? v = some n := by
  obtain ⟨p₁, hp₁, htext₁⟩ := Expr.toPoly_of_canonicalize hs₁
  obtain ⟨p₂, hp₂, htext₂⟩ := Expr.toPoly_of_canonicalize hs₂
  constructor
  · rintro rfl v
    -- the text tells the polynomial, which has the value of both
    have hpoly := Expr.toPoly_eq_of_canonicalize hn₁ hn₂ hs₁ hs₂
    have hvalue : ∀ x, v.var (Atom.var x).text = v.var x := fun _ => rfl
    exact ⟨_, h₁.value?_eq_eval (f := fun a => v.var a.text) hvalue p₁ hp₁,
      h₂.value?_eq_eval hvalue p₁ (hpoly ▸ hp₁)⟩
  · intro hvalue
    have hp : p₁ = p₂ := by
      refine Poly.eq_of_eval fun f => ?_
      -- values of the atoms are a valuation of the variables
      obtain ⟨n, hn₁, hn₂⟩ := hvalue ⟨fun x => f (.var x), fun _ _ => 0⟩
      rw [h₁.value?_eq_eval (fun _ => rfl) p₁ hp₁] at hn₁
      rw [h₂.value?_eq_eval (fun _ => rfl) p₂ hp₂, ← hn₁] at hn₂
      exact (Option.some.inj hn₂).symm
    rw [← htext₁, ← htext₂, hp]

/-- `(N + M) * (N - M) + M * M`, the product in brackets that are not written. -/
def differenceOfSquares : Expr :=
  .binary .add
    (.group (.binary .mul (.paren (.binary .add (.name "N") (.name "M")))
      (.paren (.binary .sub (.name "N") (.name "M")))))
    (.binary .mul (.name "M") (.name "M"))

/-- `-(N * -N)` -/
def negatedTwice : Expr :=
  .unary .neg (.paren (.binary .mul (.name "N") (.unary .neg (.name "N"))))

theorem canonicalize_eq_iff_squares : differenceOfSquares.canonicalize = .ok "N * N" ∧
    negatedTwice.canonicalize = .ok "N * N" ∧
    (∀ x ∈ differenceOfSquares.names ++ negatedTwice.names, Word.IsWord x) ∧ ∀ v : Valuation, ∃ n,
      differenceOfSquares.value? v = some n ∧ negatedTwice.value? v = some n := by
  have h₁ : differenceOfSquares.IsPolynomial :=
    .binary (.inl rfl)
      (.group (.binary (.inr (.inr rfl)) (.paren (.binary (.inl rfl) (.name _) (.name _)))
        (.paren (.binary (.inr (.inl rfl)) (.name _) (.name _)))))
      (.binary (.inr (.inr rfl)) (.name _) (.name _))
  have h₂ : negatedTwice.IsPolynomial :=
    .neg (.paren (.binary (.inr (.inr rfl)) (.name _) (.neg (.name _))))
  have hwords : ∀ x ∈ differenceOfSquares.names ++ negatedTwice.names, Word.IsWord x := by
    decide +kernel
  have hs₁ : differenceOfSquares.canonicalize = .ok "N * N" := ok_of_toOption (by decide +kernel)
  have hs₂ : negatedTwice.canonicalize = .ok "N * N" := ok_of_toOption (by decide +kernel)
  exact ⟨hs₁, hs₂, hwords, (canonicalize_eq_iff h₁ h₂
    (fun x hx => hwords x (List.mem_append_left _ hx))
    (fun x hx => hwords x (List.mem_append_right _ hx)) hs₁ hs₂).1 rfl⟩

end ReaderGen
