import Mathlib.Algebra.BigOperators.Ring.List
import Mathlib.Tactic.Ring
import ReaderGen.Canonical

/-!
# The value of a polynomial

Given an integer for each atom, a monomial is the product of its factors and a polynomial the sum of
its terms. Sums, differences and products of polynomials have the values one expects whenever they
have a result, so no coefficient is ever taken modulo anything.

* `Poly.eval_add`, `Poly.eval_neg`, `Poly.eval_sub`, `Poly.eval_mul`: the value of each operation.
* `Poly.All`: a property of all atoms of a polynomial; `Poly.All.add` and the like: the operations
  bring no new atoms.
-/

namespace ReaderGen

/-! ## Monomials -/

namespace Monomial

/-- The product of the factors, for a value of each atom. -/
def eval (f : Atom → Int) (m : Monomial) : Int := (m.factors.map f).prod

theorem prod_insertFactor (f : Atom → Int) (a : Atom) (bs : List Atom) :
    ((insertFactor a bs).map f).prod = f a * (bs.map f).prod := by
  induction bs with
  | nil => simp [insertFactor]
  | cons b bs ih =>
    rw [insertFactor]
    split
    · simp only [List.map_cons, List.prod_cons, ih]; ring
    · simp

theorem eval_mul (f : Atom → Int) (m n : Monomial) : (m.mul n).eval f = m.eval f * n.eval f := by
  show ((m.factors.foldr insertFactor n.factors).map f).prod = _
  unfold eval
  induction m.factors with
  | nil => simp
  | cons a as ih =>
    simp only [List.foldr_cons, prod_insertFactor, ih, List.map_cons, List.prod_cons]; ring

theorem mem_factors_mul {a : Atom} {m n : Monomial} :
    a ∈ (m.mul n).factors ↔ a ∈ m.factors ∨ a ∈ n.factors := by
  show a ∈ m.factors.foldr insertFactor n.factors ↔ _
  induction m.factors with
  | nil => simp
  | cons b bs ih => simp only [List.foldr_cons, mem_insertFactor, ih, List.mem_cons, or_assoc]

end Monomial

/-- The value of a term. -/
def Term.eval (f : Atom → Int) (t : Term) : Int := t.coeff * t.monomial.eval f

namespace Poly

/-! ## Sums of terms -/

/-- The value of a sum of terms. -/
def evalTerms (f : Atom → Int) (ts : List Term) : Int := (ts.map (Term.eval f)).sum

@[simp] theorem evalTerms_nil (f : Atom → Int) : evalTerms f [] = 0 := rfl

@[simp] theorem evalTerms_cons (f : Atom → Int) (t : Term) (ts : List Term) :
    evalTerms f (t :: ts) = t.eval f + evalTerms f ts := by simp [evalTerms]

theorem evalTerms_append (f : Atom → Int) (ts us : List Term) :
    evalTerms f (ts ++ us) = evalTerms f ts + evalTerms f us := by simp [evalTerms]

/-- The value of a polynomial. -/
def eval (f : Atom → Int) (p : Poly) : Int := evalTerms f p.terms

theorem eval_insertTerm (f : Atom → Int) {t : Term} : ∀ {us vs : List Term},
    insertTerm t us = some vs → evalTerms f vs = t.eval f + evalTerms f us
  | [], vs, h => by
    simp only [insertTerm, Option.some.injEq] at h
    subst h; simp
  | u :: us, vs, h => by
    rw [insertTerm] at h
    split at h
    · simp only [Option.some.injEq] at h
      subst h; simp
    · rename_i htu
      have hm : t.monomial = u.monomial := (Monomial.isOrder.eq_iff _ _).1 htu
      obtain ⟨sum, hsum, h⟩ := Option.bind_eq_some_iff.1 h
      have hs := fits?_eq_some hsum
      simp only [Option.pure_def, Option.some.injEq] at h
      -- a sum of zero drops the term, whose value is then zero as well
      have key : t.eval f + u.eval f = sum * u.monomial.eval f := by
        rw [Term.eval, Term.eval, hm, hs]; ring
      subst h
      split
      · rename_i h0
        rw [h0] at key
        rw [evalTerms_cons]; omega
      · rw [evalTerms_cons, evalTerms_cons, Term.eval, ← key]; ring
    · obtain ⟨ws, hws, h⟩ := Option.bind_eq_some_iff.1 h
      simp only [Option.pure_def, Option.some.injEq] at h
      subst h
      rw [evalTerms_cons, eval_insertTerm f hws, evalTerms_cons]; ring

theorem terms_of_addTerm {t : Term} {p r : Poly} (h : addTerm t p = some r) :
    t.coeff = 0 ∧ r = p ∨ insertTerm t p.terms = some r.terms := by
  unfold addTerm at h
  split at h
  · rename_i h0
    simp only [Option.some.injEq] at h
    exact .inl ⟨h0, h.symm⟩
  · split at h
    · cases h
    · rename_i hi
      simp only [Option.some.injEq] at h
      subst h
      exact .inr hi

theorem eval_addTerm (f : Atom → Int) {t : Term} {p r : Poly} (h : addTerm t p = some r) :
    r.eval f = t.eval f + p.eval f := by
  rcases terms_of_addTerm h with ⟨h0, rfl⟩ | h
  · simp [Term.eval, h0]
  · exact eval_insertTerm f h

/-- Steps in a row add up to what they add one by one. -/
theorem eval_foldlM (f : Atom → Int) {step : Poly → Term → Option Poly} {v : Term → Int}
    (hstep : ∀ t p r, step p t = some r → r.eval f = p.eval f + v t) :
    ∀ {ts : List Term} {p r : Poly}, ts.foldlM step p = some r →
      r.eval f = p.eval f + (ts.map v).sum
  | [], p, r, h => by
    simp only [List.foldlM_nil, Option.pure_def, Option.some.injEq] at h
    subst h; simp
  | t :: ts, p, r, h => by
    obtain ⟨q, hq, h⟩ := Option.bind_eq_some_iff.1 h
    rw [eval_foldlM f hstep h, hstep t p q hq, List.map_cons, List.sum_cons]; ring

/-! ## Operations -/

@[simp] theorem eval_zero (f : Atom → Int) : zero.eval f = 0 := rfl

@[simp] theorem eval_constant (f : Atom → Int) (n : Int) : (constant n).eval f = n := by
  unfold constant
  split
  · rename_i h
    simp [h]
  · simp [eval, Term.eval, Monomial.eval, Monomial.one]

@[simp] theorem eval_atom (f : Atom → Int) (a : Atom) : (atom a).eval f = f a := by
  simp [eval, atom, Term.eval, Monomial.eval, Monomial.ofAtom]

theorem eval_add (f : Atom → Int) {p q r : Poly} (h : p.add q = some r) :
    r.eval f = p.eval f + q.eval f := by
  have hstep : ∀ t p r, addTerm t p = some r → r.eval f = p.eval f + t.eval f :=
    fun t p r h => (eval_addTerm f h).trans (add_comm _ _)
  exact eval_foldlM f hstep h

theorem eval_negTerms (f : Atom → Int) : ∀ {ts us : List Term}, negTerms ts = some us →
    evalTerms f us = -evalTerms f ts
  | [], us, h => by
    simp only [negTerms, Option.some.injEq] at h
    subst h; simp
  | t :: ts, us, h => by
    rw [negTerms] at h
    obtain ⟨n, hn, h⟩ := Option.bind_eq_some_iff.1 h
    obtain ⟨ws, hws, h⟩ := Option.bind_eq_some_iff.1 h
    simp only [Option.pure_def, Option.some.injEq] at h
    subst h
    rw [evalTerms_cons, evalTerms_cons, eval_negTerms f hws, Term.eval, Term.eval,
      fits?_eq_some hn]
    ring

theorem terms_of_neg {p r : Poly} (h : p.neg = some r) : negTerms p.terms = some r.terms := by
  unfold neg at h
  split at h
  · cases h
  · rename_i hn
    simp only [Option.some.injEq] at h
    subst h
    exact hn

theorem eval_neg (f : Atom → Int) {p r : Poly} (h : p.neg = some r) : r.eval f = -p.eval f :=
  eval_negTerms f (terms_of_neg h)

theorem eval_sub (f : Atom → Int) {p q r : Poly} (h : p.sub q = some r) :
    r.eval f = p.eval f - q.eval f := by
  obtain ⟨n, hn, h⟩ := Option.bind_eq_some_iff.1 h
  rw [eval_add f h, eval_neg f hn]; ring

theorem eval_addProduct (f : Atom → Int) {s t : Term} {p r : Poly}
    (h : addProduct s t p = some r) : r.eval f = p.eval f + s.eval f * t.eval f := by
  obtain ⟨n, hn, h⟩ := Option.bind_eq_some_iff.1 h
  rw [eval_addTerm f h, Term.eval, Monomial.eval_mul, fits?_eq_some hn, Term.eval, Term.eval]
  ring

theorem eval_mul (f : Atom → Int) {p q r : Poly} (h : p.mul q = some r) :
    r.eval f = p.eval f * q.eval f := by
  -- the products of one term with all terms of the other polynomial
  have hrow : ∀ (s : Term) (p r : Poly), q.terms.foldlM (fun r t => addProduct s t r) p = some r →
      r.eval f = p.eval f + s.eval f * q.eval f := by
    intro s p r h
    have hproducts := eval_foldlM f (fun _ _ _ h => eval_addProduct f h) h
    rwa [List.sum_map_mul_left] at hproducts
  have hrows := eval_foldlM f hrow h
  rwa [List.sum_map_mul_right, eval_zero, zero_add] at hrows

/-- A constant polynomial has the value that `constant?` finds. -/
theorem eval_of_constant? (f : Atom → Int) {p : Poly} {n : Int} (h : p.constant? = some n) :
    p.eval f = n := by
  unfold constant? at h
  rw [eval]
  split at h
  · rename_i ht
    rw [ht]
    simpa using h
  · rename_i m k ht
    split at h
    · rename_i hm
      rw [ht]
      simpa [Term.eval, Monomial.eval, Monomial.one, hm] using h
    · cases h
  · cases h

/-! ## Atoms -/

/-- What each step keeps is kept by all of them in a row. -/
theorem foldlM_keeps {α β : Type} {f : β → α → Option β} {Q : β → Prop} :
    ∀ {as : List α} {b r : β}, as.foldlM f b = some r → Q b →
      (∀ a ∈ as, ∀ b b', f b a = some b' → Q b → Q b') → Q r
  | [], b, r, h, hb, _ => by
    simp only [List.foldlM_nil, Option.pure_def, Option.some.injEq] at h
    subst h; exact hb
  | a :: as, b, r, h, hb, hstep => by
    obtain ⟨b', hb', h⟩ := Option.bind_eq_some_iff.1 h
    exact foldlM_keeps h (hstep a (.head _) b b' hb' hb) fun a ha => hstep a (.tail _ ha)

/-- The property holds of every atom of the polynomial. -/
def All (P : Atom → Prop) (p : Poly) : Prop := ∀ t ∈ p.terms, ∀ a ∈ t.monomial.factors, P a

namespace All

variable {P : Atom → Prop}

theorem zero : Poly.zero.All P := by intro t ht; cases ht

theorem constant (n : Int) : (Poly.constant n).All P := by
  unfold Poly.constant
  split
  · exact zero
  · intro t ht
    simp only [List.mem_singleton] at ht
    subst ht
    intro a ha
    cases ha

theorem atom {a : Atom} (h : P a) : (Poly.atom a).All P := by
  intro t ht b hb
  simp only [Poly.atom, List.mem_singleton] at ht
  subst ht
  simp only [Monomial.ofAtom, List.mem_singleton] at hb
  subst hb
  exact h

theorem addTerm {t : Term} {p r : Poly} (h : Poly.addTerm t p = some r) (hp : p.All P)
    (ht : ∀ a ∈ t.monomial.factors, P a) : r.All P := by
  rcases terms_of_addTerm h with ⟨-, rfl⟩ | h
  · exact hp
  · intro v hv
    rcases monomial_of_insertTerm h v hv with e | ⟨u, hu, e⟩
    · rw [e]; exact ht
    · rw [← e]; exact hp u hu

theorem erase {p : Poly} (h : p.All P) (m : Monomial) : (p.erase m).All P :=
  fun t ht => h t (List.mem_filter.1 ht).1

theorem add {p q r : Poly} (h : p.add q = some r) (hp : p.All P) (hq : q.All P) : r.All P :=
  foldlM_keeps h hp fun t ht _ _ h hr => addTerm h hr (hq t ht)

theorem neg {p r : Poly} (h : p.neg = some r) (hp : p.All P) : r.All P := by
  intro u hu
  obtain ⟨t, ht, hm, -⟩ := of_negTerms (terms_of_neg h) u hu
  rw [← hm]
  exact hp t ht

theorem sub {p q r : Poly} (h : p.sub q = some r) (hp : p.All P) (hq : q.All P) : r.All P := by
  obtain ⟨n, hn, h⟩ := Option.bind_eq_some_iff.1 h
  exact add h hp (neg hn hq)

theorem addProduct {s t : Term} {p r : Poly} (h : Poly.addProduct s t p = some r) (hp : p.All P)
    (hs : ∀ a ∈ s.monomial.factors, P a) (ht : ∀ a ∈ t.monomial.factors, P a) : r.All P := by
  obtain ⟨n, -, h⟩ := Option.bind_eq_some_iff.1 h
  refine addTerm h hp fun a ha => ?_
  rcases Monomial.mem_factors_mul.1 ha with ha | ha
  · exact hs a ha
  · exact ht a ha

theorem mul {p q r : Poly} (h : p.mul q = some r) (hp : p.All P) (hq : q.All P) : r.All P :=
  foldlM_keeps h zero fun s hs _ _ h hr =>
    foldlM_keeps h hr fun t ht _ _ h hr => addProduct h hr (hp s hs) (hq t ht)

end All

end Poly

end ReaderGen
