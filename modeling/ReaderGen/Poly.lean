import ReaderGen.Poly.Monomial

/-!
# Polynomials

Sums of integer multiples of monomials. The terms are kept in order, like terms are collected and zero
terms dropped, so that equal polynomials are equal values.

Coefficients are 64-bit: an operation has no result when a coefficient, or a partial sum on the way
to one, does not fit.

* `Normal`: what is kept of the terms.
* `normal_insertTerm`, `normal_negTerms`: the operations keep it.
-/

namespace ReaderGen

/-! ## Terms -/

/-- A monomial with its coefficient. -/
structure Term where
  monomial : Monomial
  coeff : Int
deriving DecidableEq, Repr

/-- The number, if it is a 64-bit integer. -/
def fits? (n : Int) : Option Int :=
  if -9223372036854775808 ≤ n ∧ n ≤ 9223372036854775807 then some n else none

theorem fits?_eq_some {n k : Int} (h : fits? n = some k) : k = n := by
  unfold fits? at h
  split at h
  · exact (Option.some.inj h).symm
  · cases h

/-- The terms are in the order of their monomials, each with another monomial, and none is zero. -/
structure Normal (terms : List Term) : Prop where
  sorted : terms.Pairwise (fun s t => s.monomial.order t.monomial = .lt)
  nonzero : ∀ t ∈ terms, t.coeff ≠ 0

namespace Normal

theorem nil : Normal [] := ⟨.nil, by simp⟩

theorem singleton {t : Term} (h : t.coeff ≠ 0) : Normal [t] :=
  ⟨List.pairwise_singleton _ t, by simpa using h⟩

theorem head {t : Term} {ts : List Term} (h : Normal (t :: ts)) {u : Term} (hu : u ∈ ts) :
    t.monomial.order u.monomial = .lt := (List.pairwise_cons.1 h.sorted).1 u hu

theorem tail {t : Term} {ts : List Term} (h : Normal (t :: ts)) : Normal ts :=
  ⟨(List.pairwise_cons.1 h.sorted).2, fun u hu => h.nonzero u (.tail _ hu)⟩

theorem cons {t : Term} {ts : List Term} (h : Normal ts) (ht : t.coeff ≠ 0)
    (hts : ∀ u ∈ ts, t.monomial.order u.monomial = .lt) : Normal (t :: ts) :=
  ⟨List.pairwise_cons.2 ⟨hts, h.sorted⟩, by
    intro u hu
    rcases List.mem_cons.1 hu with rfl | hu
    · exact ht
    · exact h.nonzero u hu⟩

theorem filter {ts : List Term} (h : Normal ts) (p : Term → Bool) : Normal (ts.filter p) :=
  ⟨h.sorted.filter p, fun t ht => h.nonzero t (List.mem_filter.1 ht).1⟩

end Normal

/-- A sum of terms. -/
structure Poly where
  terms : List Term
  normal : Normal terms
deriving DecidableEq

namespace Poly

def zero : Poly := ⟨[], .nil⟩

instance : Inhabited Poly := ⟨zero⟩

def constant (n : Int) : Poly := if h : n = 0 then zero else ⟨[⟨.one, n⟩], .singleton h⟩

def atom (a : Atom) : Poly := ⟨[⟨.ofAtom a, 1⟩], .singleton (by simp)⟩

/-- The value, if the polynomial is a constant. -/
def constant? (p : Poly) : Option Int :=
  match p.terms with
  | [] => some 0
  | [⟨m, n⟩] => if m = .one then some n else none
  | _ => none

/-- The coefficient of a monomial. -/
def coeff (p : Poly) (m : Monomial) : Int :=
  match p.terms.find? (·.monomial = m) with
  | some t => t.coeff
  | none => 0

/-- The variables that the atoms mention. -/
def vars (p : Poly) : Names := .unions (p.terms.flatMap fun t => t.monomial.factors.map Atom.vars)

/-- The terms other than that of a monomial. -/
def erase (m : Monomial) (p : Poly) : Poly :=
  ⟨p.terms.filter (·.monomial ≠ m), p.normal.filter _⟩

/-! ## Addition -/

/-- Adds one term to a sum of terms. -/
def insertTerm (t : Term) : List Term → Option (List Term)
  | [] => some [t]
  | u :: us =>
    match t.monomial.order u.monomial with
    | .lt => some (t :: u :: us)
    | .eq => do
      let sum ← fits? (u.coeff + t.coeff)
      return if sum = 0 then us else ⟨u.monomial, sum⟩ :: us
    | .gt => do
      let us ← insertTerm t us
      return u :: us

theorem monomial_of_insertTerm {t : Term} : ∀ {us vs : List Term}, insertTerm t us = some vs →
    ∀ v ∈ vs, v.monomial = t.monomial ∨ ∃ u ∈ us, u.monomial = v.monomial
  | [], vs, h => by
    simp only [insertTerm, Option.some.injEq] at h
    subst h
    simp
  | u :: us, vs, h => by
    rw [insertTerm] at h
    split at h
    · simp only [Option.some.injEq] at h
      subst h
      intro v hv
      rcases List.mem_cons.1 hv with rfl | hv
      · exact .inl rfl
      · exact .inr ⟨v, hv, rfl⟩
    · obtain ⟨sum, -, h⟩ := Option.bind_eq_some_iff.1 h
      simp only [Option.pure_def, Option.some.injEq] at h
      subst h
      intro v hv
      split at hv
      · exact .inr ⟨v, .tail _ hv, rfl⟩
      · rcases List.mem_cons.1 hv with rfl | hv
        · exact .inr ⟨u, .head _, rfl⟩
        · exact .inr ⟨v, .tail _ hv, rfl⟩
    · obtain ⟨ws, hws, h⟩ := Option.bind_eq_some_iff.1 h
      simp only [Option.pure_def, Option.some.injEq] at h
      subst h
      intro v hv
      rcases List.mem_cons.1 hv with rfl | hv
      · exact .inr ⟨v, .head _, rfl⟩
      · rcases monomial_of_insertTerm hws v hv with h | ⟨w, hw, h⟩
        · exact .inl h
        · exact .inr ⟨w, .tail _ hw, h⟩

theorem normal_insertTerm {t : Term} (ht : t.coeff ≠ 0) : ∀ {us vs : List Term},
    Normal us → insertTerm t us = some vs → Normal vs
  | [], vs, _, h => by
    simp only [insertTerm, Option.some.injEq] at h
    subst h
    exact .singleton ht
  | u :: us, vs, hus, h => by
    rw [insertTerm] at h
    split at h
    · rename_i htu
      simp only [Option.some.injEq] at h
      subst h
      refine hus.cons ht fun v hv => ?_
      rcases List.mem_cons.1 hv with rfl | hv
      · exact htu
      · exact Monomial.isOrder.trans _ _ _ htu (hus.head hv)
    · obtain ⟨sum, -, h⟩ := Option.bind_eq_some_iff.1 h
      simp only [Option.pure_def, Option.some.injEq] at h
      subst h
      split
      · exact hus.tail
      · rename_i hsum
        exact hus.tail.cons hsum fun v hv => hus.head hv
    · rename_i htu
      obtain ⟨ws, hws, h⟩ := Option.bind_eq_some_iff.1 h
      simp only [Option.pure_def, Option.some.injEq] at h
      subst h
      refine (normal_insertTerm ht hus.tail hws).cons (hus.nonzero u (.head _)) fun v hv => ?_
      rcases monomial_of_insertTerm hws v hv with hv | ⟨w, hw, hv⟩
      · rw [hv]
        exact (Monomial.isOrder.gt_iff _ _).1 htu
      · rw [← hv]
        exact hus.head hw

/-- Adds one term. -/
def addTerm (t : Term) (p : Poly) : Option Poly :=
  if ht : t.coeff = 0 then some p
  else
    match h : insertTerm t p.terms with
    | none => none
    | some terms => some ⟨terms, normal_insertTerm ht p.normal h⟩

def add (p q : Poly) : Option Poly := q.terms.foldlM (fun p t => addTerm t p) p

/-! ## Negation -/

/-- Negates each coefficient. -/
def negTerms : List Term → Option (List Term)
  | [] => some []
  | t :: ts => do
    let n ← fits? (-t.coeff)
    let ts ← negTerms ts
    return ⟨t.monomial, n⟩ :: ts

theorem of_negTerms : ∀ {ts us : List Term}, negTerms ts = some us →
    ∀ u ∈ us, ∃ t ∈ ts, t.monomial = u.monomial ∧ u.coeff = -t.coeff
  | [], us, h => by
    simp only [negTerms, Option.some.injEq] at h
    subst h
    simp
  | t :: ts, us, h => by
    rw [negTerms] at h
    obtain ⟨n, hn, h⟩ := Option.bind_eq_some_iff.1 h
    obtain ⟨ws, hws, h⟩ := Option.bind_eq_some_iff.1 h
    simp only [Option.pure_def, Option.some.injEq] at h
    subst h
    intro u hu
    rcases List.mem_cons.1 hu with rfl | hu
    · exact ⟨t, .head _, rfl, fits?_eq_some hn⟩
    · obtain ⟨s, hs, h⟩ := of_negTerms hws u hu
      exact ⟨s, .tail _ hs, h⟩

theorem normal_negTerms : ∀ {ts us : List Term}, Normal ts → negTerms ts = some us → Normal us
  | [], us, _, h => by
    simp only [negTerms, Option.some.injEq] at h
    subst h
    exact .nil
  | t :: ts, us, hts, h => by
    rw [negTerms] at h
    obtain ⟨n, hn, h⟩ := Option.bind_eq_some_iff.1 h
    obtain ⟨ws, hws, h⟩ := Option.bind_eq_some_iff.1 h
    simp only [Option.pure_def, Option.some.injEq] at h
    subst h
    have ht := hts.nonzero t (.head _)
    refine (normal_negTerms hts.tail hws).cons ?_ fun v hv => ?_
    · show n ≠ 0
      rw [fits?_eq_some hn]
      omega
    · obtain ⟨s, hs, hm, -⟩ := of_negTerms hws v hv
      rw [← hm]
      exact hts.head hs

def neg (p : Poly) : Option Poly :=
  match h : negTerms p.terms with
  | none => none
  | some terms => some ⟨terms, normal_negTerms p.normal h⟩

def sub (p q : Poly) : Option Poly := do
  let q ← q.neg
  p.add q

/-! ## Multiplication -/

/-- Adds the product of two terms. -/
def addProduct (s t : Term) (p : Poly) : Option Poly := do
  let n ← fits? (s.coeff * t.coeff)
  p.addTerm ⟨s.monomial.mul t.monomial, n⟩

def mul (p q : Poly) : Option Poly :=
  p.terms.foldlM (fun r s => q.terms.foldlM (fun r t => addProduct s t r) r) zero

end Poly

end ReaderGen
