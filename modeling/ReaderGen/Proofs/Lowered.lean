import ReaderGen.Proofs.Meaning

/-!
# What lowering makes

Only some atoms ever come out of an expression: variables, atoms with a subscript that itself came out
of one, and divisions that could not be taken further. What holds of them and of the texts made of them
is shown by going through these three cases.

* `Fits`, `Poly.Fits.add` and the like: every coefficient is a 64-bit integer.
* `Atom.Lowered`, `Poly.Lowered`: the atoms and polynomials that lowering makes.
* `Atom.Kept`, `Atom.Kept.stepwise`: what holds of variables and is kept by the other two cases holds
  of all that lowering makes.
* `Expr.lowered_of_lowering`: lowering makes no others.
-/

namespace ReaderGen

/-! ## 64-bit coefficients -/

/-- The number is a 64-bit integer. -/
def Fits (n : Int) : Prop := -9223372036854775808 ≤ n ∧ n ≤ 9223372036854775807

instance (n : Int) : Decidable (Fits n) := inferInstanceAs (Decidable (_ ∧ _))

theorem fits?_eq_some_iff {n k : Int} : fits? n = some k ↔ k = n ∧ Fits n := by
  unfold fits? Fits
  split
  · rename_i h
    simp [h, eq_comm]
  · rename_i h
    simp [h]

namespace Poly

/-- Every coefficient is a 64-bit integer. -/
def Fits (p : Poly) : Prop := ∀ t ∈ p.terms, ReaderGen.Fits t.coeff

theorem fits_insertTerm {t : Term} (ht : ReaderGen.Fits t.coeff) : ∀ {us vs : List Term},
    insertTerm t us = some vs → (∀ u ∈ us, ReaderGen.Fits u.coeff) →
      ∀ v ∈ vs, ReaderGen.Fits v.coeff
  | [], vs, h, _ => by
    simp only [insertTerm, Option.some.injEq] at h
    subst h
    simpa using ht
  | u :: us, vs, h, hus => by
    rw [insertTerm] at h
    split at h
    · cases h
      exact List.forall_mem_cons.2 ⟨ht, hus⟩
    · obtain ⟨sum, hsum, h⟩ := Option.bind_eq_some_iff.1 h
      cases h
      obtain ⟨rfl, hfits⟩ := fits?_eq_some_iff.1 hsum
      have hrest : ∀ v ∈ us, ReaderGen.Fits v.coeff := fun v hv => hus v (.tail _ hv)
      split
      · exact hrest
      · exact List.forall_mem_cons.2 ⟨hfits, hrest⟩
    · obtain ⟨ws, hws, h⟩ := Option.bind_eq_some_iff.1 h
      cases h
      have hrest := fits_insertTerm ht hws fun v hv => hus v (.tail _ hv)
      exact List.forall_mem_cons.2 ⟨hus u (.head _), hrest⟩

namespace Fits

theorem zero : Poly.zero.Fits := by intro t ht; cases ht

theorem constant {n : Int} (hn : ReaderGen.Fits n) : (Poly.constant n).Fits := by
  unfold Poly.constant
  split
  · exact zero
  · simpa [Poly.Fits] using hn

theorem atom (a : Atom) : (Poly.atom a).Fits := by
  simp [Poly.Fits, Poly.atom, ReaderGen.Fits]

theorem erase {p : Poly} (h : p.Fits) (m : Monomial) : (p.erase m).Fits :=
  fun t ht => h t (List.mem_filter.1 ht).1

theorem constant? {p : Poly} (h : p.Fits) {n : Int} (hn : p.constant? = some n) :
    ReaderGen.Fits n := by
  unfold Poly.constant? at hn
  split at hn
  · cases hn
    decide
  · rename_i m k ht
    split at hn
    · cases hn
      exact h ⟨m, n⟩ (by simp [ht])
    · cases hn
  · cases hn

theorem addTerm {t : Term} {p r : Poly} (h : Poly.addTerm t p = some r) (hp : p.Fits)
    (ht : ReaderGen.Fits t.coeff) : r.Fits := by
  rcases terms_of_addTerm h with ⟨-, rfl⟩ | h
  · exact hp
  · exact fits_insertTerm ht h hp

theorem add {p q r : Poly} (h : p.add q = some r) (hp : p.Fits) (hq : q.Fits) : r.Fits :=
  foldlM_keeps h hp fun t ht _ _ h hr => addTerm h hr (hq t ht)

theorem negTerms : ∀ {ts us : List Term}, Poly.negTerms ts = some us →
    ∀ u ∈ us, ReaderGen.Fits u.coeff
  | [], us, h => by cases h; simp
  | t :: ts, us, h => by
    obtain ⟨n, hn, h⟩ := Option.bind_eq_some_iff.1 h
    obtain ⟨ws, hws, h⟩ := Option.bind_eq_some_iff.1 h
    cases h
    obtain ⟨rfl, hfits⟩ := fits?_eq_some_iff.1 hn
    exact List.forall_mem_cons.2 ⟨hfits, negTerms hws⟩

theorem neg {p r : Poly} (h : p.neg = some r) : r.Fits := negTerms (terms_of_neg h)

theorem sub {p q r : Poly} (h : p.sub q = some r) (hp : p.Fits) : r.Fits := by
  obtain ⟨q', hq', h⟩ := Option.bind_eq_some_iff.1 h
  exact add h hp (neg hq')

theorem addProduct {s t : Term} {p r : Poly} (h : Poly.addProduct s t p = some r) (hp : p.Fits) :
    r.Fits := by
  obtain ⟨n, hn, h⟩ := Option.bind_eq_some_iff.1 h
  obtain ⟨rfl, hfits⟩ := fits?_eq_some_iff.1 hn
  exact addTerm h hp hfits

theorem mul {p q r : Poly} (h : p.mul q = some r) : r.Fits :=
  foldlM_keeps h zero fun _ _ _ _ h hr => foldlM_keeps h hr fun _ _ _ _ h hr => addProduct h hr

end Fits

end Poly

/-! ## Atoms and polynomials that lowering makes -/

/-- The atom of a division that is left as it is. -/
def Division.atom (part : Division) (p q : Poly) : Atom :=
  ⟨p.operandText ++ " " ++ part.symbol ++ " " ++ q.operandText, true, p.vars.union q.vars⟩

/-- The atoms that lowering makes: variables, subscripts of what is no division, and divisions that
are left as they are. -/
inductive Atom.Lowered : Atom → Prop
  | var {x : String} (hx : Word.IsVariable x) : Lowered (.var x)
  | subscript {a : Atom} {i : Poly} (ha : Lowered a) (hc : a.compound = false)
      (hi : ∀ t ∈ i.terms, ∀ b ∈ t.monomial.factors, Lowered b) (hfits : i.Fits) :
      Lowered (a.subscript i)
  | division {part : Division} {p q : Poly}
      (hp : ∀ t ∈ p.terms, ∀ b ∈ t.monomial.factors, Lowered b)
      (hq : ∀ t ∈ q.terms, ∀ b ∈ t.monomial.factors, Lowered b)
      (hpf : p.Fits) (hqf : q.Fits) (h : part.apply p q = .ok (.atom (part.atom p q))) :
      Lowered (part.atom p q)

/-- The polynomials that lowering makes. -/
structure Poly.Lowered (p : Poly) : Prop where
  atoms : p.All Atom.Lowered
  fits : p.Fits

namespace Atom.Lowered

theorem legible {a : Atom} (h : a.Lowered) : a.Legible := by
  induction h with
  | var hx => exact (stands_var hx).legible
  | subscript ha hc hi hfits iha ihi => exact (legible_subscript iha hc ihi).1
  | division hp hq hpf hqf h ihp ihq => exact (Division.legible_quotient _ ihp ihq _).1

end Atom.Lowered

namespace Poly.Lowered

theorem legible {p : Poly} (h : p.Lowered) : p.All Atom.Legible :=
  fun t ht a ha => (h.atoms t ht a ha).legible

theorem erase {p : Poly} (h : p.Lowered) (m : Monomial) : (p.erase m).Lowered :=
  ⟨h.atoms.erase m, h.fits.erase m⟩

end Poly.Lowered

/-! ## The trees of these atoms -/

namespace Atom

theorem tree_var {x : String} (hx : Word.IsVariable x) : (var x).tree = .name x :=
  tree_of_spelled (e := .name x) hx rfl

theorem tree_subscript {a : Atom} {i : Poly} (ha : a.Lowered) (hc : a.compound = false)
    (hi : i.All Lowered) : (a.subscript i).tree = .index a.tree i.tree :=
  (legible_subscript ha.legible hc fun t ht b hb => (hi t ht b hb).legible).2

theorem tree_division {part : Division} {p q : Poly} (hp : p.All Lowered) (hq : q.All Lowered) :
    (part.atom p q).tree = .binary part.op p.operandTree q.operandTree :=
  (part.legible_quotient (fun t ht b hb => (hp t ht b hb).legible)
    (fun t ht b hb => (hq t ht b hb).legible) (p.vars.union q.vars)).2

theorem Lowered.division_of_compound {a : Atom} (h : a.Lowered) (hc : a.compound = true) :
    ∃ (part : Division) (left right : Expr), a.tree = .binary part.op left right ∧
      left.level = 0 := by
  cases h with
  | var hx => cases hc
  | subscript => cases hc
  | division hp hq =>
    exact ⟨_, _, _, tree_division hp hq,
      (Poly.bracketed_operandTree fun t ht b hb => (hp t ht b hb).legible).2⟩

end Atom

/-! ## Lowering makes no others -/

/-- The property holds of variables of `V`, and subscripts and divisions that are left as they are
keep it. -/
structure Atom.Kept (V : String → Prop) (A : Atom → Prop) : Prop where
  var {x : String} (hx : V x) : A (.var x)
  subscript {a : Atom} {i : Poly} (ha : A a) (hc : a.compound = false) (hi : i.All A)
    (hfits : i.Fits) : A (a.subscript i)
  division {part : Division} {p q : Poly} (hp : p.All A) (hq : q.All A) (hpf : p.Fits)
    (hqf : q.Fits) (h : part.apply p q = .ok (.atom (part.atom p q))) : A (part.atom p q)

namespace Division

/-- What can become of a division: two constants are divided, a division by 1 is taken at once, and
any other one is left as it is. -/
theorem apply_cases {part : Division} {p q r : Poly} (h : part.apply p q = .ok r) :
    (∃ a b n, p.constant? = some a ∧ q.constant? = some b ∧ part.constants a b = some n ∧
      r = .constant n) ∨
    r = p ∨ r = .zero ∨ r = .atom (part.atom p q) := by
  unfold apply at h
  split at h
  · cases h
  · rename_i a b _ ha hb
    cases hn : part.constants a b with
    | none => rw [hn] at h; cases h
    | some n =>
      rw [hn] at h
      exact .inl ⟨a, b, n, ha, hb, hn, (Except.ok.inj h).symm⟩
  · cases part with
    | quotient => exact .inr (.inl (Except.ok.inj h).symm)
    | remainder => exact .inr (.inr (.inl (Except.ok.inj h).symm))
  · exact .inr (.inr (.inr (Except.ok.inj h).symm))

theorem fits_constants {part : Division} {a b n : Int} (ha : Fits a)
    (h : part.constants a b = some n) : Fits n := by
  cases part with
  | quotient =>
    obtain ⟨rfl, hfits⟩ := fits?_eq_some_iff.1 h
    exact hfits
  | remainder =>
    -- a remainder lies between zero and what is divided
    obtain ⟨k, -, rfl⟩ := Option.map_eq_some_iff.1 h
    have habs : (a.tmod b).natAbs ≤ a.natAbs := by
      rw [Int.natAbs_tmod]
      exact Nat.mod_le ..
    have hneg : a ≤ 0 → a.tmod b ≤ 0 := by
      intro ha
      have h := Int.tmod_nonneg b (Int.neg_nonneg.2 ha)
      rw [Int.neg_tmod] at h
      omega
    unfold Fits at ha ⊢
    omega

end Division

section

variable {V : String → Prop} {A : Atom → Prop} (hA : Atom.Kept V A)
include hA

theorem Division.kept_apply {part : Division} {p q r : Poly} (hp : p.All A ∧ p.Fits)
    (hq : q.All A ∧ q.Fits) (h : part.apply p q = .ok r) : r.All A ∧ r.Fits := by
  rcases apply_cases h with ⟨a, b, n, ha, -, hn, rfl⟩ | rfl | rfl | rfl
  · exact ⟨.constant n, .constant (fits_constants (hp.2.constant? ha) hn)⟩
  · exact hp
  · exact ⟨.zero, .zero⟩
  · exact ⟨.atom (hA.division hp.1 hq.1 hp.2 hq.2 h), .atom _⟩

theorem BinaryOp.kept_apply {op : BinaryOp} {p q r : Poly} (hp : p.All A ∧ p.Fits)
    (hq : q.All A ∧ q.Fits) (h : op.apply p q = .ok r) : r.All A ∧ r.Fits := by
  cases op with
  | add =>
    have h := orOverflow_eq_ok h
    exact ⟨.add h hp.1 hq.1, .add h hp.2 hq.2⟩
  | sub =>
    have h := orOverflow_eq_ok h
    exact ⟨.sub h hp.1 hq.1, .sub h hp.2⟩
  | mul =>
    have h := orOverflow_eq_ok h
    exact ⟨.mul h hp.1 hq.1, .mul h⟩
  | div => exact Division.kept_apply hA hp hq h
  | rem => exact Division.kept_apply hA hp hq h
  | other s => cases h

/-- What is kept holds of every atom of the polynomial of an expression, and of the atom of a
subscripted variable, which is not a division. -/
theorem Atom.Kept.stepwise : Expr.Stepwise V (fun _ p => p.All A ∧ p.Fits)
    (fun _ a => A a ∧ a.compound = false) where
  int := by
    intro text n k hk
    obtain ⟨rfl, hfits⟩ := fits?_eq_some_iff.1 hk
    exact ⟨.constant _, .constant hfits⟩
  name := fun hid => ⟨⟨.atom (hA.var hid), .atom _⟩, hA.var hid, rfl⟩
  index := by
    intro array subscript a i ha hi
    have hplace : A (a.subscript i) := hA.subscript ha.1 ha.2 hi.1 hi.2
    exact ⟨⟨.atom hplace, .atom _⟩, hplace, rfl⟩
  paren := fun _ => ⟨fun _ => id, fun _ => id⟩
  group := fun _ _ => id
  neg := fun _ _ _ hp h => ⟨.neg h hp.1, .neg h⟩
  binary := fun _ _ _ _ _ _ hp hq h => BinaryOp.kept_apply hA hp hq h
  attributed := fun _ _ => ⟨fun _ => id, fun _ => id⟩

end

theorem Atom.kept_lowered : Atom.Kept Word.IsVariable Atom.Lowered := ⟨.var, .subscript, .division⟩

/-- The polynomial of an expression is one of these, and so is the atom of a subscripted variable,
which is not a division. -/
theorem Expr.lowered_of_lowering {e : Expr} (hn : ∀ x ∈ e.names, Word.IsVariable x) :
    (∀ p, e.toPoly = .ok p → p.Lowered) ∧
      ∀ a, e.toAtom = .ok a → a.Lowered ∧ a.compound = false := by
  obtain ⟨hpoly, hatom⟩ := Atom.kept_lowered.stepwise.of_lowering hn
  exact ⟨fun p h => ⟨(hpoly p h).1, (hpoly p h).2⟩, hatom⟩

theorem lowered_of_polynomialOf {text : String} {p : Poly} (h : polynomialOf text = .ok p) :
    p.Lowered := by
  unfold polynomialOf at h
  split at h
  · rename_i e he
    have hp := Expr.toPoly_of_polynomial h
    exact (Expr.lowered_of_lowering (Expr.readable_of_parse he hp).variable).1 p hp
  · cases h
  · cases h

/-- A canonical text spells a polynomial that lowering makes. -/
theorem CanonicalText.lowered {s : String} (h : CanonicalText s) :
    ∃ p : Poly, p.Lowered ∧ s = p.text := by
  rcases h with ⟨e, hr, h⟩ | ⟨text, x, h⟩
  · obtain ⟨p, hp, hs⟩ := ok_of_bind h
    have hlowered := (Expr.lowered_of_lowering hr.variable).1 p (Expr.toPoly_of_polynomial hp)
    exact ⟨p, hlowered, (Except.ok.inj hs).symm⟩
  · obtain ⟨p, hp, hs⟩ := ok_of_bind h
    obtain ⟨q, hq, rfl⟩ := Option.map_eq_some_iff.1 (Except.ok.inj hs)
    rw [Poly.eq_of_offset? hq]
    exact ⟨_, (lowered_of_polynomialOf hp).erase _, rfl⟩

theorem Poly.Lowered.polynomialOf_text {p : Poly} (h : p.Lowered) :
    polynomialOf p.text = p.tree.polynomial := by
  rw [polynomialOf, Poly.parse_text h.legible]

end ReaderGen
