import ReaderGen.Proofs.Lowered

/-!
# Lowering a canonical text again

The tree of a canonical text is a chain of sums and products of the trees of its atoms. What all parts of
the tree have in common is what all its atoms and numbers have in common, and lowering the tree again
gives the same polynomial as long as two things hold of its parts: every number is a 64-bit integer, and
no minus sign stands directly before something that is divided.

* `Expr.nodes`, `Expr.Everywhere`: the parts of a tree, and a property of all of them.
* `Poly.everywhere_of_tree`, `Poly.everywhere_tree`: the parts of a canonical text.
* `Expr.Settled`: what lowering again asks of a part.
* `Poly.toPoly_tree`: lowering the tree again gives the same polynomial.
-/

namespace ReaderGen

/-! ## The parts of a tree -/

namespace Expr

/-- The parts of an expression, itself first. -/
def nodes : Expr → List Expr
  | index array subscript => index array subscript :: (array.nodes ++ subscript.nodes)
  | paren inner => paren inner :: inner.nodes
  | group inner => group inner :: inner.nodes
  | unary op operand => unary op operand :: operand.nodes
  | binary op left right => binary op left right :: (left.nodes ++ right.nodes)
  | attributed attributes inner => attributed attributes inner :: inner.nodes
  | e => [e]

/-- The property holds of every part of the expression. -/
def Everywhere (Q : Expr → Prop) (e : Expr) : Prop := ∀ x ∈ e.nodes, Q x

instance (Q : Expr → Prop) [DecidablePred Q] (e : Expr) : Decidable (e.Everywhere Q) :=
  inferInstanceAs (Decidable (∀ x ∈ e.nodes, Q x))

section

variable {Q : Expr → Prop}

theorem Everywhere.self {e : Expr} (h : e.Everywhere Q) : Q e := by
  refine h e ?_
  cases e <;> exact .head _

theorem everywhere_leaf {e : Expr} (h : e.nodes = [e]) : e.Everywhere Q ↔ Q e := by
  simp [Everywhere, h]

theorem everywhere_number {n : Nat} : (number n).Everywhere Q ↔ Q (number n) := everywhere_leaf rfl

theorem everywhere_index {array subscript : Expr} : (index array subscript).Everywhere Q ↔
    Q (index array subscript) ∧ array.Everywhere Q ∧ subscript.Everywhere Q := by
  simp [Everywhere, nodes, or_imp, forall_and]

theorem everywhere_paren {inner : Expr} :
    (paren inner).Everywhere Q ↔ Q (paren inner) ∧ inner.Everywhere Q := by
  simp [Everywhere, nodes]

theorem everywhere_group {inner : Expr} :
    (group inner).Everywhere Q ↔ Q (group inner) ∧ inner.Everywhere Q := by
  simp [Everywhere, nodes]

theorem everywhere_attributed {attributes : List Token} {inner : Expr} :
    (attributed attributes inner).Everywhere Q ↔
      Q (attributed attributes inner) ∧ inner.Everywhere Q := by
  simp [Everywhere, nodes]

theorem everywhere_unary {op : UnaryOp} {operand : Expr} :
    (unary op operand).Everywhere Q ↔ Q (unary op operand) ∧ operand.Everywhere Q := by
  simp [Everywhere, nodes]

theorem everywhere_binary {op : BinaryOp} {left right : Expr} :
    (binary op left right).Everywhere Q ↔
      Q (binary op left right) ∧ left.Everywhere Q ∧ right.Everywhere Q := by
  simp [Everywhere, nodes, or_imp, forall_and]

/-- The property asks nothing of brackets, signs, sums and products, nor of the numbers that a text
does without where it can. -/
structure Neutral (Q : Expr → Prop) : Prop where
  zero : Q (number 0)
  one : Q (number 1)
  paren : ∀ inner, Q (.paren inner)
  neg : ∀ operand, Q (.unary .neg operand)
  add : ∀ left right, Q (.binary .add left right)
  sub : ∀ left right, Q (.binary .sub left right)
  mul : ∀ left right, Q (.binary .mul left right)

theorem Everywhere.of_negated (hQ : ∀ op left right, Q (.binary op left.negated right) →
    Q (.binary op left right)) {e : Expr} (h : e.negated.Everywhere Q) : e.Everywhere Q := by
  induction e with
  | binary op left right ih _ =>
    obtain ⟨hop, hl, hr⟩ := everywhere_binary.1 h
    exact everywhere_binary.2 ⟨hQ op left right hop, ih hl, hr⟩
  | _ => exact (everywhere_unary.1 h).2

theorem Everywhere.negated (hQ : Neutral Q) (hop : ∀ op left right, Q (.binary op left right) →
    Q (.binary op left.negated right)) {e : Expr} (h : e.Everywhere Q) : e.negated.Everywhere Q := by
  induction e with
  | binary op left right ih _ =>
    obtain ⟨hb, hl, hr⟩ := everywhere_binary.1 h
    exact everywhere_binary.2 ⟨hop op left right hb, ih hl, hr⟩
  | _ => exact everywhere_unary.2 ⟨hQ.neg _, h⟩

end

end Expr

/-! ## Numbers -/

namespace Expr

/-- The number is at most this large. -/
def AtMost (bound : Nat) : Expr → Prop
  | int n _ => n ≤ bound
  | _ => True

/-- Only 64-bit integers are lowered. -/
theorem atMost_of_lowering {e : Expr} :
    (∀ p, e.toPoly = .ok p → e.Everywhere (AtMost 9223372036854775807)) ∧
      ∀ a, e.toAtom = .ok a → e.Everywhere (AtMost 9223372036854775807) := by
  have hsteps : Stepwise (fun _ => True) (fun e _ => e.Everywhere (AtMost 9223372036854775807))
      (fun e _ => e.Everywhere (AtMost 9223372036854775807)) := {
    int := by
      intro text n k hk
      obtain ⟨-, hfits⟩ := fits?_eq_some_iff.1 hk
      unfold Fits at hfits
      refine (everywhere_leaf rfl).2 ?_
      show n ≤ _
      omega
    name := fun _ => ⟨(everywhere_leaf rfl).2 trivial, (everywhere_leaf rfl).2 trivial⟩
    index := fun _ _ _ _ ha hi =>
      ⟨everywhere_index.2 ⟨trivial, ha, hi⟩, everywhere_index.2 ⟨trivial, ha, hi⟩⟩
    paren := fun _ => ⟨fun _ h => everywhere_paren.2 ⟨trivial, h⟩,
      fun _ h => everywhere_paren.2 ⟨trivial, h⟩⟩
    group := fun _ _ h => everywhere_group.2 ⟨trivial, h⟩
    neg := fun _ _ _ h _ => everywhere_unary.2 ⟨trivial, h⟩
    binary := fun _ _ _ _ _ _ hl hr _ => everywhere_binary.2 ⟨trivial, hl, hr⟩
    attributed := fun _ _ => ⟨fun _ h => everywhere_attributed.2 ⟨trivial, h⟩,
      fun _ h => everywhere_attributed.2 ⟨trivial, h⟩⟩ }
  exact hsteps.of_lowering fun _ _ => trivial

end Expr

/-! ## The parts of a canonical text -/

/-- The property holds of the coefficient and of every part of the atoms. -/
def Term.Everywhere (Q : Expr → Prop) (t : Term) : Prop :=
  Q (Expr.number t.coeff.natAbs) ∧ ∀ a ∈ t.monomial.factors, a.tree.Everywhere Q

namespace Poly

open ReaderGen.Expr

section

variable {Q : Expr → Prop}

theorem everywhere_factorTree (hQ : Neutral Q) {a : Atom} :
    (factorTree a).Everywhere Q ↔ a.tree.Everywhere Q := by
  rw [factorTree]
  split
  · rw [everywhere_paren]
    exact and_iff_right (hQ.paren _)
  · rfl

theorem everywhere_productTree (hQ : Neutral Q) {e : Expr} {as : List Atom} :
    (productTree e as).Everywhere Q ↔ e.Everywhere Q ∧ ∀ a ∈ as, a.tree.Everywhere Q := by
  induction as generalizing e with
  | nil => simp [productTree]
  | cons a as ih =>
    have hstep : (Expr.binary .mul e (factorTree a)).Everywhere Q ↔
        e.Everywhere Q ∧ a.tree.Everywhere Q := by
      rw [everywhere_binary, everywhere_factorTree hQ]
      exact and_iff_right (hQ.mul _ _)
    rw [List.forall_mem_cons, ← and_assoc, ← hstep]
    exact ih

theorem everywhere_termTree (hQ : Neutral Q) {t : Term} :
    (termTree t).Everywhere Q ↔ t.Everywhere Q := by
  rw [Term.Everywhere]
  rcases termTree_cases t with ⟨hf, ht, -⟩ | ⟨a, hf, h1, ht, -⟩ | ⟨a, as, hf, -, h1, ht, -⟩ |
    ⟨-, ht, -⟩
  · simp [ht, hf, everywhere_number]
  · simp [ht, hf, h1, hQ.one]
  · rw [ht, hf, h1, everywhere_productTree hQ, everywhere_factorTree hQ, List.forall_mem_cons]
    exact (and_iff_right hQ.one).symm
  · rw [ht, everywhere_productTree hQ, everywhere_number]

theorem everywhere_sumTree (hQ : Neutral Q) {e : Expr} {ts : List Term} :
    (sumTree e ts).Everywhere Q ↔ e.Everywhere Q ∧ ∀ t ∈ ts, t.Everywhere Q := by
  induction ts generalizing e with
  | nil => simp [sumTree]
  | cons t ts ih =>
    have hstep : (Expr.binary (if t.coeff < 0 then .sub else .add) e (termTree t)).Everywhere Q ↔
        e.Everywhere Q ∧ t.Everywhere Q := by
      rw [everywhere_binary, everywhere_termTree hQ]
      refine and_iff_right ?_
      split
      · exact hQ.sub _ _
      · exact hQ.add _ _
    rw [List.forall_mem_cons, ← and_assoc, ← hstep]
    exact ih

/-- What holds of every part of the tree holds of every part of the terms. -/
theorem everywhere_of_tree (hQ : Neutral Q) (hneg : ∀ op left right,
    Q (.binary op left.negated right) → Q (.binary op left right)) {p : Poly}
    (h : p.tree.Everywhere Q) : ∀ t ∈ p.terms, t.Everywhere Q := by
  intro t ht
  rw [← mem_written] at ht
  rw [tree] at h
  split at h
  · rename_i hts
    rw [hts] at ht
    cases ht
  · rename_i u us hts
    rw [hts] at ht
    obtain ⟨hu, hus⟩ := (everywhere_sumTree hQ).1 h
    rcases List.mem_cons.1 ht with rfl | ht
    · rw [← everywhere_termTree hQ]
      split at hu
      · exact hu.of_negated hneg
      · exact hu
    · exact hus t ht

/-- What holds of every part of the terms holds of every part of the tree. -/
theorem everywhere_tree (hQ : Neutral Q) (hneg : ∀ op left right,
    Q (.binary op left right) → Q (.binary op left.negated right)) {p : Poly}
    (h : ∀ t ∈ p.terms, t.Everywhere Q) : p.tree.Everywhere Q := by
  have hw : ∀ t ∈ p.written, t.Everywhere Q := fun t ht => h t (mem_written.1 ht)
  rw [tree]
  split
  · exact everywhere_number.2 hQ.zero
  · rename_i u us hts
    rw [hts] at hw
    obtain ⟨hu, hus⟩ := List.forall_mem_cons.1 hw
    refine (everywhere_sumTree hQ).2 ⟨?_, hus⟩
    split
    · exact ((everywhere_termTree hQ).2 hu).negated hQ hneg
    · exact (everywhere_termTree hQ).2 hu

theorem everywhere_operandTree (hQ : Neutral Q) {p : Poly} :
    p.operandTree.Everywhere Q ↔ p.tree.Everywhere Q := by
  rw [operandTree]
  split
  · rfl
  · rw [everywhere_paren]
    exact and_iff_right (hQ.paren _)

end

end Poly

/-! ## What is asked of a part -/

/-- A number is a 64-bit integer, and no minus sign stands directly before what is divided. -/
def Expr.Settled : Expr → Prop
  | int n _ => n ≤ 9223372036854775807
  | binary op left _ => op = .div ∨ op = .rem → left.level ≠ 1
  | _ => True

instance : DecidablePred Expr.Settled
  | .int n _ => inferInstanceAs (Decidable (n ≤ 9223372036854775807))
  | .binary op left _ => inferInstanceAs (Decidable (op = .div ∨ op = .rem → left.level ≠ 1))
  | .literal _ | .name _ | .path _ | .index _ _ | .paren _ | .group _ | .unary _ _
  | .attributed _ _ | .foreign _ _ => isTrue trivial

theorem Expr.neutral_settled : Neutral Settled where
  zero := Nat.zero_le _
  one := by decide
  paren _ := trivial
  neg _ := trivial
  add _ _ := by simp [Settled]
  sub _ _ := by simp [Settled]
  mul _ _ := by simp [Settled]

theorem Expr.settled_of_negated (op : BinaryOp) (left right : Expr)
    (h : (Expr.binary op left.negated right).Settled) : (Expr.binary op left right).Settled := by
  intro hop hl
  refine h hop ?_
  rw [level_negated, hl]
  rfl

theorem Division.op_cases (part : Division) : part.op = .div ∨ part.op = .rem := by
  cases part
  · exact .inl rfl
  · exact .inr rfl

/-! ## Terms that come back -/

namespace Expr

/-- The expression is lowered to the sum of these terms. -/
def LowersTo (e : Expr) (ts : List Term) : Prop := ∃ p, e.toPoly = .ok p ∧ p.terms = ts

end Expr

theorem Poly.eq_of_terms {p q : Poly} (h : p.terms = q.terms) : p = q := by
  cases p
  cases q
  cases h
  rfl

/-- Products of the same factors are the same product. -/
theorem Monomial.eq_of_perm {m n : Monomial} (h : m.factors.Perm n.factors) : m = n := by
  have hfactors : m.factors = n.factors := by
    refine h.eq_of_pairwise (fun a b _ _ hab hba => ?_) m.sorted n.sorted
    rw [Ne, Atom.isOrder.gt_iff] at hba
    cases hord : a.order b with
    | lt => exact absurd hord hba
    | eq => exact (Atom.isOrder.eq_iff a b).1 hord
    | gt => exact absurd hord hab
  cases m
  cases n
  cases hfactors
  rfl

/-- Sums of the same terms are the same sum. -/
theorem Poly.eq_of_perm {p q : Poly} (h : p.terms.Perm q.terms) : p = q := by
  refine eq_of_terms (h.eq_of_pairwise (fun s t _ _ hst hts => ?_) p.normal.sorted q.normal.sorted)
  have hself := Monomial.isOrder.trans _ _ _ hst hts
  rw [(Monomial.isOrder.eq_iff _ _).2 rfl] at hself
  cases hself

theorem Monomial.perm_insertFactor (a : Atom) (bs : List Atom) :
    (insertFactor a bs).Perm (a :: bs) := by
  induction bs with
  | nil => exact .refl _
  | cons b bs ih =>
    rw [insertFactor]
    split
    · exact (ih.cons b).trans (.swap a b bs)
    · exact .refl _

theorem Monomial.perm_mul (m n : Monomial) :
    (m.mul n).factors.Perm (m.factors ++ n.factors) := by
  show (m.factors.foldr insertFactor n.factors).Perm _
  induction m.factors with
  | nil => exact .refl _
  | cons a as ih => exact (perm_insertFactor a _).trans (ih.cons a)

namespace Poly

theorem exists_addTerm {t : Term} (ht : t.coeff ≠ 0) {p : Poly} {us : List Term}
    (h : insertTerm t p.terms = some us) : ∃ r, addTerm t p = some r ∧ r.terms = us := by
  refine ⟨⟨us, normal_insertTerm ht p.normal h⟩, ?_, rfl⟩
  unfold addTerm
  rw [dif_neg ht]
  split
  · rename_i hnone
    rw [h] at hnone
    cases hnone
  · rename_i vs hvs
    rw [h] at hvs
    cases hvs
    rfl

theorem exists_neg {p : Poly} {us : List Term} (h : negTerms p.terms = some us) :
    ∃ r, p.neg = some r ∧ r.terms = us := by
  refine ⟨⟨us, normal_negTerms p.normal h⟩, ?_, rfl⟩
  unfold neg
  split
  · rename_i hnone
    rw [h] at hnone
    cases hnone
  · rename_i vs hvs
    rw [h] at hvs
    cases hvs
    rfl

theorem insertTerm_of_new {t : Term} : ∀ {us : List Term}, (∀ u ∈ us, u.monomial ≠ t.monomial) →
    ∃ vs, insertTerm t us = some vs ∧ vs.Perm (t :: us)
  | [], _ => ⟨[t], rfl, .refl _⟩
  | u :: us, h => by
    obtain ⟨vs, hvs, hperm⟩ := insertTerm_of_new fun v hv => h v (.tail _ hv)
    rw [insertTerm]
    cases hord : t.monomial.order u.monomial with
    | lt => exact ⟨_, rfl, .refl _⟩
    | eq => exact absurd ((Monomial.isOrder.eq_iff _ _).1 hord).symm (h u (.head _))
    | gt => exact ⟨u :: vs, by rw [hvs]; rfl, (hperm.cons u).trans (.swap t u us)⟩

end Poly

namespace Expr

theorem lowersTo_number {n : Nat} (hn : n ≠ 0) (hfits : Fits n) :
    (number n).LowersTo [⟨.one, n⟩] := by
  have hn' : (n : Int) ≠ 0 := by omega
  refine ⟨.constant n, ?_, ?_⟩
  · rw [number, toPoly, fits?_eq_some_iff.2 ⟨rfl, hfits⟩]
  · rw [Poly.constant, dif_neg hn']

theorem LowersTo.neg {e : Expr} {t : Term} (h : e.LowersTo [t]) (hfits : Fits (-t.coeff)) :
    (unary .neg e).LowersTo [⟨t.monomial, -t.coeff⟩] := by
  obtain ⟨p, hp, ht⟩ := h
  have hneg : Poly.negTerms p.terms = some [⟨t.monomial, -t.coeff⟩] := by
    rw [ht, Poly.negTerms, fits?_eq_some_iff.2 ⟨rfl, hfits⟩]
    rfl
  obtain ⟨r, hr, hterms⟩ := Poly.exists_neg hneg
  refine ⟨r, ?_, hterms⟩
  rw [toPoly, hp]
  show orOverflow p.neg = _
  rw [hr]
  rfl

theorem LowersTo.mul {e f : Expr} {s t : Term} (he : e.LowersTo [s]) (hf : f.LowersTo [t])
    (hfits : Fits (s.coeff * t.coeff)) (h0 : s.coeff * t.coeff ≠ 0) :
    (binary .mul e f).LowersTo [⟨s.monomial.mul t.monomial, s.coeff * t.coeff⟩] := by
  obtain ⟨p, hp, hs⟩ := he
  obtain ⟨q, hq, ht⟩ := hf
  obtain ⟨r, hr, hterms⟩ := Poly.exists_addTerm (p := Poly.zero)
    (t := ⟨s.monomial.mul t.monomial, s.coeff * t.coeff⟩) h0 rfl
  refine ⟨r, ?_, hterms⟩
  have hmul : p.mul q = some r := by
    rw [Poly.mul, hs, ht]
    simp only [List.foldlM_cons, List.foldlM_nil, Poly.addProduct,
      fits?_eq_some_iff.2 ⟨rfl, hfits⟩]
    simp [hr]
  rw [toPoly, hp, hq]
  show orOverflow (p.mul q) = _
  rw [hmul]
  rfl

theorem LowersTo.add {e f : Expr} {ts : List Term} {t : Term} (he : e.LowersTo ts)
    (hf : f.LowersTo [t]) (ht : t.coeff ≠ 0) (hnew : ∀ u ∈ ts, u.monomial ≠ t.monomial) :
    ∃ us, (binary .add e f).LowersTo us ∧ us.Perm (t :: ts) := by
  obtain ⟨p, hp, rfl⟩ := he
  obtain ⟨q, hq, hterm⟩ := hf
  obtain ⟨us, hus, hperm⟩ := Poly.insertTerm_of_new hnew
  obtain ⟨r, hr, rfl⟩ := Poly.exists_addTerm ht hus
  refine ⟨r.terms, ⟨r, ?_, rfl⟩, hperm⟩
  have hadd : p.add q = some r := by
    rw [Poly.add, hterm]
    simp [hr]
  rw [toPoly, hp, hq]
  show orOverflow (p.add q) = _
  rw [hadd]
  rfl

/-- A difference is a sum with the negated operand. -/
theorem toPoly_sub (e f : Expr) (p : Poly) (he : e.toPoly = .ok p) :
    (binary .sub e f).toPoly = (binary .add e (.unary .neg f)).toPoly := by
  rw [toPoly, toPoly, he]
  show (f.toPoly >>= _) = ((unary .neg f).toPoly >>= _)
  rw [toPoly]
  cases f.toPoly with
  | error r => rfl
  | ok q =>
    show orOverflow (q.neg >>= _) = (orOverflow q.neg >>= _)
    cases q.neg with
    | none => rfl
    | some r => rfl

end Expr

/-! ## Products, terms and sums that come back -/

/-- The tree of the atom is lowered to the atom. -/
def Atom.Returns (a : Atom) : Prop := a.tree.toPoly = .ok (.atom a)

/-- What a term needs so as to come back: a coefficient whose size can be written, and atoms that come
back. -/
structure Term.Returnable (t : Term) : Prop where
  nonzero : t.coeff ≠ 0
  fits : Fits t.coeff.natAbs
  lowered : ∀ a ∈ t.monomial.factors, a.Lowered
  returns : ∀ a ∈ t.monomial.factors, a.Returns

namespace Poly

open ReaderGen.Expr

theorem lowersTo_factorTree {a : Atom} (h : a.Returns) :
    (factorTree a).LowersTo [⟨.ofAtom a, 1⟩] := by
  refine ⟨.atom a, ?_, rfl⟩
  rw [factorTree]
  split
  · exact h
  · exact h

theorem lowersTo_productTree {e : Expr} {t : Term} (he : e.LowersTo [t]) (ht : t.coeff ≠ 0)
    (hfits : ReaderGen.Fits t.coeff) {as : List Atom} (h : ∀ a ∈ as, a.Returns) :
    ∃ m : Monomial, (productTree e as).LowersTo [⟨m, t.coeff⟩] ∧
      m.factors.Perm (t.monomial.factors ++ as) := by
  induction as generalizing e t with
  | nil => exact ⟨t.monomial, he, by simp⟩
  | cons a as ih =>
    have hmul := he.mul (lowersTo_factorTree (h a (.head _))) (by simpa using hfits)
      (by simpa using ht)
    simp only [Int.mul_one] at hmul
    obtain ⟨m, hm, hperm⟩ := ih hmul ht hfits fun b hb => h b (.tail _ hb)
    refine ⟨m, hm, hperm.trans ?_⟩
    have hstep := (Monomial.perm_mul t.monomial (.ofAtom a)).append_right as
    rwa [List.append_assoc] at hstep

theorem negated_productTree (e : Expr) (as : List Atom) :
    (productTree e as).negated = productTree e.negated as := by
  induction as generalizing e with
  | nil => rfl
  | cons a as ih => exact ih (.binary .mul e (factorTree a))

theorem negated_of_level {e : Expr} (h : e.level = 0) : e.negated = .unary .neg e := by
  cases e with
  | binary op left right => cases op <;> cases h
  | _ => rfl

/-- A product after a sign comes back with the sign. -/
theorem lowersTo_signed {e : Expr} {n : Nat} {m : Monomial} (he : e.LowersTo [⟨m, n⟩])
    (hl : e.level = 0) (hn : n ≠ 0) (hfits : ReaderGen.Fits n) (as : List Atom)
    (has : ∀ a ∈ as, a.Returns) {t : Term} (hf : (m.factors ++ as).Perm t.monomial.factors)
    (hc : t.coeff.natAbs = n) :
    (if t.coeff < 0 then (productTree e as).negated else productTree e as).LowersTo [t] := by
  -- in both cases the first factor carries the sign
  obtain ⟨e', he', heq⟩ : ∃ e', e'.LowersTo [⟨m, t.coeff⟩] ∧
      (if t.coeff < 0 then (productTree e as).negated else productTree e as) =
        productTree e' as := by
    split
    · have hcoeff : t.coeff = -(n : Int) := by omega
      have hneg := he.neg (by unfold ReaderGen.Fits at hfits ⊢; dsimp only; omega)
      refine ⟨_, ?_, by rw [negated_productTree, negated_of_level hl]⟩
      rw [hcoeff]
      exact hneg
    · have hcoeff : t.coeff = n := by omega
      exact ⟨e, by rw [hcoeff]; exact he, rfl⟩
  have ht0 : t.coeff ≠ 0 := by omega
  have htf : ReaderGen.Fits t.coeff := by unfold ReaderGen.Fits at hfits ⊢; omega
  obtain ⟨m', hm', hperm⟩ := lowersTo_productTree he' ht0 htf has
  rw [Monomial.eq_of_perm (hperm.trans hf)] at hm'
  rw [heq]
  exact hm'

/-- A term comes back with its sign, unless that stands directly before what is divided. -/
theorem lowersTo_term {t : Term} (ht : t.Returnable)
    (hsign : t.coeff < 0 → (termTree t).negated.Everywhere Settled) :
    (if t.coeff < 0 then (termTree t).negated else termTree t).LowersTo [t] := by
  obtain ⟨h0, hfits, hl, h⟩ := ht
  have hn0 : t.coeff.natAbs ≠ 0 := by omega
  rcases termTree_cases t with ⟨hf, ht, -⟩ | ⟨a, hf, h1, ht, -⟩ | ⟨a, as, hf, -, h1, ht, -⟩ |
    ⟨-, ht, -⟩
  · rw [ht]
    refine lowersTo_signed (lowersTo_number hn0 hfits) rfl hn0 hfits [] (by simp) ?_ rfl
    simp [hf, Monomial.one]
  · have ha := hl a (by simp [hf])
    have hret : a.tree.LowersTo [⟨.ofAtom a, 1⟩] := ⟨_, h a (by simp [hf]), rfl⟩
    rw [ht] at hsign ⊢
    by_cases hc : a.compound = true
    · obtain ⟨part, left, right, htree, hlevel⟩ := ha.division_of_compound hc
      -- a sign would stand directly before the left operand
      have hpos : ¬t.coeff < 0 := by
        intro hneg
        have hsettled := hsign hneg
        rw [htree, negated, negated_of_level hlevel] at hsettled
        exact (everywhere_binary.1 hsettled).1 part.op_cases rfl
      have hterm : t = ⟨.ofAtom a, 1⟩ := by
        have hcoeff : t.coeff = 1 := by omega
        have hm : t.monomial = .ofAtom a := Monomial.eq_of_perm (by rw [hf]; exact .refl _)
        cases t
        cases hcoeff
        cases hm
        rfl
      rw [if_neg hpos, hterm]
      exact hret
    · exact lowersTo_signed (n := 1) hret
        (ha.legible.level_of_not_compound (Bool.eq_false_iff.2 hc)) (by omega) (by decide) []
        (by simp) (by simp [hf, Monomial.ofAtom]) h1
  · rw [hf] at hl h
    rw [ht]
    exact lowersTo_signed (n := 1) (lowersTo_factorTree (h a (.head _)))
      (bracketed_factorTree (hl a (.head _)).legible).2 (by omega) (by decide) as
      (fun b hb => h b (.tail _ hb)) (by simp [hf, Monomial.ofAtom]) h1
  · rw [ht]
    exact lowersTo_signed (lowersTo_number hn0 hfits) rfl hn0 hfits _ h (by simp [Monomial.one]) rfl

/-- A term after another one comes back, its sign being the operator. -/
theorem lowersTo_link {e : Expr} {us : List Term} (he : e.LowersTo us) {t : Term}
    (ht : t.Returnable) (hnew : ∀ u ∈ us, u.monomial ≠ t.monomial) :
    ∃ vs, (Expr.binary (if t.coeff < 0 then .sub else .add) e (termTree t)).LowersTo vs ∧
      vs.Perm (t :: us) := by
  obtain ⟨h0, hfits, hl, h⟩ := ht
  have habs : (termTree t).LowersTo [⟨t.monomial, t.coeff.natAbs⟩] := by
    have hterm := lowersTo_term (t := ⟨t.monomial, t.coeff.natAbs⟩)
      ⟨by dsimp only; omega, hfits, hl, h⟩ (fun hneg => by dsimp only at hneg; omega)
    rwa [if_neg (by dsimp only; omega)] at hterm
  split
  · rename_i hneg
    have hcoeff : -(t.coeff.natAbs : Int) = t.coeff := by omega
    have hminus := habs.neg (by unfold ReaderGen.Fits at hfits ⊢; dsimp only; omega)
    rw [hcoeff] at hminus
    obtain ⟨vs, hvs, hperm⟩ := he.add hminus h0 hnew
    obtain ⟨p, hp, -⟩ := he
    refine ⟨vs, ?_, hperm⟩
    rw [LowersTo, toPoly_sub _ _ p hp]
    exact hvs
  · have hcoeff : (t.coeff.natAbs : Int) = t.coeff := by omega
    rw [hcoeff] at habs
    exact he.add habs h0 hnew

theorem lowersTo_sumTree {e : Expr} {us : List Term} (he : e.LowersTo us) {ts : List Term}
    (h : ∀ t ∈ ts, t.Returnable) (hnew : ((us ++ ts).map Term.monomial).Nodup) :
    ∃ vs, (sumTree e ts).LowersTo vs ∧ vs.Perm (us ++ ts) := by
  induction ts generalizing e us with
  | nil => exact ⟨us, he, by simp⟩
  | cons t ts ih =>
    have hmid : (us ++ t :: ts).Perm ((t :: us) ++ ts) := List.perm_middle
    have hnew' := (hmid.map Term.monomial).nodup_iff.1 hnew
    have htus : ∀ u ∈ us, u.monomial ≠ t.monomial := by
      intro u hu heq
      rw [List.cons_append, List.map_cons, List.nodup_cons] at hnew'
      exact hnew'.1 (heq ▸ List.mem_map_of_mem (List.mem_append_left _ hu))
    obtain ⟨vs, hvs, hperm⟩ := lowersTo_link he (h t (.head _)) htus
    obtain ⟨ws, hws, hperm'⟩ := ih hvs (fun u hu => h u (.tail _ hu))
      (((hperm.append_right ts).map Term.monomial).nodup_iff.2 hnew')
    exact ⟨ws, hws, hperm'.trans ((hperm.append_right ts).trans hmid.symm)⟩

/-! ## Polynomials that come back -/

theorem perm_written (p : Poly) : p.written.Perm p.terms := by
  have h := List.filter_append_perm (fun t : Term => decide (t.monomial ≠ .one)) p.terms
  rw [written]
  simpa using h

theorem nodup_monomials (p : Poly) : (p.terms.map Term.monomial).Nodup := by
  rw [List.Nodup, List.pairwise_map]
  refine p.normal.sorted.imp fun {s t} hst heq => ?_
  rw [heq, (Monomial.isOrder.eq_iff _ _).2 rfl] at hst
  cases hst

theorem fits_of_settled {n : Nat} (h : (number n).Settled) : ReaderGen.Fits n := by
  have h : n ≤ 9223372036854775807 := h
  unfold ReaderGen.Fits
  omega

/-- The tree of a polynomial is lowered to the polynomial, if its atoms come back and all its parts
are settled. -/
theorem toPoly_tree {p : Poly} (hl : p.All Atom.Lowered) (hs : p.tree.Everywhere Settled)
    (h : p.All fun a => a.tree.Everywhere Settled → a.Returns) : p.tree.toPoly = .ok p := by
  have hterms : ∀ t ∈ p.written, t.Returnable := by
    intro t ht
    have ht := mem_written.1 ht
    obtain ⟨hnum, hatoms⟩ := everywhere_of_tree neutral_settled settled_of_negated hs t ht
    exact ⟨p.normal.nonzero t ht, fits_of_settled hnum, hl t ht,
      fun a ha => h t ht a ha (hatoms a ha)⟩
  have hnodup : (p.written.map Term.monomial).Nodup :=
    ((perm_written p).map _).nodup_iff.2 p.nodup_monomials
  obtain ⟨ts, hts, hperm⟩ : ∃ ts, p.tree.LowersTo ts ∧ ts.Perm p.written := by
    rw [tree] at hs ⊢
    split at hs
    · rename_i hts
      exact ⟨[], ⟨.zero, rfl, rfl⟩, by rw [hts]⟩
    · rename_i t ts hts
      rw [hts] at hterms hnodup ⊢
      obtain ⟨ht, hrest⟩ := List.forall_mem_cons.1 hterms
      obtain ⟨hsign, -⟩ := (everywhere_sumTree neutral_settled).1 hs
      have hfirst := lowersTo_term ht fun hneg => by rwa [if_pos hneg] at hsign
      exact lowersTo_sumTree hfirst hrest hnodup
  obtain ⟨q, hq, rfl⟩ := hts
  rw [hq, eq_of_perm (hperm.trans (perm_written p))]

theorem toPoly_operandTree {p : Poly} (h : p.tree.toPoly = .ok p) :
    p.operandTree.toPoly = .ok p := by
  rw [operandTree]
  split
  · exact h
  · exact h

end Poly

open ReaderGen.Expr in
/-- Atoms come back, if all parts of their trees are settled; those that can be subscripted come back
as such. -/
theorem Atom.Lowered.returns {a : Atom} (h : a.Lowered) (hs : a.tree.Everywhere Settled) :
    a.Returns ∧ (a.compound = false → a.tree.toAtom = .ok a) := by
  induction h with
  | var hx =>
    rw [Returns, tree_var hx]
    exact ⟨rfl, fun _ => rfl⟩
  | subscript ha hc hi hfits iha ihi =>
    rw [Returns]
    rw [tree_subscript ha hc hi] at hs ⊢
    obtain ⟨-, hsa, hsi⟩ := everywhere_index.1 hs
    have hta := (iha hsa).2 hc
    have hti := Poly.toPoly_tree hi hsi fun t ht b hb hb' => (ihi t ht b hb hb').1
    rw [toPoly, toAtom, hta, hti]
    exact ⟨rfl, fun _ => rfl⟩
  | @division part p q hp hq hpf hqf happly ihp ihq =>
    refine ⟨?_, fun hc => by cases hc⟩
    rw [Returns]
    rw [tree_division hp hq] at hs ⊢
    obtain ⟨-, hsp, hsq⟩ := everywhere_binary.1 hs
    rw [Poly.everywhere_operandTree neutral_settled] at hsp hsq
    have htp := Poly.toPoly_tree hp hsp fun t ht b hb hb' => (ihp t ht b hb hb').1
    have htq := Poly.toPoly_tree hq hsq fun t ht b hb hb' => (ihq t ht b hb hb').1
    rw [toPoly, Poly.toPoly_operandTree htp, Poly.toPoly_operandTree htq]
    cases part
    · exact happly
    · exact happly

/-- Lowering a canonical text again gives the same polynomial, if all its parts are settled. -/
theorem Poly.Lowered.toPoly_tree {p : Poly} (h : p.Lowered) (hs : p.tree.Everywhere Expr.Settled) :
    p.tree.toPoly = .ok p :=
  Poly.toPoly_tree h.atoms hs fun t ht a ha hsa => ((h.atoms t ht a ha).returns hsa).1

end ReaderGen
