import Mathlib.Algebra.BigOperators.Ring.List
import ReaderGen.Proofs.Relowering

/-!
# When canonical text is its own canonical text

Simplifying a canonical text gives the same text exactly if every part of it is settled: its numbers are
64-bit integers, and no minus sign stands directly before what is divided. That this is needed is seen by
weighing: what an expression is lowered to is never heavier than the expression, and a text with such a
sign is heavier as a canonical text than as the expression that it is read as.

* `Expr.weight`, `Expr.canonicalWeight`: what an expression weighs when it is read, and as what it was
  written for.
* `Expr.weight_of_lowering`: lowering never makes an expression heavier.
* `simplify_eq_self_iff`: which canonical texts are stable.
-/

namespace ReaderGen

/-! ## Weights -/

/-- The weight of an operator between operands of these weights. -/
def BinaryOp.weight : BinaryOp → Nat → Nat → Nat
  | add, m, n => m + n
  | sub, m, n => m + 2 * n
  | mul, m, n => m * n
  | _, m, n => m + n + 1

theorem BinaryOp.weight_mono (op : BinaryOp) {m m' n n' : Nat} (hm : m ≤ m') (hn : n ≤ n') :
    op.weight m n ≤ op.weight m' n' := by
  cases op with
  | mul => exact Nat.mul_le_mul hm hn
  | _ => simp only [weight]; omega

namespace Expr

/-- The weight of an expression. A sign weighs as much as its operand, and a product as much as the
sum it may become. -/
def weight : Expr → Nat
  | index array subscript => array.weight + subscript.weight + 1
  | paren inner => inner.weight
  | group inner => inner.weight
  | unary _ operand => 2 * operand.weight
  | binary op left right => op.weight left.weight right.weight
  | attributed _ inner => inner.weight
  | _ => 1

/-- The weight of the same expression as a canonical text, where a sign before what is divided was
written for a sign before the division. -/
def canonicalWeight : Expr → Nat
  | index array subscript => array.canonicalWeight + subscript.canonicalWeight + 1
  | paren inner => inner.canonicalWeight
  | group inner => inner.canonicalWeight
  | unary _ operand => 2 * operand.canonicalWeight
  | binary op left right =>
    op.weight left.canonicalWeight right.canonicalWeight +
      if (binary op left right).Settled then 0 else right.canonicalWeight + 1
  | attributed _ inner => inner.canonicalWeight
  | _ => 1

theorem weight_pos (e : Expr) : 1 ≤ e.weight := by
  induction e with
  | binary op left right ihl ihr =>
    refine Nat.le_trans ?_ (op.weight_mono ihl ihr)
    cases op <;> simp [BinaryOp.weight]
  | _ => simp only [weight]; omega

theorem weight_le_canonicalWeight (e : Expr) : e.weight ≤ e.canonicalWeight := by
  induction e with
  | binary op left right ihl ihr =>
    exact Nat.le_trans (op.weight_mono ihl ihr) (Nat.le_add_right _ _)
  | _ => simp only [weight, canonicalWeight]; omega

end Expr

/-- An operator whose operands grow weighs more. -/
theorem BinaryOp.eq_of_weight (op : BinaryOp) {m m' n n' : Nat} (hm : m ≤ m') (hn : n ≤ n')
    (hm0 : 1 ≤ m) (hn0 : 1 ≤ n) (h : op.weight m' n' ≤ op.weight m n) : m' = m ∧ n' = n := by
  cases op with
  | mul =>
    simp only [weight] at h
    constructor
    · by_contra hne
      have : (m + 1) * n ≤ m' * n' := Nat.mul_le_mul (by omega) hn
      rw [Nat.add_mul] at this
      omega
    · by_contra hne
      have : m * (n + 1) ≤ m' * n' := Nat.mul_le_mul hm (by omega)
      rw [Nat.mul_add] at this
      omega
  | _ => simp only [weight] at h; omega

namespace Expr

/-- What weighs no more as a canonical text has no sign before anything that is divided. -/
theorem settled_of_weight {e : Expr} (hn : e.Everywhere (AtMost 9223372036854775807))
    (h : e.canonicalWeight ≤ e.weight) : e.Everywhere Settled := by
  induction e with
  | int n text =>
    have hn := (everywhere_leaf rfl).1 hn
    exact (everywhere_leaf rfl).2 hn
  | index array subscript iha ihi =>
    obtain ⟨-, hna, hni⟩ := everywhere_index.1 hn
    have ha := array.weight_le_canonicalWeight
    have hi := subscript.weight_le_canonicalWeight
    simp only [weight, canonicalWeight] at h
    exact everywhere_index.2 ⟨trivial, iha hna (by omega), ihi hni (by omega)⟩
  | paren inner ih => exact everywhere_paren.2 ⟨trivial, ih (everywhere_paren.1 hn).2 h⟩
  | group inner ih => exact everywhere_group.2 ⟨trivial, ih (everywhere_group.1 hn).2 h⟩
  | unary op operand ih =>
    simp only [weight, canonicalWeight] at h
    exact everywhere_unary.2 ⟨trivial, ih (everywhere_unary.1 hn).2 (by omega)⟩
  | binary op left right ihl ihr =>
    obtain ⟨-, hnl, hnr⟩ := everywhere_binary.1 hn
    have hl := left.weight_le_canonicalWeight
    have hr := right.weight_le_canonicalWeight
    have hmono := op.weight_mono hl hr
    simp only [weight, canonicalWeight] at h
    split at h
    · rename_i hsettled
      obtain ⟨hl', hr'⟩ := op.eq_of_weight hl hr left.weight_pos right.weight_pos (by omega)
      exact everywhere_binary.2 ⟨hsettled, ihl hnl (by omega), ihr hnr (by omega)⟩
    · omega
  | attributed attributes inner ih =>
    exact everywhere_attributed.2 ⟨trivial, ih (everywhere_attributed.1 hn).2 h⟩
  | literal | name | path | foreign => exact (everywhere_leaf rfl).2 trivial

end Expr

namespace Division

theorem op_weight (part : Division) (m n : Nat) : part.op.weight m n = m + n + 1 := by
  cases part <;> rfl

theorem canonicalWeight_unsigned (part : Division) {left right : Expr} (h : left.level = 0) :
    (Expr.binary part.op left right).canonicalWeight =
      left.canonicalWeight + right.canonicalWeight + 1 := by
  have hsettled : (Expr.binary part.op left right).Settled := by
    intro _ h1
    omega
  rw [Expr.canonicalWeight, if_pos hsettled, op_weight]

/-- A sign before what is divided weighs as much as one before the division. -/
theorem canonicalWeight_signed (part : Division) (left right : Expr) :
    (Expr.binary part.op (.unary .neg left) right).canonicalWeight =
      2 * (left.canonicalWeight + right.canonicalWeight + 1) := by
  have hsettled : ¬(Expr.binary part.op (.unary .neg left) right).Settled :=
    fun h => h part.op_cases rfl
  rw [Expr.canonicalWeight, if_neg hsettled, op_weight, Expr.canonicalWeight]
  omega

end Division

/-! ## The weight of a polynomial -/

/-- The weight of a product of atoms. -/
def Monomial.weight (m : Monomial) : Nat :=
  (m.factors.map fun a => a.tree.canonicalWeight).prod

/-- A negative term weighs twice as much. -/
def Term.weight (t : Term) : Nat := (if t.coeff < 0 then 2 else 1) * t.monomial.weight

theorem Monomial.weight_mul (m n : Monomial) : (m.mul n).weight = m.weight * n.weight := by
  unfold weight
  rw [((perm_mul m n).map _).prod_eq, List.map_append, List.prod_append]

namespace Poly

/-- The weight of a sum of terms. -/
def weightTerms (ts : List Term) : Nat := (ts.map Term.weight).sum

@[simp] theorem weightTerms_nil : weightTerms [] = 0 := rfl

@[simp] theorem weightTerms_cons (t : Term) (ts : List Term) :
    weightTerms (t :: ts) = t.weight + weightTerms ts := by simp [weightTerms]

/-- The weight of a polynomial. -/
def weight (p : Poly) : Nat := weightTerms p.terms

theorem weight_insertTerm {t : Term} : ∀ {us vs : List Term}, insertTerm t us = some vs →
    weightTerms vs ≤ weightTerms us + t.weight
  | [], vs, h => by
    cases h
    simp
  | u :: us, vs, h => by
    rw [insertTerm] at h
    split at h
    · cases h
      simp only [weightTerms_cons]
      omega
    · rename_i htu
      have hm : t.monomial = u.monomial := (Monomial.isOrder.eq_iff _ _).1 htu
      obtain ⟨sum, -, h⟩ := Option.bind_eq_some_iff.1 h
      cases h
      -- like terms are collected into one, which is at most twice as heavy as one without a sign
      have hsum : (⟨u.monomial, sum⟩ : Term).weight ≤ u.weight + t.weight := by
        simp only [Term.weight, hm]
        split <;> split <;> split <;> omega
      split
      · rw [weightTerms_cons]
        omega
      · simp only [weightTerms_cons]
        omega
    · obtain ⟨ws, hws, h⟩ := Option.bind_eq_some_iff.1 h
      cases h
      have := weight_insertTerm hws
      simp only [weightTerms_cons]
      omega

theorem weight_addTerm {t : Term} {p r : Poly} (h : addTerm t p = some r) :
    r.weight ≤ p.weight + t.weight := by
  rcases terms_of_addTerm h with ⟨-, rfl⟩ | h
  · exact Nat.le_add_right _ _
  · exact weight_insertTerm h

/-- Steps in a row add up to what they add one by one. -/
theorem foldlM_le {α β : Type} {f : β → α → Option β} {w : β → Nat} {v : α → Nat}
    (hstep : ∀ a b b', f b a = some b' → w b' ≤ w b + v a) :
    ∀ {as : List α} {b r : β}, as.foldlM f b = some r → w r ≤ w b + (as.map v).sum
  | [], b, r, h => by cases h; simp
  | a :: as, b, r, h => by
    obtain ⟨b', hb', h⟩ := Option.bind_eq_some_iff.1 h
    have hfirst := hstep a b b' hb'
    have hrest := foldlM_le hstep h
    rw [List.map_cons, List.sum_cons]
    omega

theorem weight_add {p q r : Poly} (h : p.add q = some r) : r.weight ≤ p.weight + q.weight :=
  foldlM_le (fun _ _ _ h => weight_addTerm h) h

theorem weight_negTerms : ∀ {ts us : List Term}, negTerms ts = some us →
    weightTerms us ≤ 2 * weightTerms ts
  | [], us, h => by cases h; simp
  | t :: ts, us, h => by
    obtain ⟨n, hn, h⟩ := Option.bind_eq_some_iff.1 h
    obtain ⟨ws, hws, h⟩ := Option.bind_eq_some_iff.1 h
    cases h
    have hrest := weight_negTerms hws
    have hterm : (⟨t.monomial, n⟩ : Term).weight ≤ 2 * t.weight := by
      simp only [Term.weight, fits?_eq_some hn]
      split <;> split <;> omega
    simp only [weightTerms_cons]
    omega

theorem weight_neg {p r : Poly} (h : p.neg = some r) : r.weight ≤ 2 * p.weight :=
  weight_negTerms (terms_of_neg h)

theorem weight_sub {p q r : Poly} (h : p.sub q = some r) : r.weight ≤ p.weight + 2 * q.weight := by
  obtain ⟨q', hq', h⟩ := Option.bind_eq_some_iff.1 h
  have hneg := weight_neg hq'
  have hadd := weight_add h
  omega

theorem weight_addProduct {s t : Term} {p r : Poly} (h : addProduct s t p = some r) :
    r.weight ≤ p.weight + s.weight * t.weight := by
  obtain ⟨n, hn, h⟩ := Option.bind_eq_some_iff.1 h
  refine (weight_addTerm h).trans (Nat.add_le_add_left ?_ _)
  -- a product with a sign has a factor with a sign
  have hsign : (if n < 0 then 2 else 1) ≤
      (if s.coeff < 0 then 2 else 1) * if t.coeff < 0 then 2 else 1 := by
    rw [fits?_eq_some hn]
    by_cases hs : s.coeff < 0
    · by_cases ht : t.coeff < 0
      · simp only [hs, ht, if_true]
        split <;> omega
      · simp only [hs, ht, if_true, if_false]
        split <;> omega
    · by_cases ht : t.coeff < 0
      · simp only [hs, ht, if_true, if_false]
        split <;> omega
      · have hnonneg : ¬s.coeff * t.coeff < 0 :=
          Int.not_lt.2 (Int.mul_nonneg (Int.not_lt.1 hs) (Int.not_lt.1 ht))
        simp only [hs, ht, hnonneg, if_false]
        omega
  simp only [Term.weight, Monomial.weight_mul]
  calc _ ≤ _ := Nat.mul_le_mul_right _ hsign
    _ = _ := by ring

theorem weight_mul {p q r : Poly} (h : p.mul q = some r) : r.weight ≤ p.weight * q.weight := by
  -- the products of one term with all terms of the other polynomial
  have hrow : ∀ (s : Term) (r r' : Poly), q.terms.foldlM (fun r t => addProduct s t r) r = some r' →
      r'.weight ≤ r.weight + s.weight * q.weight := by
    intro s r r' h
    have hproducts := foldlM_le (fun _ _ _ h => weight_addProduct h) h
    rwa [List.sum_map_mul_left] at hproducts
  have hrows := foldlM_le hrow h
  rw [List.sum_map_mul_right] at hrows
  exact hrows.trans (Nat.le_of_eq (Nat.zero_add _))

/-! ## The weight of a canonical text -/

open ReaderGen.Expr

theorem canonicalWeight_factorTree (a : Atom) :
    (factorTree a).canonicalWeight = a.tree.canonicalWeight := by
  rw [factorTree]
  split <;> rfl

theorem canonicalWeight_productTree (e : Expr) (as : List Atom) :
    (productTree e as).canonicalWeight =
      e.canonicalWeight * (as.map fun a => a.tree.canonicalWeight).prod := by
  induction as generalizing e with
  | nil => simp [productTree]
  | cons a as ih =>
    have hstep : (Expr.binary .mul e (factorTree a)).canonicalWeight =
        e.canonicalWeight * a.tree.canonicalWeight := by
      rw [canonicalWeight, if_pos (neutral_settled.mul _ _), canonicalWeight_factorTree]
      rfl
    rw [List.map_cons, List.prod_cons, ← Nat.mul_assoc, ← hstep]
    exact ih _

theorem canonicalWeight_termTree (t : Term) :
    (termTree t).canonicalWeight = t.monomial.weight := by
  have hnumber : ∀ n, (number n).canonicalWeight = 1 := fun _ => rfl
  rw [Monomial.weight]
  rcases termTree_cases t with ⟨hf, ht, -⟩ | ⟨a, hf, -, ht, -⟩ | ⟨a, as, hf, -, -, ht, -⟩ |
    ⟨-, ht, -⟩
  · rw [ht, hf]
    rfl
  · simp [ht, hf]
  · rw [ht, hf, canonicalWeight_productTree, canonicalWeight_factorTree, List.map_cons,
      List.prod_cons]
  · rw [ht, canonicalWeight_productTree, hnumber, Nat.one_mul]

/-- A sign before a term doubles its weight, also where it stands directly before what is divided. -/
theorem canonicalWeight_negated {t : Term} (h : ∀ a ∈ t.monomial.factors, a.Lowered) :
    (termTree t).negated.canonicalWeight = 2 * (termTree t).canonicalWeight := by
  -- a product is signed at its first factor
  have hproduct : ∀ {e : Expr}, e.level = 0 → ∀ as, (productTree e as).negated.canonicalWeight =
      2 * (productTree e as).canonicalWeight := by
    intro e he as
    rw [negated_productTree, negated_of_level he, canonicalWeight_productTree,
      canonicalWeight_productTree, canonicalWeight, Nat.mul_assoc]
  rcases termTree_cases t with ⟨-, ht, -⟩ | ⟨a, hf, -, ht, -⟩ | ⟨a, as, hf, -, -, ht, -⟩ |
    ⟨-, ht, -⟩
  · rw [ht]
    exact hproduct (e := number t.coeff.natAbs) rfl []
  · have ha := h a (by simp [hf])
    rw [ht]
    by_cases hc : a.compound = true
    · obtain ⟨part, left, right, htree, hlevel⟩ := ha.division_of_compound hc
      rw [htree, negated, negated_of_level hlevel, part.canonicalWeight_signed,
        part.canonicalWeight_unsigned hlevel]
    · exact hproduct (ha.legible.level_of_not_compound (Bool.eq_false_iff.2 hc)) []
  · rw [ht]
    exact hproduct (bracketed_factorTree (h a (by simp [hf])).legible).2 as
  · rw [ht]
    exact hproduct (e := number t.coeff.natAbs) rfl _

theorem canonicalWeight_sumTree (e : Expr) (ts : List Term) :
    (sumTree e ts).canonicalWeight = e.canonicalWeight + weightTerms ts := by
  induction ts generalizing e with
  | nil => rfl
  | cons t ts ih =>
    have hstep : (Expr.binary (if t.coeff < 0 then .sub else .add) e (termTree t)).canonicalWeight =
        e.canonicalWeight + t.weight := by
      rw [canonicalWeight, Term.weight, canonicalWeight_termTree]
      split
      · rw [if_pos (neutral_settled.sub _ _)]
        rfl
      · rw [if_pos (neutral_settled.add _ _), Nat.one_mul]
        rfl
    rw [weightTerms_cons, ← Nat.add_assoc, ← hstep]
    exact ih _

theorem canonicalWeight_tree {p : Poly} (h : p.All Atom.Lowered) :
    p.tree.canonicalWeight ≤ max p.weight 1 := by
  have hw := h.written
  have hperm : p.weight = weightTerms p.written := ((perm_written p).map _).sum_eq.symm
  rw [hperm, tree]
  split
  · exact Nat.le_max_right _ _
  · rename_i t ts hts
    rw [hts] at hw
    refine Nat.le_trans (Nat.le_of_eq ?_) (Nat.le_max_left _ _)
    rw [canonicalWeight_sumTree, hts, weightTerms_cons, Term.weight, ← canonicalWeight_termTree]
    split
    · rw [canonicalWeight_negated (hw t (.head _))]
    · rw [Nat.one_mul]

theorem canonicalWeight_operandTree (p : Poly) :
    p.operandTree.canonicalWeight = p.tree.canonicalWeight := by
  rw [operandTree]
  split <;> rfl

theorem weight_atom (a : Atom) : (atom a).weight = a.tree.canonicalWeight := by
  simp [weight, atom, Term.weight, Monomial.weight, Monomial.ofAtom]

theorem weight_constant (n : Int) : (constant n).weight ≤ if n < 0 then 2 else 1 := by
  unfold constant
  split
  · exact Nat.zero_le _
  · simp [weight, Term.weight, Monomial.weight, Monomial.one]

end Poly

/-! ## Lowering makes nothing heavier -/

theorem Division.weight_apply {part : Division} {p q r : Poly} (hp : p.Lowered) (hq : q.Lowered)
    (h : part.apply p q = .ok r) : r.weight ≤ max p.weight 1 + max q.weight 1 + 1 := by
  rcases apply_cases h with ⟨a, b, n, -, -, -, rfl⟩ | rfl | rfl | rfl
  · have hconstant := Poly.weight_constant n
    split at hconstant <;> omega
  · omega
  · exact Nat.zero_le _
  · have hwp := Poly.canonicalWeight_tree hp.atoms
    have hwq := Poly.canonicalWeight_tree hq.atoms
    have hlevel := (Poly.bracketed_operandTree hp.legible).2
    rw [Poly.weight_atom, Atom.tree_division hp.atoms hq.atoms, part.canonicalWeight_unsigned hlevel,
      Poly.canonicalWeight_operandTree, Poly.canonicalWeight_operandTree]
    omega

theorem BinaryOp.weight_apply {op : BinaryOp} {p q r : Poly} (hp : p.Lowered) (hq : q.Lowered)
    (h : op.apply p q = .ok r) {m n : Nat} (hm : max p.weight 1 ≤ m) (hn : max q.weight 1 ≤ n) :
    r.weight ≤ op.weight m n := by
  have hpm : p.weight ≤ m := by omega
  have hqn : q.weight ≤ n := by omega
  cases op with
  | add =>
    exact (Poly.weight_add (orOverflow_eq_ok h)).trans (BinaryOp.add.weight_mono hpm hqn)
  | sub =>
    exact (Poly.weight_sub (orOverflow_eq_ok h)).trans (BinaryOp.sub.weight_mono hpm hqn)
  | mul =>
    exact (Poly.weight_mul (orOverflow_eq_ok h)).trans (BinaryOp.mul.weight_mono hpm hqn)
  | div => exact (Division.weight_apply hp hq h).trans (BinaryOp.div.weight_mono hm hn)
  | rem => exact (Division.weight_apply hp hq h).trans (BinaryOp.rem.weight_mono hm hn)
  | other s => cases h

namespace Expr

theorem weight_of_lowering {e : Expr} (hn : ∀ x ∈ e.names, Word.IsVariable x) :
    (∀ p, e.toPoly = .ok p → p.weight ≤ e.weight) ∧
      ∀ a, e.toAtom = .ok a → a.tree.canonicalWeight ≤ e.weight := by
  have hlowered := Atom.kept_lowered.stepwise
  -- the weight of a division is known only if its operands are lowered
  have hsteps : Stepwise Word.IsVariable
      (fun e p => (p.All Atom.Lowered ∧ p.Fits) ∧ p.weight ≤ e.weight)
      (fun e a => (a.Lowered ∧ a.compound = false) ∧ a.tree.canonicalWeight ≤ e.weight) := {
    int := by
      intro text n k hk
      have hconstant := Poly.weight_constant k
      rw [if_neg (by rw [fits?_eq_some hk]; omega)] at hconstant
      exact ⟨hlowered.int text hk, hconstant⟩
    name := by
      intro id hid
      have htree : (Atom.var id).tree.canonicalWeight ≤ (name id).weight := by
        rw [Atom.tree_var hid]
        exact Nat.le_refl _
      obtain ⟨hpoly, hatom⟩ := hlowered.name hid
      exact ⟨⟨hpoly, by rwa [Poly.weight_atom]⟩, hatom, htree⟩
    index := by
      rintro array subscript a i ⟨ha, hwa⟩ ⟨hi, hwi⟩
      have hplace : (a.subscript i).tree.canonicalWeight ≤ (index array subscript).weight := by
        have hpos := subscript.weight_pos
        have htree := Poly.canonicalWeight_tree hi.1
        rw [Atom.tree_subscript ha.1 ha.2 hi.1, canonicalWeight, weight]
        omega
      obtain ⟨hpoly, hatom⟩ := hlowered.index array subscript ha hi
      exact ⟨⟨hpoly, by rwa [Poly.weight_atom]⟩, hatom, hplace⟩
    paren := fun _ => ⟨fun _ => id, fun _ => id⟩
    group := fun _ _ => id
    neg := by
      rintro operand p r ⟨hp, hwp⟩ h
      have hneg := Poly.weight_neg h
      refine ⟨hlowered.neg operand hp h, ?_⟩
      rw [weight]
      omega
    binary := by
      rintro left right op p q r ⟨hp, hwp⟩ ⟨hq, hwq⟩ h
      have hposl := left.weight_pos
      have hposr := right.weight_pos
      exact ⟨hlowered.binary left right hp hq h,
        BinaryOp.weight_apply ⟨hp.1, hp.2⟩ ⟨hq.1, hq.2⟩ h (by omega) (by omega)⟩
    attributed := fun _ _ => ⟨fun _ => id, fun _ => id⟩ }
  obtain ⟨hpoly, hatom⟩ := hsteps.of_lowering hn
  exact ⟨fun p h => (hpoly p h).2, fun a h => (hatom a h).2⟩

end Expr

/-! ## Stable texts -/

/-- The tree of a canonical text that is its own canonical text is settled. -/
theorem Poly.Lowered.settled_of_stable {p q : Poly} (hp : p.Lowered) (hq : p.tree.toPoly = .ok q)
    (htext : q.text = p.text) : p.tree.Everywhere Expr.Settled := by
  have hparse := Poly.parse_text hp.legible
  have hnames : ∀ x ∈ p.tree.names, Word.IsVariable x :=
    (Expr.readable_of_parse hparse hq).variable
  have hlowered := (Expr.lowered_of_lowering hnames).1 q hq
  -- both are read as the same tree
  have htree : q.tree = p.tree := by
    have hparse' := Poly.parse_text hlowered.legible
    rw [htext, hparse] at hparse'
    exact (Except.ok.inj hparse').symm
  refine Expr.settled_of_weight (Expr.atMost_of_lowering.1 q hq) ?_
  have hweight := (Expr.weight_of_lowering hnames).1 q hq
  have hpos := p.tree.weight_pos
  have hcanonical := Poly.canonicalWeight_tree hlowered.atoms
  rw [htree] at hcanonical
  omega

/-- Canonical text is its own canonical text exactly if each of its numbers is a 64-bit integer and no
minus sign stands directly before what is divided. -/
theorem simplify_eq_self_iff {text s : String} (h : simplify text = .ok s) :
    simplify s = .ok s ↔ ∃ e, Expr.parse s = .ok e ∧ e.Everywhere Expr.Settled := by
  obtain ⟨p, hp, hs⟩ := ok_of_bind h
  obtain rfl : p.text = s := Except.ok.inj hs
  have hlowered := lowered_of_polynomialOf hp
  have hparse := Poly.parse_text hlowered.legible
  constructor
  · intro hstable
    obtain ⟨q, hq, htext⟩ := ok_of_bind hstable
    rw [hlowered.polynomialOf_text] at hq
    exact ⟨p.tree, hparse, hlowered.settled_of_stable (Expr.toPoly_of_polynomial hq)
      (Except.ok.inj htext)⟩
  · rintro ⟨e, he, hsettled⟩
    rw [hparse] at he
    cases he
    rw [simplify, hlowered.polynomialOf_text, Expr.polynomial, hlowered.toPoly_tree hsettled]
    rfl

/-- Signs before products and before later terms do no harm, nor do divisions inside subscripts, products
and divisors. -/
theorem simplify_eq_self_iff_signedProduct :
    simplify "-(A[i - (j / 2)] / 2) * 3 - N % (1 - M)" =
        .ok "-3 * (A[i - j / 2] / 2) - N % (-M + 1)" ∧
      (∃ e, Expr.parse "-3 * (A[i - j / 2] / 2) - N % (-M + 1)" = .ok e ∧
        e.Everywhere Expr.Settled) ∧
      simplify "-3 * (A[i - j / 2] / 2) - N % (-M + 1)" =
        .ok "-3 * (A[i - j / 2] / 2) - N % (-M + 1)" := by
  have h : simplify "-(A[i - (j / 2)] / 2) * 3 - N % (1 - M)" =
      .ok "-3 * (A[i - j / 2] / 2) - N % (-M + 1)" := ok_of_toOption (by decide +kernel)
  have hsettled : ∃ e, Expr.parse "-3 * (A[i - j / 2] / 2) - N % (-M + 1)" = .ok e ∧
      e.Everywhere Expr.Settled := by
    refine ⟨.binary .sub
      (.binary .mul (.unary .neg (.int 3 "3")) (.paren (.binary .div
        (.index (.name "A") (.binary .sub (.name "i") (.binary .div (.name "j") (.int 2 "2"))))
        (.int 2 "2"))))
      (.binary .rem (.name "N") (.paren (.binary .add (.unary .neg (.name "M")) (.int 1 "1")))),
      ok_of_toOption (by decide +kernel), by decide⟩
  exact ⟨h, hsettled, (simplify_eq_self_iff h).2 hsettled⟩

/-- A negated quotient is written with the sign before what is divided, and the least number with a
number that is no 64-bit integer: both texts are canonical, and neither is its own canonical text. -/
theorem simplify_ne_self_signedDividend_leastNumber :
    (simplify "-(N / 2)" = .ok "-N / 2" ∧ simplify "-N / 2" = .ok "(-N) / 2") ∧
      simplify "-9223372036854775807 - 1" = .ok "-9223372036854775808" ∧
        simplify "-9223372036854775808" ≠ .ok "-9223372036854775808" := by
  refine ⟨⟨ok_of_toOption (by decide +kernel), ok_of_toOption (by decide +kernel)⟩,
    ok_of_toOption (by decide +kernel), fun h => ?_⟩
  have hoption := congrArg Except.toOption h
  revert hoption
  decide +kernel

end ReaderGen
