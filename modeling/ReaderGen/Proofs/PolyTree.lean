import ReaderGen.Proofs.PolyValue
import ReaderGen.Proofs.Spelling
import ReaderGen.Proofs.Value

/-!
# Canonical text as an expression

The text of a polynomial is the spelling of a tree: a chain of sums of products. `Poly.tree` is that
tree. It has its brackets as long as each atom's text is a tree that holds together as tightly as the
atom says, `Atom.Legible`, so the text is read back as the tree.

* `Poly.spelled_tree`, `Poly.bracketed_tree`: the text is the spelling of the tree, which has its
  brackets.
* `Poly.value?_tree`: the tree is worth as much as the polynomial.
* `Poly.parse_text`: the text is read as the tree.
-/

namespace ReaderGen

/-! ## Atoms -/

namespace Atom

/-- The expression that the text of an atom holds. -/
def tree (a : Atom) : Expr :=
  match Expr.parse a.text with
  | .ok e => e
  | .error _ => .name a.text

/-- The text of an atom is the spelling of an expression that holds together: as a product if the
atom is compound, else without any operator. No sign stands before it. -/
structure Legible (a : Atom) : Prop where
  spelled : a.tree.spelled = a.text
  bracketed : a.tree.WellBracketed
  unsigned : a.tree.first.level = 0
  level : a.tree.level ≤ if a.compound then 2 else 0

/-- An atom has a value. -/
def Defined (v : Valuation) (a : Atom) : Prop := ∃ x, a.tree.value? v = some x

/-- The value of an atom, if it has one. -/
def worth (v : Valuation) (a : Atom) : Int := (a.tree.value? v).getD 0

theorem Defined.value {v : Valuation} {a : Atom} (h : a.Defined v) :
    a.tree.value? v = some (a.worth v) := by
  obtain ⟨x, hx⟩ := h
  rw [worth, hx]
  rfl

theorem tree_of_spelled {a : Atom} {e : Expr} (h : e.WellBracketed) (ht : e.spelled = a.text) :
    a.tree = e := by
  rw [tree, ← ht, Expr.parse_spelled h]

theorem Legible.level_of_not_compound {a : Atom} (h : a.Legible) (hc : a.compound = false) :
    a.tree.level = 0 := by
  have hl := h.level
  rw [hc] at hl
  exact Nat.le_zero.1 hl

end Atom

namespace Expr

/-! ## A minus sign before a product -/

/-- A minus sign before the first operand. -/
def negated : Expr → Expr
  | binary op left right => binary op left.negated right
  | e => unary .neg e

theorem spelled_negated (e : Expr) : e.negated.spelled = "-" ++ e.spelled := by
  induction e with
  | binary op left right ih _ => simp only [negated, spelled, ih, String.append_assoc]
  | _ => rfl

theorem level_negated (e : Expr) : e.negated.level = max e.level 1 := by
  cases e with
  | binary op left right => cases op <;> rfl
  | _ => rfl

theorem WellBracketed.negated {e : Expr} (h : e.WellBracketed) (hf : e.first.level = 0) :
    e.negated.WellBracketed := by
  induction e with
  | binary op left right ih _ =>
    obtain ⟨hl, hr, hll, hrl, hop⟩ := h
    have hop2 : 2 ≤ op.level := by cases op <;> simp [BinaryOp.level]
    refine ⟨ih hl hf, hr, ?_, hrl, hop⟩
    rw [level_negated]
    omega
  | unary op operand => cases hf
  | _ => exact ⟨rfl, h, rfl⟩

theorem value?_neg (v : Valuation) (e : Expr) :
    (unary .neg e).value? v = (e.value? v).map fun a => -a := by
  rw [value?]
  cases e.value? v <;> rfl

/-- Quotients and remainders towards zero change their sign with the first operand. -/
theorem value?_negated {e : Expr} (h : e.WellBracketed) (hl : e.level ≤ 2) {v : Valuation} {x : Int}
    (hx : e.value? v = some x) : e.negated.value? v = some (-x) := by
  induction e generalizing x with
  | binary op left right ih _ =>
    obtain ⟨hwl, -, hll, -, -⟩ := h
    have hop : op.level ≤ 2 := hl
    obtain ⟨a, ha, hx⟩ := Option.bind_eq_some_iff.1 hx
    obtain ⟨b, hb, hx⟩ := Option.bind_eq_some_iff.1 hx
    -- the sign is that of the first factor
    have hleft := ih hwl (by omega) ha
    rw [negated, value?, hleft, hb]
    show op.value? (-a) b = some (-x)
    cases op with
    | mul =>
      obtain rfl := Option.some.inj hx
      exact congrArg some (Int.neg_mul a b)
    | div =>
      simp only [BinaryOp.value?] at hx ⊢
      split at hx
      · cases hx
      · rename_i hb0
        obtain rfl := Option.some.inj hx
        rw [if_neg hb0, Int.neg_tdiv]
    | rem =>
      simp only [BinaryOp.value?] at hx ⊢
      split at hx
      · cases hx
      · rename_i hb0
        obtain rfl := Option.some.inj hx
        rw [if_neg hb0, Int.neg_tmod]
    | add => simp [BinaryOp.level] at hop
    | sub => simp [BinaryOp.level] at hop
    | other s => simp [BinaryOp.level] at hop
  | _ => exact (value?_neg v _).trans (by rw [hx]; rfl)

/-- A number in decimal. -/
def number (n : Nat) : Expr := int n (toString n)

end Expr

/-! ## Products -/

namespace Poly

open ReaderGen.Expr

/-- A factor of a product. -/
def factorTree (a : Atom) : Expr := if a.compound then .paren a.tree else a.tree

/-- The product of what stands first and of further factors. -/
def productTree (e : Expr) (as : List Atom) : Expr :=
  as.foldl (fun e a => .binary .mul e (factorTree a)) e

/-- A term without its sign. -/
def termTree (t : Term) : Expr :=
  match t.monomial.factors with
  | [] => number t.coeff.natAbs
  | a :: as =>
    if t.coeff.natAbs ≠ 1 then productTree (number t.coeff.natAbs) (a :: as)
    else if as = [] then a.tree else productTree (factorTree a) as

theorem spelled_factorTree {a : Atom} (h : a.Legible) :
    (factorTree a).spelled = factorText true a := by
  rw [factorTree, factorText, Bool.true_and]
  split
  · rw [Expr.spelled, h.spelled]
  · exact h.spelled

theorem bracketed_factorTree {a : Atom} (h : a.Legible) :
    (factorTree a).WellBracketed ∧ (factorTree a).level = 0 := by
  rw [factorTree]
  split
  · exact ⟨h.bracketed, rfl⟩
  · rename_i hc
    exact ⟨h.bracketed, h.level_of_not_compound (Bool.eq_false_iff.2 hc)⟩

theorem value?_factorTree {a : Atom} {v : Valuation} (h : a.Defined v) :
    (factorTree a).value? v = some (a.worth v) := by
  rw [factorTree]
  split
  · exact h.value
  · exact h.value

theorem spelled_productTree (e : Expr) {as : List Atom} (h : ∀ a ∈ as, a.Legible) (hne : as ≠ []) :
    (productTree e as).spelled = e.spelled ++ " * " ++ factorsText true as := by
  induction as generalizing e with
  | nil => exact absurd rfl hne
  | cons a as ih =>
    have ha := spelled_factorTree (h a (.head _))
    have hstep : (Expr.binary .mul e (factorTree a)).spelled =
        e.spelled ++ " * " ++ factorText true a := by
      simp only [Expr.spelled, ha, BinaryOp.symbol, String.append_assoc]
      rfl
    cases as with
    | nil => exact hstep
    | cons b bs =>
      have hrest := ih (.binary .mul e (factorTree a)) (fun c hc => h c (.tail _ hc)) (by simp)
      rw [factorsText]
      exact hrest.trans (by rw [hstep]; simp only [String.append_assoc])

theorem bracketed_productTree {e : Expr} (he : e.WellBracketed) (hl : e.level ≤ 2)
    (hf : e.first.level = 0) {as : List Atom} (h : ∀ a ∈ as, a.Legible) :
    (productTree e as).WellBracketed ∧ (productTree e as).level ≤ 2 ∧
      (productTree e as).first.level = 0 := by
  induction as generalizing e with
  | nil => exact ⟨he, hl, hf⟩
  | cons a as ih =>
    obtain ⟨hwa, hla⟩ := bracketed_factorTree (h a (.head _))
    refine ih (e := .binary .mul e (factorTree a)) ⟨he, hwa, hl, ?_, by decide⟩ (Nat.le_refl 2) hf
      fun b hb => h b (.tail _ hb)
    rw [hla]
    decide

theorem value?_productTree {e : Expr} {v : Valuation} {x : Int} (he : e.value? v = some x)
    {as : List Atom} (h : ∀ a ∈ as, a.Defined v) :
    (productTree e as).value? v = some (x * (as.map (Atom.worth v)).prod) := by
  induction as generalizing e x with
  | nil => simpa [productTree] using he
  | cons a as ih =>
    have hstep : (Expr.binary .mul e (factorTree a)).value? v = some (x * a.worth v) := by
      rw [Expr.value?, he, value?_factorTree (h a (.head _))]
      rfl
    rw [List.map_cons, List.prod_cons, ← Int.mul_assoc]
    exact ih hstep fun b hb => h b (.tail _ hb)

/-! ## Terms -/

/-- What the tree of a term is, case by case. -/
theorem termTree_cases (t : Term) :
    (t.monomial.factors = [] ∧ termTree t = number t.coeff.natAbs ∧
      termText t = toString t.coeff.natAbs) ∨
    (∃ a, t.monomial.factors = [a] ∧ t.coeff.natAbs = 1 ∧ termTree t = a.tree ∧
      termText t = a.text) ∨
    (∃ a as, t.monomial.factors = a :: as ∧ as ≠ [] ∧ t.coeff.natAbs = 1 ∧
      termTree t = productTree (factorTree a) as ∧ termText t = factorsText true (a :: as)) ∨
    (t.monomial.factors ≠ [] ∧ termTree t = productTree (number t.coeff.natAbs) t.monomial.factors ∧
      termText t = toString t.coeff.natAbs ++ " * " ++ factorsText true t.monomial.factors) := by
  rw [termTree, termText]
  cases hf : t.monomial.factors with
  | nil => exact .inl ⟨rfl, rfl, rfl⟩
  | cons a as =>
    by_cases h1 : t.coeff.natAbs = 1
    · by_cases h2 : as = []
      · refine .inr (.inl ⟨a, by rw [h2], h1, by simp [h1, h2], ?_⟩)
        simp [h1, h2, factorsText, factorText]
      · refine .inr (.inr (.inl ⟨a, as, rfl, h2, h1, by simp [h1, h2], ?_⟩))
        simp [h1, h2]
    · refine .inr (.inr (.inr ⟨by simp, by simp [h1], ?_⟩))
      simp [h1]

theorem spelled_termTree {t : Term} (h : ∀ a ∈ t.monomial.factors, a.Legible) :
    (termTree t).spelled = termText t := by
  rcases termTree_cases t with ⟨hf, ht, hs⟩ | ⟨a, hf, -, ht, hs⟩ | ⟨a, as, hf, hne, -, ht, hs⟩ |
    ⟨hf, ht, hs⟩
  · rw [ht, hs]; rfl
  · rw [ht, hs, (h a (by simp [hf])).spelled]
  · rw [hf] at h
    have ha := spelled_factorTree (h a (.head _))
    rw [ht, hs, spelled_productTree _ (fun b hb => h b (.tail _ hb)) hne, ha]
    obtain ⟨b, bs, rfl⟩ := List.exists_cons_of_ne_nil hne
    rfl
  · rw [ht, hs, spelled_productTree _ h hf]
    rfl

theorem bracketed_termTree {t : Term} (h : ∀ a ∈ t.monomial.factors, a.Legible) :
    (termTree t).WellBracketed ∧ (termTree t).level ≤ 2 ∧ (termTree t).first.level = 0 := by
  rcases termTree_cases t with ⟨hf, ht, -⟩ | ⟨a, hf, -, ht, -⟩ | ⟨a, as, hf, hne, -, ht, -⟩ |
    ⟨hf, ht, -⟩
  · rw [ht]
    exact ⟨rfl, Nat.zero_le 2, rfl⟩
  · have ha := h a (by simp [hf])
    have hl := ha.level
    rw [ht]
    refine ⟨ha.bracketed, ?_, ha.unsigned⟩
    split at hl <;> omega
  · rw [hf] at h
    obtain ⟨hwa, hla⟩ := bracketed_factorTree (h a (.head _))
    obtain ⟨hfirst, -⟩ := Expr.first_of_level (e := factorTree a) (by omega)
    rw [ht]
    exact bracketed_productTree hwa (by omega) (by rw [hfirst]; exact hla)
      fun b hb => h b (.tail _ hb)
  · rw [ht]
    exact bracketed_productTree (e := number t.coeff.natAbs) rfl (Nat.zero_le 2) rfl h

theorem value?_termTree {t : Term} {v : Valuation} (h : ∀ a ∈ t.monomial.factors, a.Defined v) :
    (termTree t).value? v = some (t.coeff.natAbs * t.monomial.eval (Atom.worth v)) := by
  rw [Monomial.eval]
  rcases termTree_cases t with ⟨hf, ht, -⟩ | ⟨a, hf, h1, ht, -⟩ | ⟨a, as, hf, hne, h1, ht, -⟩ |
    ⟨hf, ht, -⟩
  · rw [ht, hf]
    simp [number, Expr.value?]
  · rw [ht, hf, h1, (h a (by simp [hf])).value]
    simp
  · rw [hf] at h
    rw [ht, hf, h1, value?_productTree (value?_factorTree (h a (.head _)))
      fun b hb => h b (.tail _ hb)]
    simp
  · rw [ht]
    exact value?_productTree rfl h

/-! ## Sums -/

/-- The sum of what stands first and of further terms. -/
def sumTree (e : Expr) (ts : List Term) : Expr :=
  ts.foldl (fun e t => .binary (if t.coeff < 0 then .sub else .add) e (termTree t)) e

/-- The expression that the canonical text of a polynomial spells. -/
def tree (p : Poly) : Expr :=
  match p.written with
  | [] => number 0
  | t :: ts => sumTree (if t.coeff < 0 then (termTree t).negated else termTree t) ts

theorem spelled_sumTree (e : Expr) {ts : List Term}
    (h : ∀ t ∈ ts, ∀ a ∈ t.monomial.factors, a.Legible) :
    (sumTree e ts).spelled = e.spelled ++ moreText ts := by
  induction ts generalizing e with
  | nil => simp [sumTree, moreText]
  | cons t ts ih =>
    have ht := spelled_termTree (h t (.head _))
    have hrest := ih (.binary (if t.coeff < 0 then .sub else .add) e (termTree t))
      fun u hu => h u (.tail _ hu)
    refine hrest.trans ?_
    rw [moreText, Expr.spelled, ht]
    split
    · simp only [BinaryOp.symbol, String.append_assoc]; rfl
    · simp only [BinaryOp.symbol, String.append_assoc]; rfl

theorem bracketed_sumTree {e : Expr} (he : e.WellBracketed) (hl : e.level ≤ 3) {ts : List Term}
    (h : ∀ t ∈ ts, ∀ a ∈ t.monomial.factors, a.Legible) : (sumTree e ts).WellBracketed := by
  induction ts generalizing e with
  | nil => exact he
  | cons t ts ih =>
    obtain ⟨hwt, hlt, -⟩ := bracketed_termTree (h t (.head _))
    refine ih (e := .binary (if t.coeff < 0 then .sub else .add) e (termTree t)) ?_ ?_
      fun u hu => h u (.tail _ hu)
    · split
      · exact ⟨he, hwt, hl, Nat.lt_succ_of_le hlt, Nat.le_refl 3⟩
      · exact ⟨he, hwt, hl, Nat.lt_succ_of_le hlt, Nat.le_refl 3⟩
    · split <;> exact Nat.le_refl 3

theorem value?_sumTree {e : Expr} {v : Valuation} {x : Int} (he : e.value? v = some x)
    {ts : List Term} (h : ∀ t ∈ ts, ∀ a ∈ t.monomial.factors, a.Defined v) :
    (sumTree e ts).value? v = some (x + evalTerms (Atom.worth v) ts) := by
  induction ts generalizing e x with
  | nil => simpa [sumTree] using he
  | cons t ts ih =>
    have ht := value?_termTree (h t (.head _))
    have hstep : (Expr.binary (if t.coeff < 0 then .sub else .add) e (termTree t)).value? v =
        some (x + t.eval (Atom.worth v)) := by
      rw [Expr.value?, he, ht, Term.eval]
      split
      · rename_i hneg
        have habs : (t.coeff.natAbs : Int) = -t.coeff := by omega
        show some (x - _) = _
        rw [habs, Int.neg_mul, Int.sub_neg]
      · rename_i hpos
        have habs : (t.coeff.natAbs : Int) = t.coeff := by omega
        show some (x + _) = _
        rw [habs]
    rw [evalTerms_cons, ← Int.add_assoc]
    exact ih hstep fun u hu => h u (.tail _ hu)

/-! ## Polynomials -/

theorem mem_written {p : Poly} {t : Term} : t ∈ p.written ↔ t ∈ p.terms := by
  rw [written, List.mem_append, List.mem_filter, List.mem_filter]
  by_cases h : t.monomial = .one <;> simp [h]

theorem All.written {P : Atom → Prop} {p : Poly} (h : p.All P) :
    ∀ t ∈ p.written, ∀ a ∈ t.monomial.factors, P a := fun t ht => h t (mem_written.1 ht)

/-- Writing the constant last does not change the sum. -/
theorem evalTerms_written (f : Atom → Int) (p : Poly) : evalTerms f p.written = p.eval f := by
  rw [written, eval, evalTerms_append]
  induction p.terms with
  | nil => rfl
  | cons t ts ih =>
    rw [List.filter_cons, List.filter_cons, evalTerms_cons, ← ih]
    by_cases h : t.monomial = .one
    · simp [h]; ring
    · simp [h]; ring

theorem spelled_tree {p : Poly} (h : p.All Atom.Legible) : p.tree.spelled = p.text := by
  have hw := h.written
  rw [tree, text]
  cases hts : p.written with
  | nil => rfl
  | cons t ts =>
    rw [hts] at hw
    have ht := spelled_termTree (hw t (.head _))
    dsimp only
    rw [spelled_sumTree _ fun u hu => hw u (.tail _ hu)]
    split
    · rw [Expr.spelled_negated, ht]
    · rw [ht, String.empty_append]

theorem bracketed_tree {p : Poly} (h : p.All Atom.Legible) : p.tree.WellBracketed := by
  have hw := h.written
  rw [tree]
  split
  · rfl
  · rename_i t ts hts
    rw [hts] at hw
    obtain ⟨hwt, hlt, hft⟩ := bracketed_termTree (hw t (.head _))
    have hrest := fun u hu => hw u (.tail _ hu)
    split
    · refine bracketed_sumTree (hwt.negated hft) ?_ hrest
      rw [Expr.level_negated]
      omega
    · exact bracketed_sumTree hwt (by omega) hrest

theorem value?_tree {p : Poly} {v : Valuation} (h : p.All Atom.Legible)
    (hd : p.All (Atom.Defined v)) : p.tree.value? v = some (p.eval (Atom.worth v)) := by
  have hw := h.written
  have hv := hd.written
  rw [← evalTerms_written, tree]
  split
  · rename_i hts; rw [hts]; rfl
  · rename_i t ts hts
    rw [hts] at hw hv
    rw [hts, evalTerms_cons]
    obtain ⟨hwt, hlt, -⟩ := bracketed_termTree (hw t (.head _))
    have ht := value?_termTree (hv t (.head _))
    have hrest := fun u hu => hv u (.tail _ hu)
    rw [Term.eval]
    split
    · rename_i hneg
      have habs : (t.coeff.natAbs : Int) = -t.coeff := by omega
      rw [value?_sumTree (Expr.value?_negated hwt hlt ht) hrest, habs, Int.neg_mul, Int.neg_neg]
    · rename_i hpos
      have habs : (t.coeff.natAbs : Int) = t.coeff := by omega
      rw [value?_sumTree ht hrest, habs]

/-- The canonical text is read as the tree it spells. -/
theorem parse_text {p : Poly} (h : p.All Atom.Legible) : Expr.parse p.text = .ok p.tree := by
  rw [← spelled_tree h]
  exact Expr.parse_spelled (bracketed_tree h)

/-! ## Operands of a division -/

/-- The polynomial as an operand of a division. -/
def operandTree (p : Poly) : Expr := if p.isFactor then p.tree else .paren p.tree

theorem written_singleton {p : Poly} {t : Term} (h : p.terms = [t]) : p.written = [t] := by
  rw [written, h]
  by_cases hm : t.monomial = .one <;> simp [hm]

theorem level_of_isFactor {p : Poly} (h : p.All Atom.Legible) (hf : p.isFactor = true) :
    p.tree.level = 0 := by
  unfold isFactor at hf
  split at hf
  · rename_i ht
    simp [tree, written, ht, number, Expr.level]
  · rename_i m n ht
    rw [tree, written_singleton ht]
    show (if n < 0 then (termTree ⟨m, n⟩).negated else termTree ⟨m, n⟩).level = 0
    split at hf
    · rename_i hm
      have hn : 0 < n := by simpa using hf
      rw [if_neg (by omega), termTree]
      simp [hm, number, Expr.level]
    · rename_i a hm
      obtain ⟨rfl, hc⟩ : n = 1 ∧ a.compound = false := by simpa using hf
      have ha : a.Legible := h ⟨m, 1⟩ (by simp [ht]) a (by simp [hm])
      rw [if_neg (by omega), termTree]
      simpa [hm] using ha.level_of_not_compound hc
    · cases hf
  · cases hf

theorem spelled_operandTree {p : Poly} (h : p.All Atom.Legible) :
    p.operandTree.spelled = p.operandText := by
  rw [operandTree, operandText]
  split
  · exact spelled_tree h
  · rw [Expr.spelled, spelled_tree h]

theorem bracketed_operandTree {p : Poly} (h : p.All Atom.Legible) :
    p.operandTree.WellBracketed ∧ p.operandTree.level = 0 := by
  rw [operandTree]
  split
  · rename_i hf
    exact ⟨bracketed_tree h, level_of_isFactor h hf⟩
  · exact ⟨bracketed_tree h, rfl⟩

theorem value?_operandTree {p : Poly} {v : Valuation} (h : p.All Atom.Legible)
    (hd : p.All (Atom.Defined v)) : p.operandTree.value? v = some (p.eval (Atom.worth v)) := by
  rw [operandTree]
  split
  · exact value?_tree h hd
  · exact value?_tree h hd

end Poly

end ReaderGen
