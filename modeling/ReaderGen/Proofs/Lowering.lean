import ReaderGen.Proofs.LoweringSteps
import ReaderGen.Proofs.PolyTree

/-!
# Lowering an expression keeps its value

`Expr.toPoly` turns an expression into a polynomial whose atoms are known by their texts. Whenever the
expression has a value, so has each atom that is left, and the polynomial is worth as much.

* `Poly.Renders`: the polynomial says the same as the expression.
* `Division.renders_apply`, `BinaryOp.renders_apply`: each operation keeps that.
* `Expr.renders_lowered`: so does the whole of the lowering.
-/

namespace ReaderGen

/-- The atoms of the polynomial can be read, and where the expression has a value, they have values
that make the polynomial worth as much. -/
structure Poly.Renders (p : Poly) (e : Expr) : Prop where
  legible : p.All Atom.Legible
  value : ∀ v x, e.value? v = some x → p.All (Atom.Defined v) ∧ p.eval (Atom.worth v) = x

/-- The atom can be read, without an operator, and names the same place as the expression. -/
structure Atom.Stands (a : Atom) (e : Expr) : Prop where
  legible : a.Legible
  simple : a.compound = false
  place : ∀ v at', e.place? v = some at' → a.tree.place? v = some at'

namespace Atom

theorem legible_of_tree {a : Atom} {e : Expr} (h : e.WellBracketed) (ht : e.spelled = a.text)
    (hf : e.first.level = 0) (hl : e.level ≤ if a.compound then 2 else 0) : a.Legible := by
  have htree := tree_of_spelled h ht
  refine ⟨?_, ?_, ?_, ?_⟩ <;> rw [htree]
  · exact ht
  · exact h
  · exact hf
  · exact hl

theorem stands_var {x : String} (hx : Word.IsVariable x) : (var x).Stands (.name x) := by
  have htree : (var x).tree = .name x := tree_of_spelled (e := .name x) hx rfl
  refine ⟨legible_of_tree (e := .name x) hx rfl rfl (Nat.le_refl 0), rfl, fun v at' h => ?_⟩
  rw [htree]
  exact h

end Atom

/-- If an operation has a value, its operands have those of their polynomials. -/
theorem Poly.Renders.value_binary {p q : Poly} {left right : Expr} (hp : p.Renders left)
    (hq : q.Renders right) {op : BinaryOp} {v : Valuation} {x : Int}
    (hx : (Expr.binary op left right).value? v = some x) :
    p.All (Atom.Defined v) ∧ q.All (Atom.Defined v) ∧
      op.value? (p.eval (Atom.worth v)) (q.eval (Atom.worth v)) = some x := by
  obtain ⟨a, ha, hx⟩ := Option.bind_eq_some_iff.1 hx
  obtain ⟨b, hb, hx⟩ := Option.bind_eq_some_iff.1 hx
  obtain ⟨hdp, rfl⟩ := hp.value v a ha
  obtain ⟨hdq, rfl⟩ := hq.value v b hb
  exact ⟨hdp, hdq, hx⟩

/-! ## Divisions -/

namespace Division

/-- The operator of an expression that takes this part of a division. -/
def op : Division → BinaryOp
  | quotient => .div
  | remainder => .rem

/-- This part of a division, towards zero. -/
def result : Division → Int → Int → Int
  | quotient, a, b => a.tdiv b
  | remainder, a, b => a.tmod b

theorem op_value? (part : Division) (a b : Int) :
    part.op.value? a b = if b = 0 then none else some (part.result a b) := by
  cases part <;> rfl

theorem constants_eq {part : Division} {a b n : Int} (h : part.constants a b = some n) :
    n = part.result a b := by
  cases part with
  | quotient => exact fits?_eq_some h
  | remainder =>
    obtain ⟨k, -, rfl⟩ := Option.map_eq_some_iff.1 h
    rfl

/-- The tree of a division that is left as it is. -/
theorem legible_quotient (part : Division) {p q : Poly} (hp : p.All Atom.Legible)
    (hq : q.All Atom.Legible) (vars : Names) :
    let a : Atom := ⟨p.operandText ++ " " ++ part.symbol ++ " " ++ q.operandText, true, vars⟩
    a.Legible ∧ a.tree = .binary part.op p.operandTree q.operandTree := by
  intro a
  obtain ⟨hwp, hlp⟩ := Poly.bracketed_operandTree hp
  obtain ⟨hwq, hlq⟩ := Poly.bracketed_operandTree hq
  have hop : part.op.level = 2 := by cases part <;> rfl
  have hw : (Expr.binary part.op p.operandTree q.operandTree).WellBracketed :=
    ⟨hwp, hwq, by omega, by omega, by omega⟩
  have hs : (Expr.binary part.op p.operandTree q.operandTree).spelled = a.text := by
    rw [Expr.spelled, Poly.spelled_operandTree hp, Poly.spelled_operandTree hq]
    cases part <;> rfl
  have hf : (Expr.binary part.op p.operandTree q.operandTree).first.level = 0 := by
    rw [Expr.first, (Expr.first_of_level (by omega)).1, hlp]
  exact ⟨Atom.legible_of_tree hw hs hf (Nat.le_of_eq hop), Atom.tree_of_spelled hw hs⟩

theorem renders_apply (part : Division) {p q r : Poly} {left right : Expr} (hp : p.Renders left)
    (hq : q.Renders right) (h : part.apply p q = .ok r) :
    r.Renders (.binary part.op left right) := by
  -- both operands have values, the second of which is not zero
  have hvalue : ∀ {v x}, (Expr.binary part.op left right).value? v = some x →
      p.All (Atom.Defined v) ∧ q.All (Atom.Defined v) ∧ q.eval (Atom.worth v) ≠ 0 ∧
        x = part.result (p.eval (Atom.worth v)) (q.eval (Atom.worth v)) := by
    intro v x hx
    obtain ⟨hdp, hdq, hx⟩ := hp.value_binary hq hx
    rw [op_value?] at hx
    split at hx
    · cases hx
    · rename_i h0
      exact ⟨hdp, hdq, h0, (Option.some.inj hx).symm⟩
  unfold apply at h
  split at h
  · cases h
  · rename_i a b _ ha hb
    -- two constants are divided at once
    cases hn : part.constants a b with
    | none => rw [hn] at h; cases h
    | some n =>
      rw [hn] at h
      obtain rfl : Poly.constant n = r := Except.ok.inj h
      refine ⟨.constant n, fun v x hx => ⟨.constant n, ?_⟩⟩
      obtain ⟨-, -, -, rfl⟩ := hvalue hx
      rw [Poly.eval_constant, constants_eq hn, Poly.eval_of_constant? _ ha,
        Poly.eval_of_constant? _ hb]
  · rename_i _ hb
    have hone := fun v => Poly.eval_of_constant? (Atom.worth v) hb
    cases part with
    | quotient =>
      obtain rfl : p = r := Except.ok.inj h
      refine ⟨hp.legible, fun v x hx => ?_⟩
      obtain ⟨hd, -, -, rfl⟩ := hvalue hx
      exact ⟨hd, by rw [hone, result, Int.tdiv_one]⟩
    | remainder =>
      obtain rfl : Poly.zero = r := Except.ok.inj h
      refine ⟨.zero, fun v x hx => ⟨.zero, ?_⟩⟩
      obtain ⟨-, -, -, rfl⟩ := hvalue hx
      rw [hone, result, Int.tmod_one, Poly.eval_zero]
  · -- the division is left as it is, between its operands
    obtain ⟨ha, ht⟩ := legible_quotient part hp.legible hq.legible (p.vars.union q.vars)
    obtain rfl := Except.ok.inj h
    refine ⟨.atom ha, fun v x hx => ?_⟩
    obtain ⟨hdp, hdq, h0, rfl⟩ := hvalue hx
    have hval : (Atom.tree ⟨p.operandText ++ " " ++ part.symbol ++ " " ++ q.operandText, true,
        p.vars.union q.vars⟩).value? v =
          some (part.result (p.eval (Atom.worth v)) (q.eval (Atom.worth v))) := by
      rw [ht, Expr.value?, Poly.value?_operandTree hp.legible hdp,
        Poly.value?_operandTree hq.legible hdq]
      exact (op_value? ..).trans (if_neg h0)
    exact ⟨.atom ⟨_, hval⟩, by rw [Poly.eval_atom, Atom.worth, hval]; rfl⟩

end Division

/-! ## Operators -/

theorem BinaryOp.renders_apply {op : BinaryOp} {p q r : Poly} {left right : Expr}
    (hp : p.Renders left) (hq : q.Renders right) (h : op.apply p q = .ok r) :
    r.Renders (.binary op left right) := by
  cases op with
  | add =>
    have h := orOverflow_eq_ok h
    refine ⟨.add h hp.legible hq.legible, fun v x hx => ?_⟩
    obtain ⟨hdp, hdq, hx⟩ := hp.value_binary hq hx
    exact ⟨.add h hdp hdq, (Poly.eval_add _ h).trans (Option.some.inj hx)⟩
  | sub =>
    have h := orOverflow_eq_ok h
    refine ⟨.sub h hp.legible hq.legible, fun v x hx => ?_⟩
    obtain ⟨hdp, hdq, hx⟩ := hp.value_binary hq hx
    exact ⟨.sub h hdp hdq, (Poly.eval_sub _ h).trans (Option.some.inj hx)⟩
  | mul =>
    have h := orOverflow_eq_ok h
    refine ⟨.mul h hp.legible hq.legible, fun v x hx => ?_⟩
    obtain ⟨hdp, hdq, hx⟩ := hp.value_binary hq hx
    exact ⟨.mul h hdp hdq, (Poly.eval_mul _ h).trans (Option.some.inj hx)⟩
  | div => exact Division.renders_apply .quotient hp hq h
  | rem => exact Division.renders_apply .remainder hp hq h
  | other s => cases h

theorem Poly.renders_neg {p r : Poly} {e : Expr} (hp : p.Renders e) (h : p.neg = some r) :
    r.Renders (.unary .neg e) := by
  refine ⟨.neg h hp.legible, fun v x hx => ?_⟩
  obtain ⟨a, ha, hx⟩ := Option.bind_eq_some_iff.1 hx
  obtain ⟨hd, rfl⟩ := hp.value v a ha
  exact ⟨.neg h hd, (Poly.eval_neg _ h).trans (Option.some.inj hx)⟩

/-! ## Subscripts -/

theorem Atom.legible_subscript {a : Atom} {i : Poly} (ha : a.Legible) (hc : a.compound = false)
    (hi : i.All Atom.Legible) :
    (a.subscript i).Legible ∧ (a.subscript i).tree = .index a.tree i.tree := by
  have hl := ha.level_of_not_compound hc
  have hw : (Expr.index a.tree i.tree).WellBracketed := ⟨ha.bracketed, hl, Poly.bracketed_tree hi⟩
  have hs : (Expr.index a.tree i.tree).spelled = (a.subscript i).text := by
    rw [Expr.spelled, ha.spelled, Poly.spelled_tree hi]
    rfl
  exact ⟨Atom.legible_of_tree hw hs rfl (Nat.zero_le _), Atom.tree_of_spelled hw hs⟩

theorem Atom.stands_subscript {a : Atom} {i : Poly} {array subscript : Expr}
    (ha : a.Stands array) (hi : i.Renders subscript) :
    (a.subscript i).Stands (.index array subscript) ∧
      (Poly.atom (a.subscript i)).Renders (.index array subscript) := by
  obtain ⟨hl, ht⟩ := Atom.legible_subscript ha.legible ha.simple hi.legible
  -- the place is found in the array, and the subscript has the value of its polynomial
  have hplace : ∀ {v id indices x}, array.place? v = some (id, indices) →
      subscript.value? v = some x →
        a.tree.place? v = some (id, indices) ∧ i.tree.value? v = some x := by
    intro v id indices x hp hx
    obtain ⟨hd, rfl⟩ := hi.value v x hx
    exact ⟨ha.place v _ hp, Poly.value?_tree hi.legible hd⟩
  refine ⟨⟨hl, rfl, fun v at' h => ?_⟩, ⟨.atom hl, fun v x h => ?_⟩⟩
  · obtain ⟨⟨id, indices⟩, hp, h⟩ := Option.bind_eq_some_iff.1 h
    obtain ⟨x, hx, h⟩ := Option.bind_eq_some_iff.1 h
    obtain ⟨hp, hx⟩ := hplace hp hx
    rw [ht, Expr.place?]
    exact Option.bind_eq_some_iff.2 ⟨_, hp, Option.bind_eq_some_iff.2 ⟨x, hx, h⟩⟩
  · obtain ⟨⟨id, indices⟩, hp, h⟩ := Option.bind_eq_some_iff.1 h
    obtain ⟨y, hy, h⟩ := Option.bind_eq_some_iff.1 h
    obtain ⟨hp, hy⟩ := hplace hp hy
    have hval : (a.subscript i).tree.value? v = some x := by
      rw [ht, Expr.value?]
      exact Option.bind_eq_some_iff.2 ⟨_, hp, Option.bind_eq_some_iff.2 ⟨y, hy, h⟩⟩
    exact ⟨.atom ⟨x, hval⟩, by rw [Poly.eval_atom, Atom.worth, hval]; rfl⟩

/-! ## Expressions -/

namespace Expr

/-- The polynomial of an expression, and the atom of a subscripted variable, say the same as the
expression. -/
theorem renders_lowered {e : Expr} (hn : ∀ x ∈ e.names, Word.IsVariable x) :
    (∀ p, e.toPoly = .ok p → p.Renders e) ∧ (∀ a, e.toAtom = .ok a → a.Stands e) := by
  have hsteps : Stepwise Word.IsVariable (fun e p => p.Renders e) (fun e a => a.Stands e) := {
    int := by
      intro text n k hk
      refine ⟨.constant k, fun v x hx => ⟨.constant k, ?_⟩⟩
      obtain rfl : (n : Int) = x := Option.some.inj hx
      rw [Poly.eval_constant, fits?_eq_some hk]
    name := by
      intro id hid
      have hs := Atom.stands_var hid
      have ht : (Atom.var id).tree = .name id := Atom.tree_of_spelled (e := .name id) hid rfl
      refine ⟨⟨.atom hs.legible, fun v x hx => ?_⟩, hs⟩
      have hval : (Atom.var id).tree.value? v = some x := by rw [ht]; exact hx
      exact ⟨.atom ⟨x, hval⟩, by rw [Poly.eval_atom, Atom.worth, hval]; rfl⟩
    index := fun _ _ _ _ ha hi => (Atom.stands_subscript ha hi).symm
    paren := fun _ =>
      ⟨fun _ hp => ⟨hp.legible, hp.value⟩, fun _ ha => ⟨ha.legible, ha.simple, ha.place⟩⟩
    group := fun _ _ hp => ⟨hp.legible, hp.value⟩
    neg := fun _ _ _ => Poly.renders_neg
    binary := fun _ _ _ _ _ _ => BinaryOp.renders_apply
    attributed := fun _ _ =>
      ⟨fun _ hp => ⟨hp.legible, hp.value⟩, fun _ ha => ⟨ha.legible, ha.simple, ha.place⟩⟩ }
  exact hsteps.of_lowering hn

end Expr

end ReaderGen
