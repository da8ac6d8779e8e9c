import ReaderGen.Proofs.Lowering
import ReaderGen.Proofs.Origin

/-!
# Canonical text keeps the meaning of an expression

The canonical text of an expression is read as another expression, which is worth as much wherever the
first has a value. Nothing is assumed of the sizes of numbers: a coefficient that does not fit is an
error, never another number.

* `canonicalize_preserves_value`: canonical text is read as an expression of the same value.
* `CanonicalText`, `CanonicalText.poly`: a text that was made canonical, or is what is left of one
  after a variable has been taken off, spells a polynomial.
* `textValue?_simplify_difference`: one canonical text less another, simplified.
-/

namespace ReaderGen

theorem Expr.toPoly_of_polynomial {e : Expr} {p : Poly} (h : e.polynomial = .ok p) :
    e.toPoly = .ok p := by
  unfold polynomial at h
  split at h
  · rename_i q hq
    cases h
    exact hq
  · cases h

theorem Expr.renders_polynomial {e : Expr} (hr : e.Readable) {p : Poly}
    (h : e.polynomial = .ok p) : p.Renders e :=
  (renders_lowered hr.variable).1 p (toPoly_of_polynomial h)

/-- The tree that a polynomial spells is worth as much as the expression it stands for. -/
theorem Poly.Renders.value?_tree {p : Poly} {e : Expr} (h : p.Renders e) {v : Valuation} {x : Int}
    (hx : e.value? v = some x) : p.tree.value? v = some x := by
  obtain ⟨hd, rfl⟩ := h.value v x hx
  exact Poly.value?_tree h.legible hd

/-- Canonical text is read as an expression that has the same value as the one it was made from,
under every valuation under which that one has a value. That the expression is readable excludes names
that are not read as variables, such as reserved words and texts that are no words: their canonical text
is not read at all, or as something else. An expression that was itself read from a text has no such
names (`Expr.readable_of_parse`). -/
theorem canonicalize_preserves_value {e : Expr} (hr : e.Readable) {s : String}
    (h : e.canonicalize = .ok s) :
    ∃ e', Expr.parse s = .ok e' ∧ ∀ v x, e.value? v = some x → e'.value? v = some x := by
  obtain ⟨p, hp, hs⟩ := ok_of_bind h
  obtain rfl : p.text = s := Except.ok.inj hs
  have hrenders := Expr.renders_polynomial hr hp
  exact ⟨p.tree, Poly.parse_text hrenders.legible, fun v x hx => hrenders.value?_tree hx⟩

/-- `-(A[i + 1] / 2) - 3 * (N % (M - 4))`, the brackets not written. -/
def signedQuotient : Expr :=
  .binary .sub
    (.unary .neg (.group (.binary .div
      (.index (.name "A") (.binary .add (.name "i") (.int 1 "0x1"))) (.int 2 "2"))))
    (.binary .mul (.int 3 "3") (.group (.binary .rem (.name "N")
      (.group (.binary .sub (.name "M") (.int 4 "4"))))))

/-- A negated quotient is written without brackets, and still has its value: -4 where `A[8]` is 9. -/
theorem canonicalize_preserves_value_signedQuotient :
    signedQuotient.Readable ∧
      signedQuotient.canonicalize = .ok "-A[i + 1] / 2 - 3 * (N % (M - 4))" ∧
      signedQuotient.value? ⟨fun _ => 7, fun _ _ => 9⟩ = some (-4 - 3 * 1) ∧
      ∃ e', Expr.parse "-A[i + 1] / 2 - 3 * (N % (M - 4))" = .ok e' ∧
        ∀ v x, signedQuotient.value? v = some x → e'.value? v = some x := by
  have hr : signedQuotient.Readable := by
    intro x hx
    rw [Expr.parse_eq_name_iff]
    revert x
    decide +kernel
  have hs : signedQuotient.canonicalize = .ok "-A[i + 1] / 2 - 3 * (N % (M - 4))" :=
    ok_of_toOption (by decide +kernel)
  exact ⟨hr, hs, by decide +kernel, canonicalize_preserves_value hr hs⟩

/-! ## Canonical text within other text -/

theorem renders_polynomialOf {text : String} {p : Poly} (h : polynomialOf text = .ok p) :
    ∃ e, Expr.parse text = .ok e ∧ p.Renders e := by
  unfold polynomialOf at h
  split at h
  · rename_i e he
    have hr : e.Readable := Expr.readable_of_parse he (Expr.toPoly_of_polynomial h)
    exact ⟨e, he, Expr.renders_polynomial hr h⟩
  · cases h
  · cases h

theorem Poly.eq_of_offset? {p q : Poly} {x : String} (h : p.offset? x = some q) :
    q = p.erase (.ofAtom (.var x)) := by
  simp only [offset?, Option.ite_none_right_eq_some, Option.ite_none_left_eq_some] at h
  exact (Option.some.inj h.2.2).symm

/-- A text that is the canonical form of an expression, or what is left of an expression after a
variable has been taken off. -/
def CanonicalText (s : String) : Prop :=
  (∃ e : Expr, e.Readable ∧ e.canonicalize = .ok s) ∨
    ∃ text x, offsetFrom text x = .ok (some s)

/-- Such a text spells a polynomial. -/
theorem CanonicalText.poly {s : String} (h : CanonicalText s) :
    ∃ p : Poly, p.All Atom.Legible ∧ s = p.text := by
  rcases h with ⟨e, hr, h⟩ | ⟨text, x, h⟩
  · obtain ⟨p, hp, hs⟩ := ok_of_bind h
    exact ⟨p, (Expr.renders_polynomial hr hp).legible, (Except.ok.inj hs).symm⟩
  · obtain ⟨p, hp, hs⟩ := ok_of_bind h
    obtain ⟨e, -, hrenders⟩ := renders_polynomialOf hp
    obtain ⟨q, hq, rfl⟩ := Option.map_eq_some_iff.1 (Except.ok.inj hs)
    rw [Poly.eq_of_offset? hq]
    exact ⟨_, hrenders.legible.erase _, rfl⟩

theorem textValue?_text {p : Poly} (h : p.All Atom.Legible) (v : Valuation) :
    textValue? v p.text = p.tree.value? v :=
  textValue?_of_parse (Poly.parse_text h)

/-- A canonical text less another one in brackets is read as that: the brackets keep the second one
together, and the first needs none. -/
theorem Poly.parse_difference {p q : Poly} (hp : p.All Atom.Legible) (hq : q.All Atom.Legible) :
    Expr.parse (p.text ++ " - (" ++ q.text ++ ")") = .ok (.binary .sub p.tree (.paren q.tree)) := by
  have hw : (Expr.binary .sub p.tree (.paren q.tree)).WellBracketed :=
    ⟨Poly.bracketed_tree hp, Poly.bracketed_tree hq, (Poly.bracketed_tree hp).level_le,
      Nat.succ_pos 2, Nat.le_refl 3⟩
  have hs : (Expr.binary .sub p.tree (.paren q.tree)).spelled =
      p.text ++ " - (" ++ q.text ++ ")" := by
    simp only [Expr.spelled, Poly.spelled_tree hp, Poly.spelled_tree hq, String.append_assoc]
    rfl
  rw [← hs]
  exact Expr.parse_spelled hw

/-- The difference of two canonical texts, simplified, is worth the difference of their values. -/
theorem textValue?_simplify_difference {a b s : String} (ha : CanonicalText a)
    (hb : CanonicalText b) (h : simplify (a ++ " - (" ++ b ++ ")") = .ok s) {v : Valuation}
    {x y : Int} (hx : textValue? v a = some x) (hy : textValue? v b = some y) :
    textValue? v s = some (x - y) := by
  obtain ⟨p, hp, rfl⟩ := ha.poly
  obtain ⟨q, hq, rfl⟩ := hb.poly
  rw [textValue?_text hp] at hx
  rw [textValue?_text hq] at hy
  obtain ⟨r, hr, htext⟩ := ok_of_bind h
  obtain rfl : r.text = s := Except.ok.inj htext
  obtain ⟨e, he, hrenders⟩ := renders_polynomialOf hr
  rw [Poly.parse_difference hp hq] at he
  obtain rfl := Except.ok.inj he
  rw [textValue?_text hrenders.legible]
  refine hrenders.value?_tree ?_
  rw [Expr.value?, hx, Expr.value?, hy]
  rfl

end ReaderGen
