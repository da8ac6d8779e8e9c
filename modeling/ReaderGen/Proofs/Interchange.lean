import ReaderGen.Proofs.Decoding

/-!
# Expressions with one canonical text can stand for each other

An expression with a hole lowers what fills the hole to a polynomial, and goes on with that polynomial
alone. Only a hole that is itself subscripted is lowered in another way: there the filling has to be a
variable as it stands. Since a canonical text tells its polynomial, two expressions with the same text
make no difference in any other hole.

* `Expr.Context`, `Expr.Context.fill`: expressions with a hole.
* `Expr.Context.lower_fill`: what fills the hole counts by its polynomial.
* `canonicalize_fill_congr`: what fills the hole counts by its canonical text.
-/

namespace ReaderGen

/-- The error without the expression that it quotes. -/
def ExprError.unquoted : ExprError → ExprError
  | parse _ reason => parse "" reason
  | overflow _ => overflow ""
  | divisionByZero _ => divisionByZero ""
  | unsupportedIndex name _ => unsupportedIndex name ""
  | unknownLiteral => unknownLiteral

/-- The reason decides about the error, up to the quote. -/
theorem Refusal.unquoted_toError (r : Refusal) (quote quote' : String) :
    (r.toError quote).unquoted = (r.toError quote').unquoted := by
  cases r <;> rfl

namespace Expr

/-! ## Expressions with a hole -/

/-- An expression with a hole. -/
inductive Context
  | hole
  | paren (inner : Context)
  | group (inner : Context)
  | attributed (attributes : List Token) (inner : Context)
  | unary (op : UnaryOp) (operand : Context)
  | left (op : BinaryOp) (left : Context) (right : Expr)
  | right (op : BinaryOp) (left : Expr) (right : Context)
  | array (array : Context) (subscript : Expr)
  | subscript (array : Expr) (subscript : Context)

namespace Context

/-- Puts an expression into the hole. -/
def fill (e : Expr) : Context → Expr
  | hole => e
  | paren inner => .paren (inner.fill e)
  | group inner => .group (inner.fill e)
  | attributed attributes inner => .attributed attributes (inner.fill e)
  | unary op operand => .unary op (operand.fill e)
  | left op l r => .binary op (l.fill e) r
  | right op l r => .binary op l (r.fill e)
  | array a i => .index (a.fill e) i
  | subscript a i => .index a (i.fill e)

/-- A subscript after the whole would be a subscript of the hole. -/
def AtEnd : Context → Prop
  | hole => True
  | paren inner => inner.AtEnd
  | attributed _ inner => inner.AtEnd
  | array a _ => a.AtEnd
  | _ => False

/-- The hole is not in an array that is subscripted, unless inside the brackets of a subscript there
or as an operand. -/
def Unsubscripted : Context → Prop
  | hole => True
  | paren inner => inner.Unsubscripted
  | group inner => inner.Unsubscripted
  | attributed _ inner => inner.Unsubscripted
  | unary _ operand => operand.Unsubscripted
  | left _ l _ => l.Unsubscripted
  | right _ _ r => r.Unsubscripted
  | array a _ => ¬a.AtEnd ∧ a.Unsubscripted
  | subscript _ i => i.Unsubscripted

variable {e₁ e₂ : Expr}

/-- What fills the hole counts by its polynomial. An array is lowered to an atom, and there too, if the
hole is inside a subscript of it. -/
theorem lower_fill (h : e₁.toPoly = e₂.toPoly) (c : Context) (hc : c.Unsubscripted) :
    (c.fill e₁).toPoly = (c.fill e₂).toPoly ∧
      (¬c.AtEnd → (c.fill e₁).toAtom = (c.fill e₂).toAtom) := by
  induction c with
  | hole => exact ⟨h, fun hend => absurd trivial hend⟩
  | paren inner ih => exact ⟨(ih hc).1, (ih hc).2⟩
  | group inner ih => exact ⟨(ih hc).1, fun _ => rfl⟩
  | attributed attributes inner ih => exact ⟨(ih hc).1, (ih hc).2⟩
  | unary op operand ih =>
    refine ⟨?_, fun _ => rfl⟩
    cases op with
    | neg => simp only [fill, toPoly, (ih hc).1]
    | not => rfl
    | deref => rfl
  | left op l r ih => exact ⟨by simp only [fill, toPoly, (ih hc).1], fun _ => rfl⟩
  | right op l r ih => exact ⟨by simp only [fill, toPoly, (ih hc).1], fun _ => rfl⟩
  | array a i ih =>
    have ha := (ih hc.2).2 hc.1
    exact ⟨by simp only [fill, toPoly, ha], fun _ => by simp only [fill, toAtom, ha]⟩
  | subscript a i ih =>
    have hi := (ih hc).1
    exact ⟨by simp only [fill, toPoly, hi], fun _ => by simp only [fill, toAtom, hi]⟩

/-- A sum that comes to a variable cannot be subscripted as that variable can. -/
example : (name "x").toPoly = (binary .add (name "x") (int 0 "0")).toPoly ∧
    ((array hole (name "i")).fill (name "x")).toPoly ≠
      ((array hole (name "i")).fill (binary .add (name "x") (int 0 "0"))).toPoly := by
  exact ⟨rfl, fun h => by cases h⟩

end Context

end Expr

/-- Expressions with one canonical text can stand for each other wherever they are not subscripted:
the whole then has the same canonical text, or fails in the same way. -/
theorem canonicalize_fill_congr {e₁ e₂ : Expr} (hn₁ : ∀ x ∈ e₁.names, Word.IsWord x)
    (hn₂ : ∀ x ∈ e₂.names, Word.IsWord x) {s : String} (h₁ : e₁.canonicalize = .ok s)
    (h₂ : e₂.canonicalize = .ok s) (c : Expr.Context) (hc : c.Unsubscripted) :
    (∀ t, (c.fill e₁).canonicalize = .ok t ↔ (c.fill e₂).canonicalize = .ok t) ∧
      ∀ d₁ d₂, (c.fill e₁).canonicalize = .error d₁ → (c.fill e₂).canonicalize = .error d₂ →
        d₁.unquoted = d₂.unquoted := by
  have hpoly := (c.lower_fill (Expr.toPoly_eq_of_canonicalize hn₁ hn₂ h₁ h₂) hc).1
  unfold Expr.canonicalize Expr.polynomial
  rw [hpoly]
  cases (c.fill e₂).toPoly with
  | ok p => exact ⟨fun t => Iff.rfl, fun d₁ d₂ hd => by cases hd⟩
  | error refusal =>
    refine ⟨fun t => ⟨fun h => (by cases h), fun h => (by cases h)⟩, fun d₁ d₂ hd₁ hd₂ => ?_⟩
    cases hd₁
    cases hd₂
    exact refusal.unquoted_toError _ _

/-- `(n + n) / m` -/
def quotientOfSum : Expr := .binary .div (.binary .add (.name "n") (.name "n")) (.name "m")

/-- `n * 2 / (m)` -/
def quotientOfDouble : Expr := .binary .div (.binary .mul (.name "n") (.int 2 "2")) (.paren (.name "m"))

/-- `grid[_ % 3][i] - 1` -/
def cellBefore : Expr.Context :=
  .left .sub (.array (.subscript (.name "grid") (.left .rem .hole (.int 3 "3"))) (.name "i"))
    (.int 1 "1")

theorem canonicalize_fill_congr_quotient :
    quotientOfSum.canonicalize = .ok "(2 * n) / m" ∧
    quotientOfDouble.canonicalize = .ok "(2 * n) / m" ∧ cellBefore.Unsubscripted ∧
    (cellBefore.fill quotientOfDouble).canonicalize = .ok "grid[((2 * n) / m) % 3][i] - 1" := by
  have h₁ : quotientOfSum.canonicalize = .ok "(2 * n) / m" := by rfl
  have h₂ : quotientOfDouble.canonicalize = .ok "(2 * n) / m" := by rfl
  have hc : cellBefore.Unsubscripted := ⟨id, trivial⟩
  have hfill : (cellBefore.fill quotientOfSum).canonicalize =
      .ok "grid[((2 * n) / m) % 3][i] - 1" := by rfl
  exact ⟨h₁, h₂, hc, ((canonicalize_fill_congr (forall_mem_of_all (by decide))
    (forall_mem_of_all (by decide)) h₁ h₂ cellBefore hc).1 _).1 hfill⟩

end ReaderGen
