import ReaderGen.Proofs.Reading
import ReaderGen.Proofs.Value

/-!
# The steps of lowering

An expression that is lowered to a polynomial consists of parts that are lowered too; the rest of the
syntax is refused. So what holds of numbers and variables, and is handed on by each of the few steps that
can succeed, holds of every expression and its polynomial. Two properties go together, since a subscript
is lowered to a polynomial and what it is a subscript of to an atom.

* `Expr.Stepwise`: the steps that can succeed, and what each of them has to hand on.
* `Expr.Stepwise.of_lowering`: then the properties hold of all that is lowered.
-/

namespace ReaderGen

theorem orOverflow_eq_ok {α : Type} {r : Option α} {a : α} (h : orOverflow r = .ok a) :
    r = some a := by
  cases r with
  | none => cases h
  | some b => cases h; rfl

namespace Expr

/-- Every step of lowering hands on `P`, of an expression and its polynomial, and `A`, of an expression
and its atom. Of the names in the expression, `V` is known. -/
structure Stepwise (V : String → Prop) (P : Expr → Poly → Prop) (A : Expr → Atom → Prop) : Prop where
  int (text : String) {n : Nat} {k : Int} : fits? n = some k → P (.int n text) (.constant k)
  name {id : String} : V id → P (.name id) (.atom (.var id)) ∧ A (.name id) (.var id)
  index (array subscript : Expr) {a : Atom} {i : Poly} : A array a → P subscript i →
    P (.index array subscript) (.atom (a.subscript i)) ∧ A (.index array subscript) (a.subscript i)
  paren (inner : Expr) :
    (∀ p, P inner p → P (.paren inner) p) ∧ ∀ a, A inner a → A (.paren inner) a
  group (inner : Expr) {p : Poly} : P inner p → P (.group inner) p
  neg (operand : Expr) {p r : Poly} : P operand p → p.neg = some r → P (.unary .neg operand) r
  binary (left right : Expr) {op : BinaryOp} {p q r : Poly} : P left p → P right q →
    op.apply p q = .ok r → P (.binary op left right) r
  attributed (attributes : List Token) (inner : Expr) :
    (∀ p, P inner p → P (.attributed attributes inner) p) ∧
      ∀ a, A inner a → A (.attributed attributes inner) a

theorem Stepwise.of_lowering {V : String → Prop} {P : Expr → Poly → Prop} {A : Expr → Atom → Prop}
    (h : Stepwise V P A) {e : Expr} (hn : ∀ x ∈ e.names, V x) :
    (∀ p, e.toPoly = .ok p → P e p) ∧ ∀ a, e.toAtom = .ok a → A e a := by
  induction e with
  | int n text =>
    refine ⟨fun p hp => ?_, fun a ha => by cases ha⟩
    rw [toPoly] at hp
    split at hp
    · rename_i k hk
      cases hp
      exact h.int text hk
    · cases hp
  | name id =>
    have hid := h.name (hn id (.head _))
    constructor
    · intro p hp; cases hp; exact hid.1
    · intro a ha; cases ha; exact hid.2
  | index array subscript iha ihi =>
    have harray := (iha fun x hx => hn x (List.mem_append_left _ hx)).2
    have hsubscript := (ihi fun x hx => hn x (List.mem_append_right _ hx)).1
    constructor
    · intro p hp
      obtain ⟨a, ha, hp⟩ := ok_of_bind hp
      obtain ⟨i, hi, hp⟩ := ok_of_bind hp
      cases hp
      exact (h.index _ _ (harray a ha) (hsubscript i hi)).1
    · intro b hb
      obtain ⟨a, ha, hb⟩ := ok_of_bind hb
      obtain ⟨i, hi, hb⟩ := ok_of_bind hb
      cases hb
      exact (h.index _ _ (harray a ha) (hsubscript i hi)).2
  | paren inner ih =>
    exact ⟨fun p hp => (h.paren inner).1 p ((ih hn).1 p hp),
      fun a ha => (h.paren inner).2 a ((ih hn).2 a ha)⟩
  | group inner ih => exact ⟨fun p hp => h.group inner ((ih hn).1 p hp), fun a ha => by cases ha⟩
  | attributed attributes inner ih =>
    exact ⟨fun p hp => (h.attributed attributes inner).1 p ((ih hn).1 p hp),
      fun a ha => (h.attributed attributes inner).2 a ((ih hn).2 a ha)⟩
  | unary op operand ih =>
    refine ⟨fun r hr => ?_, fun a ha => by cases ha⟩
    cases op with
    | neg =>
      obtain ⟨p, hp, hr⟩ := ok_of_bind hr
      exact h.neg operand ((ih hn).1 p hp) (orOverflow_eq_ok hr)
    | not => cases hr
    | deref => cases hr
  | binary op left right ihl ihr =>
    have hleft := (ihl fun x hx => hn x (List.mem_append_left _ hx)).1
    have hright := (ihr fun x hx => hn x (List.mem_append_right _ hx)).1
    refine ⟨fun r hr => ?_, fun a ha => by cases ha⟩
    obtain ⟨p, hp, hr⟩ := ok_of_bind hr
    obtain ⟨q, hq, hr⟩ := ok_of_bind hr
    exact h.binary left right (hleft p hp) (hright q hq) hr
  | literal text | path tokens | foreign shape tokens =>
    constructor
    · intro p hp; cases hp
    · intro a ha; cases ha

end Expr

end ReaderGen
