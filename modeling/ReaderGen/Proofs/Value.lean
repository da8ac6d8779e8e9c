import ReaderGen.Canonical

/-!
# The value of an expression

What an expression is worth once its names stand for something. Integers are unbounded, quotients and
remainders are those of division towards zero, and division by zero has no value; neither has an
expression that is not arithmetic. `A[i][j]` is the array `A` at the list of indices `i, j`.

* `Expr.value?`: the value of an expression.
* `textValue?`: the value of the expression that a text holds.
* `Expr.Readable`: every variable of a tree is a text that reads as that variable.
-/

namespace ReaderGen

/-- What names stand for: an integer for each variable, and for each array an integer for each list
of indices. -/
structure Valuation where
  var : String → Int
  array : String → List Int → Int

/-- The value of an operator between two integers. -/
def BinaryOp.value? : BinaryOp → Int → Int → Option Int
  | add, a, b => some (a + b)
  | sub, a, b => some (a - b)
  | mul, a, b => some (a * b)
  | div, a, b => if b = 0 then none else some (a.tdiv b)
  | rem, a, b => if b = 0 then none else some (a.tmod b)
  | other _, _, _ => none

namespace Expr

mutual

/-- The value of an expression. -/
def value? (v : Valuation) : Expr → Option Int
  | int n _ => some n
  | name id => some (v.var id)
  | index array subscript => do
    let (id, indices) ← array.place? v
    let i ← subscript.value? v
    return v.array id (indices ++ [i])
  | paren inner => inner.value? v
  | group inner => inner.value? v
  | unary .neg operand => do
    let a ← operand.value? v
    return -a
  | unary _ _ => none
  | binary op left right => do
    let a ← left.value? v
    let b ← right.value? v
    op.value? a b
  | attributed _ inner => inner.value? v
  | literal _ => none
  | path _ => none
  | foreign _ _ => none

/-- The array that an expression names, and the indices at which it is taken so far. -/
def place? (v : Valuation) : Expr → Option (String × List Int)
  | name id => some (id, [])
  | index array subscript => do
    let (id, indices) ← array.place? v
    let i ← subscript.value? v
    return (id, indices ++ [i])
  | paren inner => inner.place? v
  | attributed _ inner => inner.place? v
  | _ => none

end

/-- The variables and arrays that an expression names. -/
def names : Expr → List String
  | name id => [id]
  | index array subscript => array.names ++ subscript.names
  | paren inner => inner.names
  | group inner => inner.names
  | unary _ operand => operand.names
  | binary _ left right => left.names ++ right.names
  | attributed _ inner => inner.names
  | _ => []

/-- Every name in the tree is a text that reads as that variable. -/
def Readable (e : Expr) : Prop := ∀ x ∈ e.names, Expr.parse x = .ok (.name x)

end Expr

/-- The value of the expression that a text holds, if it holds one. -/
def textValue? (v : Valuation) (text : String) : Option Int :=
  match Expr.parse text with
  | .ok e => e.value? v
  | .error _ => none

theorem textValue?_of_parse {v : Valuation} {text : String} {e : Expr}
    (h : Expr.parse text = .ok e) : textValue? v text = e.value? v := by
  rw [textValue?, h]

end ReaderGen
