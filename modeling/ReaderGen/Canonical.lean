import ReaderGen.Error
import ReaderGen.Expr.Parser
import ReaderGen.Poly.Printer

/-!
# Canonical expressions

An expression is brought into canonical form by reading it as a polynomial, with subscripted
variables and irreducible quotients and remainders as atoms, and writing that polynomial.

* `Expr.toPoly`: the polynomial of an expression, operands from left to right, then the operator.
* `Expr.canonicalize`, `simplify`: the canonical text of an expression and of a text.
* `freeVars`: the variables that the canonical form depends on.
* `offsetFrom`: what is to be added to a variable to get an expression.
-/

namespace ReaderGen

/-- Why an expression is refused although it can be read. -/
inductive Refusal
  /-- An integer literal that is not a 64-bit integer. -/
  | literalTooLarge
  | notAnInteger
  | unaryOperator
  | binaryOperator
  /-- A form that is not arithmetic. -/
  | form
  | qualifiedName
  /-- Something other than a variable is subscripted. -/
  | subscripted
  | overflow
  | divisionByZero
deriving DecidableEq, Repr

namespace Refusal

def reason : Refusal → String
  | literalTooLarge => "number too large to fit in target type"
  | notAnInteger => "expected an integer literal"
  | unaryOperator => "unsupported unary operator"
  | binaryOperator => "unsupported binary operator"
  | form => "unsupported expression"
  | qualifiedName => "expected a variable name"
  | subscripted => "only variables can be subscripted"
  | overflow => "overflow"
  | divisionByZero => "division by zero"

/-- The error of refusing an expression, which is quoted as a whole. -/
def toError (quote : String) : Refusal → ExprError
  | overflow => .overflow quote
  | divisionByZero => .divisionByZero quote
  | refusal => .parse quote refusal.reason

end Refusal

/-- The result, if there is no overflow. -/
def orOverflow {α : Type} : Option α → Except Refusal α
  | some a => .ok a
  | none => .error .overflow

/-- The two parts of a division. -/
inductive Division
  | quotient
  | remainder
deriving DecidableEq, Repr

namespace Division

def symbol : Division → String
  | quotient => "/"
  | remainder => "%"

/-- Division of constants, towards zero. The least number divided by -1 is an overflow, also for
the remainder. -/
def constants (part : Division) (a b : Int) : Option Int :=
  match part with
  | quotient => fits? (a.tdiv b)
  | remainder => (fits? (a.tdiv b)).map fun _ => a.tmod b

/-- Divides, or makes the division an atom. -/
def apply (part : Division) (p q : Poly) : Except Refusal Poly :=
  match p.constant?, q.constant? with
  | _, some 0 => .error .divisionByZero
  | some a, some b => orOverflow ((part.constants a b).map Poly.constant)
  | none, some 1 =>
    match part with
    | quotient => .ok p
    | remainder => .ok .zero
  | _, _ =>
    .ok (.atom ⟨p.operandText ++ " " ++ part.symbol ++ " " ++ q.operandText, true,
      p.vars.union q.vars⟩)

end Division

/-- The value of a binary operator on polynomials. -/
def BinaryOp.apply (op : BinaryOp) (p q : Poly) : Except Refusal Poly :=
  match op with
  | add => orOverflow (p.add q)
  | sub => orOverflow (p.sub q)
  | mul => orOverflow (p.mul q)
  | div => Division.quotient.apply p q
  | rem => Division.remainder.apply p q
  | other _ => .error .binaryOperator

/-- A subscripted atom. -/
def Atom.subscript (array : Atom) (index : Poly) : Atom :=
  ⟨array.text ++ "[" ++ index.text ++ "]", false, array.vars.union index.vars⟩

namespace Expr

mutual

/-- The polynomial that an expression stands for. -/
def toPoly : Expr → Except Refusal Poly
  | int value _ =>
    match fits? value with
    | some n => .ok (.constant n)
    | none => .error .literalTooLarge
  | literal _ => .error .notAnInteger
  | name id => .ok (.atom (.var id))
  | path _ => .error .qualifiedName
  | index array subscript => do
    let a ← array.toAtom
    let i ← subscript.toPoly
    return .atom (a.subscript i)
  | paren inner => inner.toPoly
  | group inner => inner.toPoly
  | unary .neg operand => do
    let p ← operand.toPoly
    orOverflow p.neg
  | unary _ _ => .error .unaryOperator
  | binary op left right => do
    let p ← left.toPoly
    let q ← right.toPoly
    op.apply p q
  | attributed _ inner => inner.toPoly
  | foreign _ _ => .error .form

/-- The variable, possibly subscripted, that an expression stands for. -/
def toAtom : Expr → Except Refusal Atom
  | name id => .ok (.var id)
  | path _ => .error .qualifiedName
  | index array subscript => do
    let a ← array.toAtom
    let i ← subscript.toPoly
    return a.subscript i
  | paren inner => inner.toAtom
  | attributed _ inner => inner.toAtom
  | _ => .error .subscripted

end

/-- The polynomial of a whole expression; errors quote the expression. -/
def polynomial (e : Expr) : Except ExprError Poly :=
  match e.toPoly with
  | .ok p => .ok p
  | .error refusal => .error (refusal.toError e.quote)

/-- The canonical text of an expression. -/
def canonicalize (e : Expr) : Except ExprError String := do
  let p ← e.polynomial
  return p.text

end Expr

/-- The polynomial of a text. -/
def polynomialOf (text : String) : Except ExprError Poly :=
  match Expr.parse text with
  | .ok e => e.polynomial
  | .error .unknownLiteral => .error .unknownLiteral
  | .error fault => .error (.parse text fault.message)

/-- The canonical text of the expression that a text holds. -/
def simplify (text : String) : Except ExprError String := do
  let p ← polynomialOf text
  return p.text

/-- The variables that an expression depends on, once it is simplified. -/
def freeVars (text : String) : Except ExprError Names := do
  let p ← polynomialOf text
  return p.vars

/-- What is left of a polynomial that is a variable plus something without that variable. -/
def Poly.offset? (p : Poly) (var : String) : Option Poly :=
  let m : Monomial := .ofAtom (.var var)
  if p.coeff m = 1 then
    let rest := p.erase m
    if rest.vars.contains var then none else some rest
  else none

/-- The canonical text of `text - var`, if `var` does not occur in it. -/
def offsetFrom (text var : String) : Except ExprError (Option String) := do
  let p ← polynomialOf text
  return (p.offset? var).map Poly.text

end ReaderGen
