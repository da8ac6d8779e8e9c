import ReaderGen.Poly

/-!
# Canonical text

A polynomial as text: its terms in order with the constant last, a coefficient other than 1 before
its factors, a leading minus sign written directly before the first term. Compound atoms stand in
brackets when they are factors of a product, and a polynomial stands in brackets as an operand of a
division unless it is a single factor.
-/

namespace ReaderGen.Poly

/-- Terms in the order in which they are written. -/
def written (p : Poly) : List Term :=
  p.terms.filter (·.monomial ≠ .one) ++ p.terms.filter (·.monomial = .one)

/-- One factor; `product` says that it is not the only one. -/
def factorText (product : Bool) (a : Atom) : String :=
  if product && a.compound then "(" ++ a.text ++ ")" else a.text

/-- The factors of a monomial. -/
def factorsText (product : Bool) : List Atom → String
  | [] => ""
  | [a] => factorText product a
  | a :: b :: as => factorText product a ++ " * " ++ factorsText product (b :: as)

/-- A term without its sign. -/
def termText (t : Term) : String :=
  let size := t.coeff.natAbs
  match t.monomial.factors with
  | [] => toString size
  | factors =>
    let product := size ≠ 1 || factors.length ≠ 1
    (if size = 1 then "" else toString size ++ " * ") ++ factorsText product factors

/-- Terms after the first one. -/
def moreText : List Term → String
  | [] => ""
  | t :: ts => (if t.coeff < 0 then " - " else " + ") ++ termText t ++ moreText ts

/-- The canonical text of a polynomial. -/
def text (p : Poly) : String :=
  match p.written with
  | [] => "0"
  | t :: ts => (if t.coeff < 0 then "-" else "") ++ termText t ++ moreText ts

/-- Whether the text can be an operand of a division as it stands. -/
def isFactor (p : Poly) : Bool :=
  match p.terms with
  | [] => true
  | [⟨m, n⟩] =>
    match m.factors with
    | [] => 0 < n
    | [a] => n = 1 && !a.compound
    | _ => false
  | _ => false

/-- The text as an operand of a division. -/
def operandText (p : Poly) : String :=
  if p.isFactor then p.text else "(" ++ p.text ++ ")"

end ReaderGen.Poly
