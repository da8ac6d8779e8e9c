import ReaderGen.Grammar.Statement
import ReaderGen.Token.Scanner

/-!
# Reading expressions

`Expr.parse` reads a whole text as one expression. Reading goes from left to right, and the first
place where it cannot go on is the complaint. Tokens left over in a bracket are only reported once
everything else has been read.

The rules of the grammar are put together here. Each rule reads the phrases within its own phrase by
the rules of the next smaller depth; `Grammar.depthFor` is enough for any text, since no more than a
few rules call each other before a token is passed.
-/

namespace ReaderGen

namespace Grammar

/-- The grammar of phrases that are nested at most this deep. The phrases within are only looked at
when they are read. -/
def ofDepth : Nat → Grammar
  | 0 => exhausted
  | n + 1 =>
    { expression := fun braces c => (ofDepth n).anyExpression braces c
      operand := fun braces c => (ofDepth n).anyOperand braces c
      early := fun c => (ofDepth n).earlyExpression c
      matched := fun c => (ofDepth n).matchedValue c
      type := fun plus c => (ofDepth n).anyType plus c
      bound := fun c => (ofDepth n).anyBound c
      pattern := fun c => (ofDepth n).anyPattern c
      statements := fun c => (ofDepth n).allStatements c
      conditional := fun c => (ofDepth n).condition c
      item := fun c => (ofDepth n).anyItem c
      imports := fun c => (ofDepth n).importTree c }

theorem ofDepth_expression (n : Nat) (braces : Bool) :
    (ofDepth (n + 1)).expression braces = (ofDepth n).anyExpression braces := rfl

theorem ofDepth_operand (n : Nat) (braces : Bool) :
    (ofDepth (n + 1)).operand braces = (ofDepth n).anyOperand braces := rfl

/-- A depth that suffices for a list of tokens. -/
def depthFor (tokens : List Token) : Nat := 4 * (tokens.length + 1)

/-- The grammar for a list of tokens. -/
def forTokens (tokens : List Token) : Grammar := ofDepth (depthFor tokens)

/-- The whole of the tokens, by a reading that has to take them all. Stray tokens in brackets count
before those after the end. -/
def whole {α : Type} (r : Reading α) (tokens : List Token) : Except Complaint α := do
  let (a, c) ← r ⟨tokens, none⟩
  match c.stray with
  | some complaint => .error complaint
  | none => if c.rest.isEmpty then .ok a else .error (c.complainWhole .unexpected)

end Grammar

/-- Reads a text as one expression. -/
def Expr.parse (text : String) : Except Fault Expr :=
  match Scanner.scan text with
  | .error _ => .error .unreadable
  | .ok lexemes =>
    let tokens := lexemes.map (·.token)
    match Grammar.whole ((Grammar.forTokens tokens).expression true) tokens with
    | .error complaint => .error complaint.fault
    | .ok e => .ok e

end ReaderGen
