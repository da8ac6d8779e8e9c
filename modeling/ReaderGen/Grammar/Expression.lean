import ReaderGen.Expr.Chain
import ReaderGen.Grammar.Operand

/-!
# Expressions

An expression is a chain of operands. How tightly the operators between them bind is settled by
`Chain.toExpr`.
-/

namespace ReaderGen.Grammar

open Reading

variable (g : Grammar)

/-! ## Operators -/

/-- Operators that assign. -/
def assignments : List String :=
  ["+=", "-=", "*=", "/=", "%=", "^=", "&=", "|=", "<<=", ">>="]

/-- Binary operators; the longer of two that begin alike comes first. -/
def binaryOperators : List String :=
  ["&&", "||", "<<", ">>", "==", "<=", "!=", ">=", "+", "-", "*", "/", "%", "^", "&", "|", "<", ">"]

/-- What joins an operand to the next one. -/
inductive Joint
  | binary (op : BinaryOp)
  | assign (symbol : String)
deriving DecidableEq, Repr

namespace Joint

def symbol : Joint → String
  | binary op => op.symbol
  | assign symbol => symbol

def link : Joint → Expr → Link
  | binary op, e => .binary op e
  | assign symbol, e => .loose symbol (some e)

/-- Whether an operator binds at least as tightly as a comparison. -/
def isTight : Joint → Bool
  | binary op => op.symbol ≠ "&&" && op.symbol ≠ "||"
  | assign _ => false

end Joint

/-- The operator that stands here, ranges apart. -/
def jointAt (c : Cursor) : Option Joint :=
  match assignments.find? c.startsWith with
  | some symbol => some (.assign symbol)
  | none =>
    match binaryOperators.find? c.startsWith with
    | some symbol => some (.binary (.ofSymbol symbol))
    | none => if c.startsWith "=" && !c.startsWith "=>" then some (.assign "=") else none

/-! ## Conversions -/

/-- What must not follow a conversion. -/
def afterCast? (c : Cursor) : Option String :=
  if c.isPoint then
    if c.next.isWord "await" then some "`.await`"
    else if c.next.isName && (c.next.next.opens .round || c.next.next.startsWith "::") then
      some "a method call"
    else some "a field access"
  else if c.startsWith "?" then some "`?`"
  else if c.opens .square then some "indexing"
  else if c.opens .round then some "a function call"
  else none

/-- One more conversion of an operand to a type. -/
def cast (e : Expr) : Reading (Option Expr) := do
  let c ← get
  if !(c.isWord "as" || c.isColon) then return none
  let mark ← if c.isWord "as" then word "as" else symbol ":"
  let type ← g.typeTokens false
  match afterCast? (← get) with
  | some what => fail (·.complain (.afterCast what))
  | none => return some (.foreign .plain (e.tokens ++ mark ++ type))

/-- An operand with the conversions after it. -/
def converted (e : Expr) : Reading Expr := iterate g.cast e

/-! ## Chains -/

/-- One more operator with its operand. -/
def link (braces : Bool) : Reading (Option Link) := do
  let c ← get
  match jointAt c with
  | some joint =>
    let _ ← symbol joint.symbol
    let e ← g.operand braces
    let e ← g.converted e
    return some (joint.link e)
  | none =>
    match rangeAt c with
    | none => return none
    | some (written, quoted) =>
      pass written.length
      if rangeCut braces (← get) then return some (.loose quoted none)
      let e ← g.operand braces
      let e ← g.converted e
      return some (.loose quoted (some e))

/-- The chain that begins with an operand. -/
def chain (braces : Bool) (first : Expr) : Reading Expr := do
  let first ← g.converted first
  let links ← many (g.link braces)
  return Chain.toExpr first links

/-- An expression. -/
def anyExpression (braces : Bool) : Reading Expr := do
  let first ← g.operand braces
  g.chain braces first

/-- One more operator that binds at least as tightly as a comparison, with its operand. -/
def tightLink : Reading (Option Link) := do
  match jointAt (← get) with
  | some joint => if joint.isTight then g.link false else return none
  | none => return none

/-- What a pattern is matched with: an expression without looser operators than comparisons, before
a block. -/
def matchedValue : Reading Tokens := do
  let first ← g.operand false
  let first ← g.converted first
  let links ← many g.tightLink
  return (Chain.toExpr first links).tokens

/-- Whether a form that a block ends begins here. -/
def beginsBlock (c : Cursor) : Bool :=
  c.isWord "if" || c.isWord "while" || (c.isWord "for" && !bindsLabels c) || c.isWord "loop" ||
    c.isWord "match" || beginsTry c || c.isWord "unsafe" || c.isWord "const" || c.opens .curly

/-- Attributes before an expression; they are dropped before one that is kept as written. -/
def withOwn (attributes : Tokens) (e : Expr) : Expr :=
  if e.shape = .verbatim then e else e.withAttributes attributes

/-- An expression at the beginning of a statement. A block ends it, unless a member of its value is
named or a question mark follows. -/
def earlyExpression : Reading Expr := do
  let start ← attributes
  if beginsBlock (← get) then
    let e ← g.atom true
    let c ← get
    if c.isPoint || c.startsWith "?" then
      let e ← iterate g.trailer e
      g.chain true (withOwn start e)
    else return withOwn start e
  else
    let e ← g.operand true
    g.chain true (withOwn start e)

end ReaderGen.Grammar
