import ReaderGen.Expr.Parser

/-!
# Format descriptions

A description is a list of statements: `read N, A[i];` reads items and then the end of the line, and
`for i upto N { … }` repeats a block. Any word may name a variable or a counter, also `read`, `for`
and words that no expression may use.

`Description.parse` reads the tokens of a description. Expressions keep the numbers of tokens left
before and after them, so that a later complaint about them can say where they stand.
-/

namespace ReaderGen.Description

/-- An expression, and the numbers of tokens left before and after it. -/
structure Located where
  expr : Expr
  before : Nat
  after : Nat
deriving Repr

structure Item where
  name : String
  indices : List Located
deriving Repr

inductive Statement
  | read (items : List Item)
  | loop (counter : String) (bound : Located) (body : List Statement)
deriving Repr

open Reading

variable (g : Grammar)

/-! ## Items -/

/-- An expression with its place. -/
def located (braces : Bool) : Reading Located := do
  let before := (← get).rest.length
  let expr ← g.expression braces
  return ⟨expr, before, (← get).rest.length⟩

/-- A subscript of an item, if there is one more. -/
def index : Reading (Option Located) := do
  if !(← get).opens .square then return none
  enter .square
  let index ← located g true
  leave
  return some index

/-- An item: any word with subscripts. -/
def item : Reading Item := do
  let name ← anyWord
  return ⟨name, ← many (index g)⟩

/-- Items separated by commas, at least one. -/
def items : Reading (List Item) := do
  let items ← joined (fun _ => false) (item g) ","
  return items.map (·.1)

/-! ## Statements -/

/-- The statements up to the end of the block. At most `n` statements follow or enclose one another. -/
def statements : Nat → Reading (List Statement)
  | 0 => fail (·.complain .exhausted)
  | n + 1 => do
    let c ← get
    if c.atEnd then return []
    else if c.isWord "read" then
      pass 1
      let items ← items g
      let _ ← symbol ";"
      let rest ← statements n
      return .read items :: rest
    else if c.isWord "for" then
      pass 1
      let counter ← anyWord
      let _ ← word "upto"
      let bound ← located g false
      enter .curly
      let body ← statements n
      leave
      let rest ← statements n
      return .loop counter bound body :: rest
    else fail (·.complain (.expected "`read` or `for`"))

/-- Reads a whole description. -/
def parse (tokens : List Token) : Except Complaint (List Statement) :=
  Grammar.whole (statements (Grammar.forTokens tokens) (tokens.length + 1)) tokens

end ReaderGen.Description
