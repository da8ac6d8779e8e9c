import ReaderGen.Grammar.Pattern
import ReaderGen.Grammar.Type

/-!
# Forms with blocks

Conditions, loops, selections and functions without a name. They are read to the end and have no
meaning here.
-/

namespace ReaderGen.Grammar

open Reading

variable (g : Grammar)

/-- A condition with its branches. -/
def condition : Reading Tokens := do
  let start ← inTurn [word "if", g.scrutinee, g.block]
  if !(← get).isWord "else" then return start
  let mark ← word "else"
  let c ← get
  if c.isWord "if" then return start ++ mark ++ (← g.conditional)
  else if c.opens .curly then return start ++ mark ++ (← g.block)
  else fail fun c => if c.atEnd then c.complain .endedOpen else c.complainWhole .unexpected

/-- A loop that runs while a condition holds. -/
def whileLoop : Reading Tokens := inTurn [word "while", g.scrutinee, g.body]

/-- A loop over the elements of a collection. -/
def forLoop : Reading Tokens :=
  inTurn [word "for", g.topPattern, word "in", g.scrutinee, g.body]

/-- A loop without an end. -/
def endlessLoop : Reading Tokens := inTurn [word "loop", g.body]

/-- One case of a selection. A comma ends it, unless it is the last one or ends in a block. -/
def case : Reading Tokens := do
  let start ← inTurn [attributes, g.topPattern,
    given (·.isWord "if") (inTurn [word "if", g.value]), symbol "=>"]
  let e ← g.early
  let c ← get
  let comma ← if e.shape ≠ .block && !c.atEnd then symbol "," else symbol? ","
  return start ++ e.tokens ++ comma

/-- A selection by patterns. -/
def selection : Reading Tokens :=
  inTurn [word "match", g.scrutinee,
    within .curly (inTurn [innerAttributes, manyGiven (!·.atEnd) g.case])]

/-- A loop or a block after its label. -/
def labelled : Reading Tokens := do
  let start ← inTurn [label, symbol ":"]
  let c ← get
  if c.isWord "while" then return start ++ (← g.whileLoop)
  else if c.isWord "for" then return start ++ (← g.forLoop)
  else if c.isWord "loop" then return start ++ (← g.endlessLoop)
  else if c.opens .curly then return start ++ (← g.body)
  else wanted "loop or block expression"

/-- A parameter of a function without a name. Attributes of a pattern that is kept as written are
dropped. -/
def parameter : Reading Tokens := do
  let start ← attributes
  let p ← g.pattern
  if (← get).startsWith ":" then
    return start ++ p.tokens ++ (← inTurn [symbol ":", g.typeTokens true])
  else return if p.verbatim then p.tokens else start ++ p.tokens

/-- A function without a name. -/
def closure (braces : Bool) : Reading Tokens :=
  inTurn [word? "static", word? "async", word? "move", symbol "|",
    listUntil (·.startsWith "|") g.parameter, symbol "|", result]
where
  result : Reading Tokens := do
    if (← get).startsWith "->" then inTurn [symbol "->", g.typeTokens true, g.block]
    else
      let e ← g.expression braces
      return e.tokens

/-- Whether labels that hold for any choice of them begin here. -/
def bindsLabels (c : Cursor) : Bool :=
  c.isWord "for" && c.next.startsWith "<" && (c.next.next.isLabel || c.next.next.startsWith ">")

/-- Whether a function without a name begins here. -/
def beginsClosure (c : Cursor) : Bool :=
  c.startsWith "|" || (c.isWord "async" && (c.next.startsWith "|" || c.next.isWord "move")) ||
    c.isWord "static" || c.isWord "move"

/-- Whether a block that runs later begins here. -/
def beginsLater (c : Cursor) : Bool :=
  c.isWord "async" &&
    (c.next.opens .curly || (c.next.isWord "move" && c.next.next.opens .curly))

/-- Whether a block that may fail begins here. -/
def beginsTry (c : Cursor) : Bool := c.isWord "try" && c.next.opens .curly

end ReaderGen.Grammar
