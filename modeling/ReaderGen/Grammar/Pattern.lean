import ReaderGen.Grammar.Member
import ReaderGen.Grammar.Path

/-!
# Patterns

What stands for the parts of a value where it is taken apart: names, literals and ranges of them,
and patterns in brackets or after the name of a constructor.
-/

namespace ReaderGen.Grammar

open Reading

variable (g : Grammar)

/-! ## Ranges -/

/-- The range operator that stands here: how it is written, and how it is quoted. -/
def rangeAt (c : Cursor) : Option (String × String) :=
  if c.startsWith "..=" then some ("..=", "..=")
  else if c.startsWith "..." then some ("...", "..=")
  else if c.startsWith ".." then some ("..", "..")
  else none

/-- A range operator. -/
def rangeOperator : Reading Tokens := fun c =>
  match rangeAt c with
  | some (written, quoted) => .ok (Token.symbol quoted, c.dropSymbol written)
  | none => .error (c.wanted (choice ["`..=`", "`...`", "`..`"]))

/-- A block whose value is a constant, as written. -/
def constantBlock : Reading Tokens := source (inTurn [word "const", g.body])

/-- Whether a range has no upper end. -/
def rangeOpen (c : Cursor) : Bool :=
  c.atEnd || c.startsWith "|" || c.startsWith "=" || c.isColon || c.startsWith "," ||
    c.startsWith ";"

/-- What an end of a range may begin with. -/
def rangeEnds : List String :=
  ["literal", "identifier", "`::`", "`<`", "`self`", "`Self`", "`super`", "`crate`", "`const`"]

/-- An end of a range, and whether it is a block kept as written. -/
def rangeEnd : Reading Phrase := do
  let sign ← symbol? "-"
  knownLiteral
  let c ← get
  if isLiteral c then return ⟨sign ++ (← literal), false⟩
  else if c.isSegment || c.startsWith "::" || c.startsWith "<" then
    let p ← g.anyPath .expression
    return ⟨sign ++ p.tokens, false⟩
  else if c.isWord "const" then
    let block ← g.constantBlock
    return ⟨sign ++ block, sign.isEmpty⟩
  else wantedOneOf rangeEnds

/-- What comes after the lower end of a range. There is no result if the upper end is missing, so
that the range has to be kept as written. -/
def rangeRest : Reading (Option Tokens) := do
  let operator ← rangeOperator
  if rangeOpen (← get) then return none
  let upper ← g.rangeEnd
  return some (operator ++ upper.tokens)

/-! ## Alternatives -/

/-- Whether an alternative follows. -/
def alternativeFollows (c : Cursor) : Bool :=
  c.startsWith "|" && !c.startsWith "||" && !c.startsWith "|="

/-- A pattern, or several alternatives. -/
def alternatives (leading : Bool) : Reading Phrase := do
  let start ← if leading then symbol? "|" else nothing
  let first ← g.pattern
  let rest ← manyGiven alternativeFollows (inTurn [symbol "|", do return (← g.pattern).tokens])
  if start.isEmpty && rest.isEmpty then return first
  else return ⟨start ++ first.tokens ++ rest, false⟩

/-- A pattern, or several alternatives, possibly with a bar before the first, as tokens. -/
def topPattern : Reading Tokens := do
  let p ← g.alternatives true
  return p.tokens

/-! ## Patterns -/

/-- A field of a record and the pattern for it. -/
def fieldPattern : Reading Tokens := do
  let start ← inTurn [word? "box", word? "ref", word? "mut"]
  if !start.isEmpty then return start ++ (← name)
  let (named, tokens) ← member
  if (← get).startsWith ":" || !named then
    return tokens ++ (← inTurn [symbol ":", g.topPattern])
  else return tokens

/-- The fields of a record. Two dots end them; there is no result if attributes stand before these,
so that the pattern has to be kept as written. -/
def fieldPatterns : Reading (Option Tokens) := do
  enter .curly
  let (_, tokens) ← iterate next (false, some [])
  leave
  return tokens.map (Token.bracketed .curly)
where
  /-- One more field, after those that have been read; the flag says that there are none. -/
  next : Bool × Option Tokens → Reading (Option (Bool × Option Tokens))
    | (complete, tokens) => do
      if complete || (← get).atEnd then return none
      let start ← attributes
      if (← get).startsWith ".." then
        let dots ← symbol ".."
        return some (true, if start.isEmpty then tokens.map (· ++ dots) else none)
      let field ← g.fieldPattern
      let comma ← given (!·.atEnd) (symbol ",")
      return some (false, tokens.map (· ++ start ++ field ++ comma))

/-- Patterns in round brackets. -/
def tuplePattern : Reading Tokens := within .round (list g.topPattern)

/-- A pattern that begins with a qualified name. There is no result if it has to be kept as
written. -/
def namedPattern : Reading (Option Tokens) := do
  let p ← g.anyPath .expression
  let c ← get
  if invocationFollows p c then return some (p.tokens ++ (← inTurn [symbol "!", invoked]))
  else if c.opens .curly then
    let fields ← g.fieldPatterns
    return if p.ofType then none else fields.map (p.tokens ++ ·)
  else if c.opens .round then
    let parts ← g.tuplePattern
    return if p.ofType then none else some (p.tokens ++ parts)
  else if c.startsWith ".." then
    let rest ← g.rangeRest
    return rest.map (p.tokens ++ ·)
  else return some p.tokens

/-- Whether a pattern begins with a qualified name. -/
def beginsPath (c : Cursor) : Bool :=
  (c.isName && nameGoesOn c.next) || (c.isWord "self" && c.next.startsWith "::") ||
    c.startsWith "::" || c.startsWith "<" || c.isWord "Self" || c.isWord "super" ||
    c.isWord "crate"
where
  /-- Whether a name is more than a variable. -/
  nameGoesOn (c : Cursor) : Bool :=
    c.startsWith "::" || c.startsWith "!" || c.opens .curly || c.opens .round ||
      match rangeAt c with
      | some (written, _) =>
        let after := c.dropSymbol written
        !(after.atEnd || after.startsWith ",")
      | none => false

/-- A pattern that is a literal or a range. There is no result if it has to be kept as written. -/
def literalPattern : Reading (Option Tokens) := do
  let lower ← g.rangeEnd
  if (← get).startsWith ".." then
    let rest ← g.rangeRest
    return rest.map (lower.tokens ++ ·)
  else return if lower.verbatim then none else some lower.tokens

/-- A range without a lower end, or two dots for the rest of a list. There is no result if it has to
be kept as written. -/
def openPattern : Reading (Option Tokens) := do
  let operator ← rangeOperator
  if !rangeOpen (← get) then
    let _ ← g.rangeEnd
    return none
  else if operator = Token.symbol ".." then return some operator
  else wanted "range upper bound"

/-- A variable, possibly with a pattern for its value. -/
def variablePattern : Reading Tokens :=
  inTurn [word? "ref", word? "mut", do return [.ident (← anyWord)],
    given (·.startsWith "@") (inTurn [symbol "@", do return (← g.pattern).tokens])]

/-- What a pattern may begin with. -/
def patternStarts : List String :=
  ["`::`", "`<`", "`_`", "literal", "`const`", "`ref`", "`mut`", "`&`", "parentheses",
   "square brackets", "`..`", "`const`"]

/-- A pattern. There is no result if it has to be kept as written. -/
def freePattern : Reading (Option Tokens) := do
  let c ← get
  if beginsPath c then return ← g.namedPattern
  if c.isWord "_" then return some (← word "_")
  if c.isWord "box" then
    return some (← inTurn [word "box", do return (← g.pattern).tokens])
  knownLiteral
  if c.startsWith "-" || isLiteral c || c.isWord "const" then g.literalPattern
  else if c.isWord "ref" || c.isWord "mut" || c.isWord "self" || c.isName then
    return some (← g.variablePattern)
  else if c.startsWith "&" then
    return some (← inTurn [symbol "&", word? "mut", do return (← g.pattern).tokens])
  else if c.opens .round then return some (← g.tuplePattern)
  else if c.opens .square then return some (← within .square (list g.topPattern))
  else if c.startsWith ".." && !c.startsWith "..." then g.openPattern
  else wantedOneOf patternStarts

/-- A pattern. -/
def anyPattern : Reading Phrase := do
  let (found, written) ← withSource g.freePattern
  match found with
  | some tokens => return ⟨tokens, false⟩
  | none => return ⟨written, true⟩

end ReaderGen.Grammar
