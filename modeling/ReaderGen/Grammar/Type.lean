import ReaderGen.Grammar.Path

/-!
# Bounds and types

A bound is a trait or a label; a type that is a sum of bounds stands for a value or a type that has
all of them. Of the types, only those that follow `as` or a colon in an expression are met often, and
none has a meaning here.
-/

namespace ReaderGen.Grammar

open Reading

variable (g : Grammar)

/-! ## Labels -/

/-- The declaration of a label. A colon without bounds after it is not quoted. -/
def labelParameter : Reading Tokens := do
  let start ← inTurn [attributes, label]
  if !(← get).startsWith ":" then return start
  let colon ← symbol ":"
  let bounds ← sum (fun c => c.startsWith "," || c.startsWith ">") label "+"
  return start ++ (if bounds.isEmpty then [] else colon ++ bounds)

/-- Labels that hold for any choice of them. -/
def labelBinder : Reading Tokens :=
  inTurn [word "for", symbol "<", listUntil (·.startsWith ">") labelParameter, symbol ">"]

/-! ## Functions -/

/-- The type of a result. -/
def resultType (plus : Bool) : Reading (Option TypeShape × Tokens) := do
  if !(← get).startsWith "->" then return (none, [])
  let arrow ← symbol "->"
  let (shape, tokens) ← g.type plus
  return (some shape, arrow ++ tokens)

def resultTokens (plus : Bool) : Reading Tokens := do
  let (_, tokens) ← g.resultType plus
  return tokens

/-- The name of a calling convention. -/
def convention : Reading Tokens :=
  given (·.isWord "extern") do
    let mark ← word "extern"
    knownLiteral
    match (← get).rest with
    | .literal text :: _ => if isString text then return mark ++ (← literal) else return mark
    | _ => return mark

/-- A parameter of a function type, and whether it is a mutable receiver. -/
def functionParameter : Reading (Bool × Tokens) := do
  let start ← attributes
  let c ← get
  if (c.isName || c.isWord "_" || c.isWord "self") && c.next.isColon then
    return (false, start ++ (← inTurn [do return [.ident (← anyWord)], symbol ":", rest]))
  else if c.isWord "mut" && c.next.isWord "self" && c.next.next.isColon then
    return (true, ← inTurn [word "mut", word "self", symbol ":", g.typeTokens true])
  else if c.isWord "mut" && c.next.isWord "self" then
    return (true, ← inTurn [word "mut", word "self"])
  else return (false, start ++ (← rest))
where
  rest : Reading Tokens := do
    if (← get).startsWith "..." then symbol "..." else g.typeTokens true

/-- The parameters of a function type, and whether one of them is a mutable receiver. Three dots end
them; what comes after these is stray. -/
def functionParameters : Reading (Bool × Tokens) := do
  let (_, receiver, tokens) ← iterate next (false, false, [])
  return (receiver, tokens)
where
  /-- One more parameter, after those that have been read; the first flag says that there are none. -/
  next : Bool × Bool × Tokens → Reading (Option (Bool × Bool × Tokens))
    | (complete, receiver, tokens) => do
      if complete || (← get).atEnd then return none
      let start ← attributes
      if (← get).startsWith "..." then
        return some (true, receiver, tokens ++ start ++ (← symbol "..."))
      let (mutable, parameter) ← g.functionParameter
      let comma ← given (!·.atEnd) (symbol ",")
      return some (false, receiver || mutable, tokens ++ start ++ parameter ++ comma)

/-- A function type. There is no result if it has to be kept as written. -/
def functionType : Reading (Option Tokens) := do
  let start ← inTurn [word? "unsafe", convention, word "fn"]
  enter .round
  let (receiver, parameters) ← g.functionParameters
  leave
  let result ← g.resultTokens false
  return if receiver then none else some (start ++ Token.bracketed .round parameters ++ result)

/-! ## Bounds -/

/-- The parameters of a function, written after the name of a trait. -/
def functionArguments : Reading (Option TypeShape × Tokens) := do
  let _ ← symbol? "::"
  let parameters ← within .round (list (g.typeTokens true))
  let (shape, result) ← g.resultType false
  return (shape, parameters ++ result)

/-- Whether the parameters of a function follow. -/
def functionFollows (c : Cursor) : Bool :=
  c.opens .round || (c.startsWith "::" && c.next.next.opens .round)

/-- A trait. -/
def traitBound : Reading Tokens := do
  let start ← inTurn
    [given (fun c => c.startsWith "~" && c.next.isWord "const") (inTurn [symbol "~", word "const"]),
     symbol? "?", given (·.isWord "for") labelBinder]
  let p ← g.path .type
  if p.bare && functionFollows (← get) then
    let (_, rest) ← g.functionArguments
    return start ++ p.tokens ++ rest
  else return start ++ p.tokens

/-- A bound, and whether it is a trait. -/
def anyBound : Reading (Bool × Tokens) := do
  let c ← get
  if c.isLabel then return (false, ← label)
  else if c.opens .round then return (true, ← within .round g.traitBound)
  else return (true, ← g.traitBound)

/-- Whether a bound may follow a plus sign. -/
def boundFollows (c : Cursor) : Bool :=
  c.isAnyWord || c.startsWith "::" || c.startsWith "?" || c.isLabel || c.opens .round ||
    c.startsWith "~"

/-- More bounds, each after a plus sign. The last one may be missing. -/
def moreBounds : Reading Tokens :=
  given (·.startsWith "+") (inTurn [symbol "+", sum (!boundFollows ·) g.boundTokens "+"])

/-- A sum of bounds after the word that announces it. One of them must be a trait; `left` is the
number of tokens left before that word. -/
def someBounds (plus : Bool) (fault : Fault) (left : Nat) : Reading Tokens := do
  let first ← part
  let c ← get
  let (joint, rest) ←
    if plus && c.startsWith "+" then do
      let joint ← symbol "+"
      pure (joint, ← joined (!boundFollows ·) part "+")
    else pure ([], [])
  let bounds := (first, joint) :: rest
  if bounds.any (·.1.1) then return bounds.flatMap fun ((_, tokens, _), joint) => tokens ++ joint
  else
    let stop := (bounds.getLast?.map fun ((_, _, left), _) => left).getD 0
    fail fun _ => ⟨fault, left, left - stop⟩
where
  part : Reading (Bool × Tokens × Nat) := do
    let (isTrait, tokens) ← g.bound
    return (isTrait, tokens, (← get).rest.length)

/-! ## Types -/

/-- What a type may begin with. -/
def typeStarts : List String :=
  ["`for`", "parentheses", "`fn`", "`unsafe`", "`extern`", "identifier", "`::`", "`<`",
   "square brackets", "`*`", "`&`", "`!`", "`impl`", "`_`", "lifetime"]

/-- What a type may go on with after labels. -/
def boundTypeStarts : List String :=
  ["identifier", "`fn`", "`unsafe`", "`extern`", "`super`", "`self`", "`Self`", "`crate`"]

/-- Whether a function type begins here. -/
def isFunctionType (c : Cursor) : Bool := c.isWord "fn" || c.isWord "unsafe" || c.isWord "extern"

/-- The parameters and results of functions after a qualified name. -/
def withFunctions (p : Path) : Reading Path :=
  iterate (fun (p : Path) => do
    if !(p.bare && functionFollows (← get)) then return none
    let (shape, tokens) ← g.functionArguments
    let p := { p with tokens := p.tokens ++ tokens, single := false, arguments := true, bare := false }
    if shape = none || shape = some .paren then
      return some (extended p (← g.moreSegments .type segmentFollows))
    else return some p) p

/-- A type that begins with a qualified name; `labels` are those declared before it. -/
def namedType (plus : Bool) (labels : Tokens) : Reading (TypeShape × Tokens) := do
  let p ← g.anyPath .type
  let p ← g.withFunctions p
  let c ← get
  if p.ofType then return (.other, p.tokens)
  else if invocationFollows p c then
    return (.other, p.tokens ++ (← inTurn [symbol "!", invoked]))
  else if !labels.isEmpty || (plus && c.startsWith "+") then
    let more ← if plus then g.moreBounds else nothing
    return (if more.isEmpty then .bound else .other, labels ++ p.tokens ++ more)
  else return (if p.single && p.arguments then .applied else .path, p.tokens)

/-- A type after `dyn`. There is no result if it has to be kept as written. -/
def objectType (plus : Bool) : Reading (Option Tokens) := do
  let left := (← get).rest.length
  let mark ← word "dyn"
  let star ← symbol? "*"
  let bounds ← g.someBounds plus .noObjectTrait left
  return if star.isEmpty then some (mark ++ bounds) else none

/-- A type in round brackets, a tuple, or a sum of bounds that begins with one in brackets. -/
def roundType (plus : Bool) : Reading (TypeShape × Tokens) := do
  enter .round
  let c ← get
  if c.atEnd then
    leave
    return (.other, Token.bracketed .round [])
  else if c.isLabel then
    let bounds ← g.someBounds true .noObjectTrait c.rest.length
    leave
    return (.paren, Token.bracketed .round bounds)
  else if c.startsWith "?" then
    let first ← g.traitBound
    leave
    let more ← sumAfter
    return (if more.isEmpty then .bound else .other, Token.bracketed .round first ++ more)
  let (shape, first) ← g.type true
  if (← get).startsWith "," then
    let rest ← inTurn [symbol ",", list (g.typeTokens true)]
    leave
    return (.other, Token.bracketed .round (first ++ rest))
  leave
  let summable := shape = .path || shape = .applied || shape = .bound
  if plus && summable && (← get).startsWith "+" then
    return (.other, Token.bracketed .round first ++ (← sumAfter))
  else return (.paren, Token.bracketed .round first)
where
  sumAfter : Reading Tokens :=
    manyGiven (·.startsWith "+") (inTurn [symbol "+", g.boundTokens])

/-- A list of a type, possibly with its length. -/
def squareType : Reading Tokens :=
  within .square (inTurn
    [g.typeTokens true, given (·.startsWith ";") (inTurn [symbol ";", g.value])])

/-- A pointer. -/
def pointerType : Reading Tokens := do
  let star ← symbol "*"
  let c ← get
  if c.isWord "const" || c.isWord "mut" then
    return star ++ [.ident (← anyWord)] ++ (← g.typeTokens false)
  else wantedOneOf ["`const`", "`mut`"]

/-- A type. There is no result if it has to be kept as written. -/
def freeType (plus : Bool) : Reading (Option (TypeShape × Tokens)) := do
  let c ← get
  if c.isWord "for" then
    let labels ← labelBinder
    let c ← get
    if isFunctionType c then
      return (← g.functionType).map fun tokens => (.other, labels ++ tokens)
    else if c.isWord "dyn" then fail (·.complainWhole .unexpected)
    else if c.isSegment then return some (← g.namedType plus labels)
    else wantedOneOf boundTypeStarts
  else if c.opens .round then return some (← g.roundType plus)
  else if isFunctionType c then return (← g.functionType).map fun tokens => (.other, tokens)
  else if c.isWord "dyn" then return (← g.objectType plus).map fun tokens => (.other, tokens)
  else if c.isSegment || c.startsWith "::" || c.startsWith "<" then
    return some (← g.namedType plus [])
  else if c.opens .square then return some (.other, ← g.squareType)
  else if c.startsWith "*" then return some (.other, ← g.pointerType)
  else if c.startsWith "&" then
    return some (.other, ← inTurn
      [symbol "&", given (·.isLabel) label, word? "mut", g.typeTokens false])
  else if c.startsWith "!" then return some (.other, ← symbol "!")
  else if c.isWord "impl" then
    return some (.other, ← inTurn [word "impl", g.someBounds plus .noTrait c.rest.length])
  else if c.isWord "_" then return some (.other, ← word "_")
  else if c.isLabel then
    return some (.other, ← g.someBounds true .noObjectTrait c.rest.length)
  else wantedOneOf typeStarts

/-- A type. -/
def anyType (plus : Bool) : Reading (TypeShape × Tokens) := do
  let (found, written) ← withSource (g.freeType plus)
  return found.getD (.other, written)

end ReaderGen.Grammar
