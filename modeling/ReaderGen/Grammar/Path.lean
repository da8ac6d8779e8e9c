import ReaderGen.Grammar

/-!
# Qualified names

A qualified name is made of segments between double colons. A segment may have arguments in angle
brackets; where a comparison could be meant, a double colon has to come before them. A name may begin
with a type in angle brackets, of which it names a part.
-/

namespace ReaderGen

/-- Where a qualified name stands. -/
inductive PathStyle
  /-- Among expressions, where an angle bracket may be a comparison. -/
  | expression
  /-- Among types. -/
  | type
deriving DecidableEq, Repr

/-- A qualified name. -/
structure Path where
  tokens : Tokens
  /-- Whether it is part of a type in angle brackets. -/
  ofType : Bool := false
  /-- Whether it has one segment and nothing before it. -/
  single : Bool
  /-- Whether a segment has arguments. -/
  arguments : Bool
  /-- Whether the last segment may still take arguments. -/
  bare : Bool
deriving Repr

namespace Grammar

open Reading

variable (g : Grammar)

/-! ## Arguments -/

/-- Arguments, a comma put where the one before has none after it. -/
def commas (bare : Bool) : List (Tokens × Tokens) → Tokens
  | [] => []
  | (argument, comma) :: rest =>
    (if bare then Token.symbol "," else []) ++ argument ++ comma ++ commas comma.isEmpty rest

/-- Arguments with the commas between them, the labels among them first. -/
def arranged (arguments : List ((Bool × Tokens) × Tokens)) : Tokens :=
  let (labels, others) := arguments.partition (·.1.1)
  commas false ((labels ++ others).map fun ((_, argument), comma) => (argument, comma))

/-- Bounds of an argument. -/
def argumentBounds : Reading Tokens :=
  sum (fun c => c.startsWith "," || c.startsWith ">") g.boundTokens "+"

/-- A value that is an argument: a literal or a block. -/
def constant : Reading Tokens := do
  if isLiteral (← get) then literal else g.body

/-- The value that an argument with a name is bound to. -/
def bound? : Reading Tokens := do
  knownLiteral
  let c ← get
  if isLiteral c || c.opens .curly then source g.constant else g.typeTokens true

/-- A type that is an argument, or a constraint on a name that has arguments itself. -/
def typeArgument : Reading Tokens := do
  let (tokens, written) ← withSource do
    let (shape, tokens) ← g.type true
    let c ← get
    if shape = .applied && c.startsWith "=" then
      let _ ← inTurn [symbol "=", g.typeTokens true]
      return none
    else if shape = .applied && c.startsWith ":" then
      let _ ← inTurn [symbol ":", g.argumentBounds]
      return none
    else return some tokens
  return tokens.getD written

/-- An argument in angle brackets, and whether it is a label. -/
def argument : Reading (Bool × Tokens) := do
  let c ← get
  if c.isLabel && !c.next.startsWith "+" then return (true, ← label)
  if c.isName && c.next.startsWith "=" then
    return (false, ← inTurn [name, symbol "=", g.bound?])
  if c.isName && c.next.isColon then
    return (false, ← inTurn [name, symbol ":", g.argumentBounds])
  knownLiteral
  if isLiteral c || c.opens .curly then return (false, ← g.constant)
  return (false, ← g.typeArgument)

/-- Arguments in angle brackets. -/
def arguments : Reading Tokens := do
  let start ← inTurn [symbol? "::", symbol "<"]
  let parts ← separated (·.startsWith ">") g.argument ","
  let stop ← symbol ">"
  return start ++ arranged parts ++ stop

/-- Arguments of a method. -/
def methodArguments : Reading Tokens :=
  inTurn [symbol "::", symbol "<", listUntil (·.startsWith ">") part, symbol ">"]
where
  part : Reading Tokens := do
    knownLiteral
    let c ← get
    if isLiteral c || c.opens .curly then g.constant else g.typeTokens true

/-! ## Segments -/

/-- Words that stand for a place by themselves and take no arguments. -/
def bareSegments : List String := ["super", "self", "crate", "try"]

/-- Whether arguments in angle brackets follow. -/
def argumentsFollow (style : PathStyle) (c : Cursor) : Bool :=
  (style = .type && c.startsWith "<" && !c.startsWith "<=") ||
    (c.startsWith "::" && c.next.next.startsWith "<")

/-- A segment, and whether it has arguments. -/
def segment (style : PathStyle) : Reading (Tokens × Bool) := do
  let c ← get
  if bareSegments.any c.isWord then return ([.ident (← anyWord)], false)
  let first ← if c.isWord "Self" then word "Self" else name
  if argumentsFollow style (← get) then
    let rest ← g.arguments
    return (first ++ rest, true)
  else return (first, false)

/-- Segments after a double colon, as long as `test` holds. -/
def moreSegments (style : PathStyle) (test : Cursor → Bool) : Reading (List (Tokens × Bool)) :=
  many do
    if !test (← get) then return none
    let colons ← symbol "::"
    let (tokens, arguments) ← g.segment style
    return some (colons ++ tokens, arguments)

/-- Whether another segment follows, and not the parameters of a function type. -/
def segmentFollows (c : Cursor) : Bool := c.startsWith "::" && !c.next.next.opens .round

/-- A path with more segments. -/
def extended (p : Path) (more : List (Tokens × Bool)) : Path :=
  { p with
    tokens := p.tokens ++ more.flatMap (·.1)
    single := p.single && more.isEmpty
    arguments := p.arguments || more.any (·.2)
    bare := match more.getLast? with
      | none => p.bare
      | some (_, arguments) => !arguments }

/-- A qualified name that begins with a segment. -/
def path (style : PathStyle) : Reading Path := do
  let start ← symbol? "::"
  let (first, arguments) ← g.segment style
  let more ← g.moreSegments style segmentFollows
  return extended ⟨start ++ first, false, start.isEmpty, arguments, !arguments⟩ more

def pathTokens (style : PathStyle) : Reading Tokens := do
  let p ← g.path style
  return p.tokens

/-- A qualified name that may begin with a type in angle brackets. -/
def anyPath (style : PathStyle) : Reading Path := do
  if !(← get).startsWith "<" then g.path style
  else
    let start ← inTurn [symbol "<", g.typeTokens true,
      given (·.isWord "as") (inTurn [word "as", g.pathTokens .type]), symbol ">", symbol "::"]
    let (first, arguments) ← g.segment style
    let more ← g.moreSegments style (·.startsWith "::")
    return extended ⟨start ++ first, true, false, arguments, !arguments⟩ more

/-- Whether an invocation follows a qualified name. -/
def invocationFollows (p : Path) (c : Cursor) : Bool := !p.ofType && c.isBang && !p.arguments

end Grammar

end ReaderGen
