import ReaderGen.Grammar.Pattern
import ReaderGen.Grammar.Type

/-!
# Parameters of declarations

What declarations of all kinds have in common: who may see them, the types and constants they depend
on, the conditions on these, and the parameters of functions. Empty lists of them are not quoted.
-/

namespace ReaderGen.Grammar

open Reading

variable (g : Grammar)

/-! ## Visibility -/

/-- Where a declaration can be seen from, in round brackets, if that is what the brackets hold. -/
def restriction : Reading Tokens := fun c =>
  match c.rest with
  | .opening .round :: .ident w :: .closing .round :: rest =>
    if ["crate", "self", "super"].contains w then
      .ok (Token.bracketed .round [.ident w], { c with rest })
    else .ok ([], c)
  | .opening .round :: .ident "in" :: _ => within .round (inTurn [word "in", plainPath]) c
  | _ => .ok ([], c)

/-- Who may see a declaration. -/
def visibility : Reading Tokens := do
  let c ← get
  if c.isWord "pub" then inTurn [word "pub", restriction]
  else if c.isWord "crate" && !c.next.startsWith "::" then word "crate"
  else nothing

/-! ## Types and constants -/

/-- A parameter that is a type. A colon without bounds after it is not quoted. -/
def typeParameter : Reading Tokens := do
  let start ← name
  let colon ← symbol? ":"
  let bounds ← if colon.isEmpty then nothing else
    sum (fun c => c.startsWith "," || c.startsWith ">" || c.startsWith "=") g.boundTokens "+"
  let standard ← given (·.startsWith "=") (inTurn [symbol "=", g.typeTokens true])
  return start ++ (if bounds.isEmpty then [] else colon ++ bounds) ++ standard

/-- What a parameter is unless it is given: a literal, a name or a block. -/
def standardConstant : Reading Tokens := do
  knownLiteral
  let c ← get
  if isLiteral c then literal
  else if c.isName then name
  else if c.opens .curly then g.body
  else fail fun c => if c.atEnd then c.complain .endedOpen else c.complainWhole .unexpected

/-- A parameter that is a constant. -/
def constantParameter : Reading Tokens :=
  inTurn [word "const", name, symbol ":", g.typeTokens true,
    given (·.startsWith "=") (inTurn [symbol "=", g.standardConstant])]

/-- A parameter of a declaration, and whether it is a label. -/
def genericParameter : Reading (Bool × Tokens) := do
  let start ← attributes
  let c ← get
  if c.isLabel then return (true, start ++ (← labelParameter))
  else if c.isName then return (false, start ++ (← g.typeParameter))
  else if c.isWord "const" then return (false, start ++ (← g.constantParameter))
  else if c.isWord "_" then return (false, start ++ (← word "_"))
  else wantedOneOf ["lifetime", "identifier", "`const`"]

/-- The parameters of a declaration. -/
def generics : Reading Tokens :=
  given (·.startsWith "<") do
    let start ← symbol "<"
    let parts ← separated (·.startsWith ">") g.genericParameter ","
    let stop ← symbol ">"
    return if parts.isEmpty then [] else start ++ arranged parts ++ stop

/-! ## Conditions -/

/-- Whether the conditions end here. -/
def conditionsEnd (c : Cursor) : Bool :=
  c.atEnd || c.opens .curly || c.startsWith "," || c.startsWith ";" || c.isColon ||
    c.startsWith "="

/-- A condition on a parameter. -/
def conditionOn : Reading Tokens := do
  let c ← get
  if c.isLabel && c.next.startsWith ":" then
    inTurn [label, symbol ":", sum (fun c => conditionsEnd c || c.startsWith ":") label "+"]
  else
    inTurn [given (·.isWord "for") labelBinder, g.typeTokens true, symbol ":",
      sum conditionsEnd g.boundTokens "+"]

/-- The conditions on the parameters of a declaration. -/
def conditions : Reading Tokens :=
  given (·.isWord "where") do
    let mark ← word "where"
    let parts ← sum conditionsEnd g.conditionOn ","
    return if parts.isEmpty then [] else mark ++ parts

/-! ## Functions -/

/-- The receiver of a method: the number of its tokens, if it has no type. -/
def receiverAt (c : Cursor) : Option Nat :=
  let c₁ := if c.startsWith "&" then (if (c.drop 1).isLabel then c.drop 3 else c.drop 1) else c
  let c₂ := if c₁.isWord "mut" then c₁.drop 1 else c₁
  if c₂.isWord "self" && !(c₂.drop 1).startsWith ":" then
    some (c.rest.length - c₂.rest.length + 1)
  else none

/-- A parameter of a function with its type. A type by itself stands for a parameter without a
name. -/
def typedParameter : Reading Tokens := do
  let c ← get
  if c.isName && c.next.startsWith "<" then
    return .ident "_" :: Token.symbol ":" ++ (← g.typeTokens true)
  let p ← g.alternatives false
  let colon ← symbol ":"
  let type ← if (← get).startsWith "..." then symbol "..." else g.typeTokens true
  return p.tokens ++ colon ++ type

/-- A receiver, with the number of tokens left at its name, or another parameter. -/
def functionArgument : Reading (Option Nat × Tokens) := do
  let c ← get
  match receiverAt c with
  | some n =>
    pass n
    return (some (c.rest.length - n + 1), (c.rest.take n).flatMap fun
      | .punct ch joint => [.punct ch (joint && ch = '\'')]
      | t => [t])
  | none => return (none, ← g.typedParameter)

/-- The parameters of a function. A receiver comes first, and there is only one. -/
def functionSignature : Reading Tokens := do
  let (_, _, tokens) ← iterate next (false, true, [])
  return tokens
where
  /-- One more parameter, after those that have been read, with or without a receiver. -/
  next : Bool × Bool × Tokens → Reading (Option (Bool × Bool × Tokens))
    | (received, first, tokens) => do
      if (← get).atEnd then return none
      let start ← attributes
      if (← get).startsWith "..." then
        let dots ← symbol "..."
        let comma ← given (!·.atEnd) (symbol ",")
        return some (received, false, tokens ++ start ++ dots ++ comma)
      let (receiver, parameter) ← g.functionArgument
      match receiver with
      | some left =>
        if received then fail fun _ => ⟨.secondReceiver, left, 1⟩
        else if !first then fail fun _ => ⟨.lateReceiver, left, 1⟩
      | none => pure ()
      let comma ← given (!·.atEnd) (symbol ",")
      return some (received || receiver.isSome, false, tokens ++ start ++ parameter ++ comma)

/-- A function less its body. -/
def signature : Reading Tokens :=
  inTurn [word? "const", word? "async", word? "unsafe", convention, word "fn", name, g.generics,
    within .round g.functionSignature, g.resultTokens true, g.conditions]

/-- Whether a function begins here. -/
def beginsFunction (c : Cursor) : Bool :=
  let passed (w : String) (c : Cursor) := if c.isWord w then c.next else c
  let c := passed "unsafe" (passed "async" (passed "const" c))
  if c.isWord "extern" then
    match c.next.rest with
    | .literal text :: _ => if isString text then c.next.next.isWord "fn" else c.next.isWord "fn"
    | _ => c.next.isWord "fn"
  else c.isWord "fn"

end ReaderGen.Grammar
