import ReaderGen.Token.Cursor

/-!
# Reading tokens

A reading goes from a place in the tokens to a result and the place after it, or stops with a
complaint. Most readings yield the tokens they have read, in the form in which messages quote them;
`Reading.inTurn` strings such readings together, and `Reading.separated`, `Reading.joined` and
`Reading.many` repeat them. The repetitions are bounded by the number of tokens left, which each round
makes smaller.
-/

namespace ReaderGen

/-- Tokens in the form in which messages quote them. -/
abbrev Tokens := List Token

/-- Reads a part of the tokens. -/
abbrev Reading (α : Type) := StateT Cursor (Except Complaint) α

namespace Reading

variable {α : Type}

/-! ## Complaints -/

def fail (complaint : Cursor → Complaint) : Reading α := fun c => .error (complaint c)

/-- Something else should stand here. -/
def wanted (what : String) : Reading α := fail (·.wanted what)

/-- A choice between several things, as a message names it. -/
def choice : List String → String
  | [a] => a
  | [a, b] => a ++ " or " ++ b
  | as => "one of: " ++ ", ".intercalate as

/-- One of several things should stand here. -/
def wantedOneOf (whats : List String) : Reading α := wanted (choice whats)

/-- A word or symbol as messages quote it. -/
def inTicks (text : String) : String := "`" ++ text ++ "`"

/-! ## Single tokens -/

/-- Passes over this many tokens. -/
def pass (n : Nat) : Reading Unit := modify (·.drop n)

/-- An operator or separator. -/
def symbol (s : String) : Reading Tokens := fun c =>
  if c.startsWith s then .ok (Token.symbol s, c.dropSymbol s)
  else .error (c.complain (.expected (inTicks s)))

/-- This word. -/
def word (w : String) : Reading Tokens := fun c =>
  if c.isWord w then .ok ([.ident w], c.drop 1) else .error (c.wanted (inTicks w))

/-- Any word. -/
def anyWord : Reading String := fun c =>
  match c.rest with
  | .ident w :: rest => .ok (w, { c with rest })
  | _ => .error (c.wanted "ident")

/-- A name. -/
def name : Reading Tokens := fun c =>
  match c.rest with
  | .ident w :: rest =>
    if Word.isName w then .ok ([.ident w], { c with rest }) else .error (c.wanted "identifier")
  | _ => .error (c.wanted "identifier")

/-- A name with a quote before it. -/
def label : Reading Tokens := fun c =>
  match c.rest with
  | .punct '\'' _ :: .ident w :: rest => .ok ([.punct '\'' true, .ident w], { c with rest })
  | _ => .error (c.wanted "lifetime")

/-- All tokens up to the end of the enclosing bracket, as they stand. -/
def remainder : Reading Tokens := fun c =>
  let inner := (Cursor.splitClosing 0 c.rest).1
  .ok (inner, c.drop inner.length)

/-! ## Sequences and options -/

/-- Nothing. -/
def nothing : Reading Tokens := pure []

/-- One reading after the other. -/
def inTurn : List (Reading Tokens) → Reading Tokens
  | [] => nothing
  | r :: rs => do
    let first ← r
    let rest ← inTurn rs
    return first ++ rest

/-- A part that is read only where a test holds. -/
def given (test : Cursor → Bool) (r : Reading Tokens) : Reading Tokens := do
  if test (← get) then r else nothing

/-- A symbol that may be missing. -/
def symbol? (s : String) : Reading Tokens := given (·.startsWith s) (symbol s)

/-- A word that may be missing. -/
def word? (w : String) : Reading Tokens := given (·.isWord w) (word w)

/-- What a message calls a missing bracket. -/
def bracketName : Bracket → String
  | .round => "parentheses"
  | .square => "square brackets"
  | .curly => "curly braces"

/-- Enters a bracket. -/
def enter (b : Bracket) : Reading Unit := fun c =>
  if c.opens b then .ok ((), c.drop 1) else .error (c.wanted (bracketName b))

/-- Leaves a bracket. -/
def leave : Reading Unit := modify Cursor.leave

/-- What stands in a bracket. -/
def within (b : Bracket) (inner : Reading Tokens) : Reading Tokens := do
  enter b
  let tokens ← inner
  leave
  return Token.bracketed b tokens

/-- A reading, with the tokens it has taken as they stand. -/
def withSource (r : Reading α) : Reading (α × Tokens) := fun c =>
  match r c with
  | .ok (a, c') => .ok ((a, c.rest.take (c.rest.length - c'.rest.length)), c')
  | .error complaint => .error complaint

/-- The tokens that a reading takes, as they stand. -/
def source (r : Reading α) : Reading Tokens := do
  let (_, tokens) ← withSource r
  return tokens

/-! ## Repetitions -/

/-- Reads as long as there is something to read, at most `n` times. -/
def manyFrom (step : Reading (Option α)) : Nat → Reading (List α)
  | 0 => fail (·.complain .exhausted)
  | n + 1 => do
    match ← step with
    | none => return []
    | some a =>
      let rest ← manyFrom step n
      return a :: rest

/-- Reads as long as there is something to read. -/
def many (step : Reading (Option α)) : Reading (List α) := fun c =>
  manyFrom step (c.rest.length + 1) c

/-- Reads as long as a test holds. -/
def manyGiven (test : Cursor → Bool) (r : Reading Tokens) : Reading Tokens := do
  let parts ← many do
    if test (← get) then return some (← r) else return none
  return parts.flatten

/-- Goes on from a value as long as there is something to read, at most `n` times. -/
def iterateFrom (step : α → Reading (Option α)) : Nat → α → Reading α
  | 0, _ => fail (·.complain .exhausted)
  | n + 1, a => do
    match ← step a with
    | none => return a
    | some a => iterateFrom step n a

/-- Goes on from a value as long as there is something to read. -/
def iterate (step : α → Reading (Option α)) (a : α) : Reading α := fun c =>
  iterateFrom step (c.rest.length + 1) a c

/-- Parts up to where a test holds, each but possibly the last with a separator after it. -/
def separatedFrom (stop : Cursor → Bool) (part : Reading α) (separator : String) :
    Nat → Reading (List (α × Tokens))
  | 0 => fail (·.complain .exhausted)
  | n + 1 => do
    if stop (← get) then return []
    let a ← part
    if stop (← get) then return [(a, [])]
    let s ← symbol separator
    let rest ← separatedFrom stop part separator n
    return (a, s) :: rest

/-- Parts up to where a test holds; a separator must stand between two of them. -/
def separated (stop : Cursor → Bool) (part : Reading α) (separator : String) :
    Reading (List (α × Tokens)) := fun c =>
  separatedFrom stop part separator (c.rest.length + 1) c

/-- Parts joined by a symbol, as long as it follows, or up to where a test holds. -/
def joinedFrom (stop : Cursor → Bool) (part : Reading α) (joint : String) :
    Nat → Reading (List (α × Tokens))
  | 0 => fail (·.complain .exhausted)
  | n + 1 => do
    if stop (← get) then return []
    let a ← part
    if !(← get).startsWith joint then return [(a, [])]
    let s ← symbol joint
    let rest ← joinedFrom stop part joint n
    return (a, s) :: rest

/-- Parts joined by a symbol; the last one may be missing where a test holds. -/
def joined (stop : Cursor → Bool) (part : Reading α) (joint : String) :
    Reading (List (α × Tokens)) := fun c =>
  joinedFrom stop part joint (c.rest.length + 1) c

/-- The tokens of parts and what stands between them. -/
def flat (parts : List (Tokens × Tokens)) : Tokens := parts.flatMap fun (a, s) => a ++ s

/-- Parts separated by commas, up to where a test holds. -/
def listUntil (stop : Cursor → Bool) (part : Reading Tokens) : Reading Tokens := do
  return flat (← separated stop part ",")

/-- Parts separated by commas, up to the end of the enclosing bracket. -/
def list (part : Reading Tokens) : Reading Tokens := listUntil (·.atEnd) part

/-- Parts joined by a symbol, as tokens. -/
def sum (stop : Cursor → Bool) (part : Reading Tokens) (joint : String) : Reading Tokens := do
  return flat (← joined stop part joint)

end Reading

end ReaderGen
