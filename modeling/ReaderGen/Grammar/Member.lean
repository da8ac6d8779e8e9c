import ReaderGen.Grammar

/-!
# Members

After a point stands the name of a member or its number. A number is quoted by its value, whatever
way it is written. Where a text has `a.0.1`, the scanner sees the number `0.1`; it is split again into
the numbers of two members.
-/

namespace ReaderGen.Grammar

open Reading

/-- The number of a member as it is written. -/
def indexOf (text : String) : Except Fault Nat :=
  let (signed, digits) :=
    match text.toList with
    | '-' :: cs => (true, cs)
    | cs => (false, cs)
  match Literal.floatAt digits, Literal.intAt digits with
  | none, some (value, _) =>
    if !Literal.isUnsuffixed digits then .error (.expected "unsuffixed integer")
    else if signed then .error .signedIndex
    else if value < 0x100000000 then .ok value
    else .error .largeIndex
  | _, _ => .error (.expected "integer literal")

/-- The integer that stands here, possibly with its sign, and how many tokens it takes. -/
def integerAt (c : Cursor) : Option (String × Nat) :=
  match c.rest with
  | .int _ text :: _ => some (text, 1)
  | .punct '-' _ :: .int _ text :: _ => some ("-" ++ text, 2)
  | _ => none

/-- The number with a point or an exponent that stands here, possibly with its sign, and how many
tokens it takes. -/
def fractionAt (c : Cursor) : Option (String × Nat) :=
  match literalAt c with
  | some (.literal text, n) =>
    match c.rest with
    | .literal _ :: _ => if isNumber text then some (text, n) else none
    | .punct _ _ :: .literal _ :: _ => some (text, n)
    | _ => none
  | _ => none

/-- The name or the number of a member, and whether it is a name. -/
def member : Reading (Bool × Tokens) := do
  knownLiteral
  let c ← get
  if c.isName then return (true, ← name)
  match integerAt c with
  | none => wanted "identifier or integer"
  | some (text, n) =>
    match indexOf text with
    | .error fault => fail fun c => ⟨fault, c.rest.length, n⟩
    | .ok value =>
      pass n
      return (false, [.int value (toString value)])

/-- The numbers of members, from the outermost, that a number with points stands for, and whether a
last point awaits another member. -/
def splitNumber (text : String) : Except Fault (List Nat × Bool) := do
  let parts := text.splitOn "."
  let open' := parts.getLast? = some ""
  let values ← (if open' then parts.dropLast else parts).mapM indexOf
  return (values, open')

/-- The tokens of nested members. -/
def memberParts : List Nat → Tokens
  | [] => []
  | [value] => [.part value]
  | value :: rest => .part value :: Token.symbol "." ++ memberParts rest

end ReaderGen.Grammar
