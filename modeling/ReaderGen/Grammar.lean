import ReaderGen.Expr
import ReaderGen.Token.Literal
import ReaderGen.Token.Reading

/-!
# The grammar of expressions

Expressions may hold types, patterns, statements and declarations, and each of these may hold
expressions again. Little of it has a meaning here; the rest is read so that a refusal comes at the
right place and quotes the whole expression.

A `Grammar` is a reading for each kind of phrase. The rules for one kind of phrase are functions of a
grammar, which reads the phrases within it: they call one another only through the grammar, so each
stands by itself. `Grammar.ofDepth` of `ReaderGen.Expr.Parser` makes a grammar out of the rules.
-/

namespace ReaderGen

/-- What a type may be part of. -/
inductive TypeShape
  /-- A qualified name, which can also be a bound. -/
  | path
  /-- A single name with arguments in angle brackets, which can also be a bound. -/
  | applied
  /-- A bound. -/
  | bound
  /-- A type in round brackets. -/
  | paren
  | other
deriving DecidableEq, Repr

/-- A phrase, and whether it is kept exactly as written. -/
structure Phrase where
  tokens : Tokens
  verbatim : Bool := false
deriving DecidableEq, Repr

/-- A reading for each kind of phrase. -/
structure Grammar where
  /-- An expression. Unless the flag is set, a curly bracket after a name is not part of it. -/
  expression : Bool → Reading Expr
  /-- An operand of an expression, with the operators before it. -/
  operand : Bool → Reading Expr
  /-- An expression at the beginning of a statement, where a block ends it. -/
  early : Reading Expr
  /-- An expression that a pattern is matched with. -/
  matched : Reading Tokens
  /-- A type; with the flag set, a sum of bounds too. -/
  type : Bool → Reading (TypeShape × Tokens)
  /-- A bound, and whether it is a trait. -/
  bound : Reading (Bool × Tokens)
  pattern : Reading Phrase
  /-- The statements of a block. -/
  statements : Reading Tokens
  /-- A condition with its branches. -/
  conditional : Reading Tokens
  /-- A declaration. -/
  item : Reading Phrase
  /-- The names that a declaration brings in. -/
  imports : Reading Tokens

namespace Grammar

open Reading

/-- The grammar that reads nothing. -/
def exhausted : Grammar where
  expression _ := fail (·.complain .exhausted)
  operand _ := fail (·.complain .exhausted)
  early := fail (·.complain .exhausted)
  matched := fail (·.complain .exhausted)
  type _ := fail (·.complain .exhausted)
  bound := fail (·.complain .exhausted)
  pattern := fail (·.complain .exhausted)
  statements := fail (·.complain .exhausted)
  conditional := fail (·.complain .exhausted)
  item := fail (·.complain .exhausted)
  imports := fail (·.complain .exhausted)

/-! ## Attributes -/

/-- A qualified name without arguments. -/
def plainPath : Reading Tokens := do
  let start ← symbol? "::"
  let segments ← joined (!·.isSegment) anyWord "::"
  match segments.getLast? with
  | none => wanted "path"
  | some (_, _ :: _) => wanted "path segment"
  | some (_, []) => return start ++ flat (segments.map fun (w, s) => ([.ident w], s))

/-- What stands in the bracket of an attribute. -/
def attributeBody : Reading Tokens := within .square (inTurn [plainPath, remainder])

/-- The attributes of what follows. -/
def attributes : Reading Tokens :=
  manyGiven (·.startsWith "#") (inTurn [symbol "#", attributeBody])

/-- The attributes of the block around them. -/
def innerAttributes : Reading Tokens :=
  manyGiven (fun c => c.startsWith "#" && c.next.startsWith "!")
    (inTurn [symbol "#", symbol "!", attributeBody])

/-! ## Literals -/

/-- Whether a literal is a number. -/
def isNumber (text : String) : Bool :=
  match text.toList with
  | c :: _ => c.isDigit
  | [] => false

/-- Whether a literal is a string. -/
def isString (text : String) : Bool :=
  match text.toList with
  | '"' :: _ | 'r' :: _ => true
  | _ => false

/-- Whether nothing is known about a kind of literal. -/
def isUnknown (text : String) : Bool :=
  match text.toList with
  | 'c' :: _ => true
  | _ => false

/-- Stops at a literal about which nothing is known. -/
def knownLiteral : Reading Unit := fun c =>
  match c.rest with
  | .literal text :: _ =>
    if isUnknown text then .error (c.complain .unknownLiteral) else .ok ((), c)
  | _ => .ok ((), c)

/-- The literal that stands here, possibly a number with its sign, and how many tokens it takes. -/
def literalAt (c : Cursor) : Option (Token × Nat) :=
  match c.rest with
  | .int value text :: _ => some (.int value text, 1)
  | .literal text :: _ => some (.literal text, 1)
  | .ident "true" :: _ => some (.literal "true", 1)
  | .ident "false" :: _ => some (.literal "false", 1)
  | .punct '-' _ :: .int _ text :: _ => some (.literal ("-" ++ text), 2)
  | .punct '-' _ :: .literal text :: _ =>
    if isNumber text then some (.literal ("-" ++ text), 2) else none
  | _ => none

def isLiteral (c : Cursor) : Bool := (literalAt c).isSome

/-- A literal. -/
def literal : Reading Tokens := fun c =>
  match literalAt c with
  | some (token, n) => .ok ([token], c.drop n)
  | none => .error (c.wanted "literal")

/-! ## Phrases -/

variable (g : Grammar)

/-- A type, as tokens. -/
def typeTokens (plus : Bool) : Reading Tokens := do
  let (_, tokens) ← g.type plus
  return tokens

/-- A bound, as tokens. -/
def boundTokens : Reading Tokens := do
  let (_, tokens) ← g.bound
  return tokens

/-- An expression, as tokens. -/
def value : Reading Tokens := do
  let e ← g.expression true
  return e.tokens

/-- An expression that a block may follow, as tokens. -/
def scrutinee : Reading Tokens := do
  let e ← g.expression false
  return e.tokens

/-- A block. -/
def block : Reading Tokens := within .curly g.statements

/-- A block that may begin with attributes of its own. -/
def body : Reading Tokens := within .curly (inTurn [innerAttributes, g.statements])

/-- What stands after the exclamation mark of an invocation: anything in brackets. -/
def invoked : Reading Tokens := fun c =>
  match c.rest with
  | .opening b :: rest =>
    let (inner, rest) := Cursor.splitClosing 0 rest
    .ok (Token.bracketed b inner, { c with rest })
  | _ => .error (c.wanted "delimiter")

end Grammar

end ReaderGen
