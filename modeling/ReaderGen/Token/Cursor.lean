import ReaderGen.Token
import ReaderGen.Token.Word

/-!
# Places in a list of tokens

A cursor holds the tokens still to be read. The end of the input that a reader sees is the end of
the enclosing bracket, or of the whole text: `Cursor.atEnd`.

A place in the input is given by the number of tokens left there, so a complaint says nothing about
lines and columns, and reading depends on the tokens alone.
-/

namespace ReaderGen

/-- What can be wrong with a text. -/
inductive Fault
  /-- The text cannot be split into tokens. -/
  | unreadable
  /-- Nothing may stand here. -/
  | unexpected
  /-- Something else should stand here. -/
  | expected (what : String)
  /-- The input ends here, too early. -/
  | ended (what : String)
  /-- The input ends here, and what could go on cannot be said. -/
  | endedOpen
  /-- A conversion is followed by something that must not follow it. -/
  | afterCast (what : String)
  /-- The number of a member has a sign. -/
  | signedIndex
  /-- The number of a member is too large. -/
  | largeIndex
  /-- A sum of bounds has no trait, in a type that stands for any value with these bounds. -/
  | noObjectTrait
  /-- A sum of bounds has no trait, in a type that stands for some type with these bounds. -/
  | noTrait
  /-- A receiver is not the first parameter of a function. -/
  | lateReceiver
  /-- A function has two receivers. -/
  | secondReceiver
  /-- A literal whose kind is not known; nothing can be said about it. -/
  | unknownLiteral
  /-- The reader was given too few steps. -/
  | exhausted
deriving DecidableEq, Repr

def Fault.message : Fault → String
  | unreadable => "lex error"
  | unexpected => "unexpected token"
  | expected what => "expected " ++ what
  | ended what => "unexpected end of input, expected " ++ what
  | endedOpen => "unexpected end of input"
  | afterCast what => "casts cannot be followed by " ++ what
  | signedIndex => "invalid digit found in string"
  | largeIndex => "number too large to fit in target type"
  | noObjectTrait => "at least one trait is required for an object type"
  | noTrait => "at least one trait must be specified"
  | lateReceiver => "unexpected method receiver"
  | secondReceiver => "unexpected second method receiver"
  | unknownLiteral => "unknown literal"
  | exhausted => "too many steps"

/-- A fault, the number of tokens left where it was found, and the number of tokens it is about. -/
structure Complaint where
  fault : Fault
  left : Nat
  size : Nat := 1
deriving DecidableEq, Repr

/-- The tokens still to be read, and a complaint about the first stray tokens so far: tokens left over
in a bracket. They count only if nothing else is wrong. -/
structure Cursor where
  rest : List Token
  stray : Option Complaint := none
deriving DecidableEq, Repr

namespace Cursor

/-- Whether the enclosing bracket, or the text, ends here. -/
def atEnd (c : Cursor) : Bool :=
  match c.rest with
  | [] => true
  | t :: _ => t.isClosing

def drop (n : Nat) (c : Cursor) : Cursor := { c with rest := c.rest.drop n }

/-! ## Brackets -/

/-- Splits tokens after the bracket that closes the `depth + 1` open ones: what comes before it, and
what follows it. -/
def splitClosing (depth : Nat) : List Token → List Token × List Token
  | [] => ([], [])
  | t :: ts =>
    match t with
    | .opening _ =>
      let (inner, rest) := splitClosing (depth + 1) ts
      (t :: inner, rest)
    | .closing _ =>
      match depth with
      | 0 => ([], ts)
      | depth + 1 =>
        let (inner, rest) := splitClosing depth ts
        (t :: inner, rest)
    | _ =>
      let (inner, rest) := splitClosing depth ts
      (t :: inner, rest)

/-- How many tokens the first tree takes: a bracket with all it holds, or one token. -/
def treeSize : List Token → Nat
  | .opening _ :: ts => (splitClosing 0 ts).1.length + 2
  | _ => 1

/-- Whether this bracket opens here. -/
def opens (b : Bracket) (c : Cursor) : Bool :=
  match c.rest with
  | .opening b' :: _ => b = b'
  | _ => false

/-! ## Complaints -/

/-- A complaint about this place, whatever stands here. -/
def complain (fault : Fault) (c : Cursor) : Complaint := ⟨fault, c.rest.length, 1⟩

/-- A complaint that something else should stand here. -/
def wanted (what : String) (c : Cursor) : Complaint :=
  c.complain (if c.atEnd then .ended what else .expected what)

/-- A complaint about all that the bracket here holds, or about the token here. -/
def complainWhole (fault : Fault) (c : Cursor) : Complaint :=
  ⟨fault, c.rest.length, treeSize c.rest⟩

/-- Leaves the enclosing bracket. Tokens before its end are stray; the first ones are remembered. -/
def leave (c : Cursor) : Cursor :=
  if c.atEnd then c.drop 1
  else ⟨(splitClosing 0 c.rest).2, c.stray <|> some (c.complainWhole .unexpected)⟩

/-! ## What stands here -/

/-- The characters of the run of punctuation that a list of tokens begins with. -/
def runOf : List Token → List Char
  | .punct c true :: ts => c :: runOf ts
  | .punct c false :: _ => [c]
  | _ => []

/-- Whether an operator or separator stands here, possibly at the beginning of a longer run. -/
def startsWith (symbol : String) (c : Cursor) : Bool := symbol.toList.isPrefixOf (runOf c.rest)

/-- Passes over an operator or separator. -/
def dropSymbol (symbol : String) (c : Cursor) : Cursor := c.drop symbol.length

/-- Whether this word stands here. -/
def isWord (word : String) (c : Cursor) : Bool :=
  match c.rest with
  | .ident name :: _ => name = word
  | _ => false

/-- Whether any word stands here. -/
def isAnyWord (c : Cursor) : Bool :=
  match c.rest with
  | .ident _ :: _ => true
  | _ => false

/-- Whether a name stands here. -/
def isName (c : Cursor) : Bool :=
  match c.rest with
  | .ident word :: _ => Word.isName word
  | _ => false

/-- Whether a word that may stand in a qualified name stands here. -/
def isSegment (c : Cursor) : Bool :=
  match c.rest with
  | .ident word :: _ => Word.isSegment word
  | _ => false

/-- Whether a name with a quote before it stands here. -/
def isLabel (c : Cursor) : Bool :=
  match c.rest with
  | .punct '\'' _ :: .ident _ :: _ => true
  | _ => false

/-- A colon that does not begin a double one. -/
def isColon (c : Cursor) : Bool := c.startsWith ":" && !c.startsWith "::"

/-- A point that does not begin a range. -/
def isPoint (c : Cursor) : Bool := c.startsWith "." && !c.startsWith ".."

/-- An exclamation mark that is not part of an inequality. -/
def isBang (c : Cursor) : Bool := c.startsWith "!" && !c.startsWith "!="

/-- The place after the tree that stands here. A quote belongs to the name after it, and nothing
comes after the end of the enclosing bracket. -/
def next (c : Cursor) : Cursor :=
  if c.atEnd then c else if c.isLabel then c.drop 2 else c.drop (treeSize c.rest)

end Cursor

end ReaderGen
