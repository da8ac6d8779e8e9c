/-!
# Tokens

What a text is made of once blanks and comments are gone. Brackets are tokens of their own; the
scanner sees to it that they are balanced. An operator of several characters is a run of
punctuation characters, each but the last marked as joint to the next.

`Token.quote` writes a list of tokens the way messages quote an expression: one space between two
tokens, none inside round and square brackets or within an operator.
-/

namespace ReaderGen

/-- A kind of bracket. -/
inductive Bracket
  | round
  | square
  | curly
deriving DecidableEq, Repr

namespace Bracket

def opening : Bracket → String
  | round => "("
  | square => "["
  | curly => "\x7b"

def closing : Bracket → String
  | round => ")"
  | square => "]"
  | curly => "\x7d"

/-- The bracket that a character opens. -/
def ofOpening? (c : Char) : Option Bracket :=
  if c = '(' then some round else if c = '[' then some square
  else if c = '\x7b' then some curly else none

/-- The bracket that a character closes. -/
def ofClosing? (c : Char) : Option Bracket :=
  if c = ')' then some round else if c = ']' then some square
  else if c = '\x7d' then some curly else none

end Bracket

/-- One token of a text. -/
inductive Token
  /-- A name, as written. -/
  | ident (name : String)
  /-- An integer literal: its value, and how it is written. -/
  | int (value : Nat) (text : String)
  /-- A literal of another kind, as written. -/
  | literal (text : String)
  /-- The number of a member, when it is only a part of a literal such as `0.1`. It has no place of
  its own in a text. -/
  | part (value : Nat)
  /-- A punctuation character, and whether another one follows at once. -/
  | punct (char : Char) (joint : Bool)
  | opening (bracket : Bracket)
  | closing (bracket : Bracket)
deriving DecidableEq, Repr

namespace Token

/-- The token as it is written. -/
def text : Token → String
  | ident name => name
  | int _ text => text
  | literal text => text
  | part value => toString value
  | punct c _ => String.singleton c
  | opening b => b.opening
  | closing b => b.closing

def isClosing : Token → Bool
  | closing _ => true
  | _ => false

/-- The tokens of an operator or separator. -/
def symbolOfChars : List Char → List Token
  | [] => []
  | [c] => [punct c false]
  | c :: cs => punct c true :: symbolOfChars cs

def symbol (s : String) : List Token := symbolOfChars s.toList

/-- Tokens within brackets. -/
def bracketed (b : Bracket) (inner : List Token) : List Token :=
  opening b :: inner ++ [closing b]

/-- Whether a quotation leaves a space between two neighbouring tokens. -/
def spaced : Token → Token → Bool
  | opening .curly, _ => true
  | opening _, _ => false
  | _, closing .curly => true
  | _, closing _ => false
  | punct _ joint, _ => !joint
  | _, _ => true

/-- What follows a token in a quotation. -/
def quoteAfter : Token → List Token → String
  | _, [] => ""
  | previous, t :: ts =>
    (if spaced previous t then " " else "") ++ t.text ++ quoteAfter t ts

/-- Tokens as a message quotes them. -/
def quote : List Token → String
  | [] => ""
  | t :: ts => t.text ++ quoteAfter t ts

end Token

end ReaderGen
