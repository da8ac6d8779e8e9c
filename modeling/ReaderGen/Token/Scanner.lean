import ReaderGen.Text.Blank
import ReaderGen.Text.Quoted
import ReaderGen.Token
import ReaderGen.Token.Literal

/-!
# From text to tokens

`scan` splits a text into lexemes: tokens with the place where they stand, in characters. It skips
blanks and comments, checks that brackets are balanced, and fails at the first place that begins no
token. A comment that documents what follows it (`///`, `/**`) is not skipped: it stands for the
tokens of an attribute.

The scanner walks over the text one character at a time. Where a token or a comment of `n`
characters begins, its other `n - 1` characters are counted down in `skip`, so the recursion is on
the text itself.
-/

namespace ReaderGen

open Text

/-- A token and the characters it takes, from `start` up to but not including `stop`. -/
structure Lexeme where
  token : Token
  start : Nat
  stop : Nat
deriving DecidableEq, Repr

namespace Scanner

/-! ## Comments -/

/-- Length of a text up to the end of its first line. -/
def lineLength : List Char → Nat
  | [] => 0
  | '\n' :: _ => 0
  | '\r' :: '\n' :: _ => 0
  | _ :: cs => lineLength cs + 1

/-- Length of a bracketed comment. Comments nest; `depth` counts those still open and `skip` is set
while the second character of a mark is passed. -/
def commentBody (depth n : Nat) (skip : Bool) : List Char → Option Nat
  | [] => none
  | c :: cs =>
    if skip then commentBody depth (n + 1) false cs
    else if c = '/' && cs.head? = some '*' then commentBody (depth + 1) (n + 1) true cs
    else if c = '*' && cs.head? = some '/' then
      if depth ≤ 1 then some (n + 2) else commentBody (depth - 1) (n + 1) true cs
    else commentBody depth (n + 1) false cs

/-- Whether each carriage return is followed by a line feed. -/
def returnsPaired : List Char → Bool
  | [] => true
  | c :: cs => (c ≠ '\r' || cs.head? = some '\n') && returnsPaired cs

/-- A comment as the content of a string literal. A null character is written at full length before
a digit that would otherwise belong to it. -/
def docText : List Char → String
  | [] => ""
  | '\x00' :: c :: cs =>
    (if '0' ≤ c && c ≤ '7' then "\\x00" else quoteChar '\x00') ++ docText (c :: cs)
  | c :: cs => quoteChar c ++ docText cs

/-- The tokens that a documenting comment stands for. -/
def docTokens (inner : Bool) (comment : List Char) : List Token :=
  .punct '#' false :: (if inner then [.punct '!' false] else []) ++
    Token.bracketed .square
      [.ident "doc", .punct '=' false, .literal ("\"" ++ docText comment ++ "\"")]

/-- A documenting comment, whose text stands between its first three characters and the last
`tail` ones. -/
def documenting (inner : Bool) (tail : Nat) (length : Option Nat) (cs : List Char) :
    Option (List Token × Nat) :=
  match length with
  | none => none
  | some n =>
    let comment := (cs.drop 3).take (n - 3 - tail)
    if returnsPaired comment then some (docTokens inner comment, n) else none

/-- The comment at the beginning of a text: the tokens it stands for, and its length. -/
def commentAt : List Char → Option (List Token × Nat)
  | '/' :: '/' :: '!' :: cs =>
    documenting true 0 (some (3 + lineLength cs)) ('/' :: '/' :: '!' :: cs)
  | '/' :: '/' :: '/' :: '/' :: cs => some ([], 4 + lineLength cs)
  | '/' :: '/' :: '/' :: cs =>
    documenting false 0 (some (3 + lineLength cs)) ('/' :: '/' :: '/' :: cs)
  | '/' :: '/' :: cs => some ([], 2 + lineLength cs)
  | '/' :: '*' :: '*' :: '/' :: _ => some ([], 4)
  | '/' :: '*' :: '!' :: cs =>
    documenting true 2 (commentBody 0 0 false ('/' :: '*' :: '!' :: cs)) ('/' :: '*' :: '!' :: cs)
  | '/' :: '*' :: '*' :: '*' :: cs =>
    (commentBody 0 0 false ('/' :: '*' :: '*' :: '*' :: cs)).map (([], ·))
  | '/' :: '*' :: '*' :: cs =>
    documenting false 2 (commentBody 0 0 false ('/' :: '*' :: '*' :: cs)) ('/' :: '*' :: '*' :: cs)
  | '/' :: '*' :: cs => (commentBody 0 0 false ('/' :: '*' :: cs)).map (([], ·))
  | _ => none

/-! ## Punctuation and names -/

def punctuation : List Char := "~!@#$%^&*-=+|;:,<.>/?'".toList

/-- Whether the text begins with a punctuation character that does not open a comment. -/
def beginsPunct : List Char → Bool
  | '/' :: '/' :: _ => false
  | '/' :: '*' :: _ => false
  | c :: _ => punctuation.contains c
  | [] => false

/-- Names that have no raw form. -/
def neverRaw : List String := ["_", "super", "self", "Self", "crate"]

/-- A name, raw or not: how it is written. The mark of a raw name is part of it. -/
def nameAt : List Char → Option (List Char)
  | 'r' :: '#' :: cs =>
    match identifierAt cs with
    | some name =>
      if neverRaw.contains (String.ofList name) then none else some ('r' :: '#' :: name)
    | none => none
  | cs => identifierAt cs

/-- A punctuation character. A single quote must begin a name that neither a quote ends nor, unless
the name is a raw one, a number sign. -/
def punctAt (cs : List Char) : Option Token :=
  match cs with
  | [] => none
  | c :: rest =>
    if !beginsPunct cs then none
    else if c = '\'' then
      match nameAt rest with
      | some name =>
        match rest.drop name.length with
        | '\'' :: _ => none
        | '#' :: _ => if ['r', '#'].isPrefixOf rest then some (.punct c true) else none
        | _ => some (.punct c true)
      | none => none
    else some (.punct c (beginsPunct rest))

/-- Beginnings that announce a literal, and so begin no name. -/
def literalMarks : List String :=
  ["r\"", "r#\"", "r##", "b\"", "b'", "br\"", "br#", "c\"", "cr\"", "cr#"]

def identAt (cs : List Char) : Option (List Char) :=
  if literalMarks.any (fun mark => mark.toList.isPrefixOf cs) then none else nameAt cs

/-! ## The scanner -/

/-- What a text begins with, brackets apart: its tokens (none for a blank or a comment) and its
length. -/
def munch (cs : List Char) : Option (List Token × Nat) :=
  match cs with
  | [] => none
  | c :: _ =>
    if isBlank c then some ([], 1)
    else (commentAt cs) <|> literal <|> (punctAt cs).map (([·], 1)) <|>
      (identAt cs).map fun name => ([.ident (String.ofList name)], name.length)
where
  /-- The literal that the text begins with. -/
  literal : Option (List Token × Nat) :=
    match Literal.quotedAt cs <|> Literal.floatAt cs with
    | some n => some ([.literal (String.ofList (cs.take n))], n)
    | none => (Literal.intAt cs).map fun (value, n) => ([.int value (String.ofList (cs.take n))], n)

/-- Scans the text from position `pos` on. `stack` holds the brackets that are open, innermost
first, each with its position. The error is the position that cannot be read: a closing bracket
that does not match, the innermost bracket left open, or a character that begins no token. -/
def scanFrom (skip pos : Nat) (stack : List (Bracket × Nat)) :
    List Char → Except Nat (List Lexeme)
  | [] =>
    match stack with
    | [] => .ok []
    | (_, start) :: _ => .error start
  | c :: cs =>
    match skip with
    | k + 1 => scanFrom k (pos + 1) stack cs
    | 0 =>
      match Bracket.ofOpening? c with
      | some b => do
        let rest ← scanFrom 0 (pos + 1) ((b, pos) :: stack) cs
        return ⟨.opening b, pos, pos + 1⟩ :: rest
      | none =>
        match Bracket.ofClosing? c with
        | some b =>
          match stack with
          | [] => .error pos
          | (top, _) :: outer =>
            if top = b then do
              let rest ← scanFrom 0 (pos + 1) outer cs
              return ⟨.closing b, pos, pos + 1⟩ :: rest
            else .error pos
        | none =>
          match munch (c :: cs) with
          | none => .error pos
          | some (tokens, n) => do
            let rest ← scanFrom (n - 1) (pos + 1) stack cs
            return tokens.map (⟨·, pos, pos + n⟩) ++ rest

/-- Splits a text into lexemes. A byte order mark at its very beginning is passed over. -/
def scan (text : String) : Except Nat (List Lexeme) :=
  match text.toList with
  | '\ufeff' :: cs => scanFrom 1 0 [] ('\ufeff' :: cs)
  | cs => scanFrom 0 0 [] cs

end Scanner

end ReaderGen
