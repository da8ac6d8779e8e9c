import ReaderGen.Canonical
import ReaderGen.Diagnostic
import ReaderGen.Format
import ReaderGen.Format.Description

/-!
# From a description to a format

`Format.read` reads a description and brings its expressions into canonical form. What is wrong with
it is a message and a place in the text; `Format.parse` shows both as a diagnostic.

A text that cannot be split into tokens is refused before anything else, then one that is no
description, and only then one whose expressions have no canonical form; among these the first in
the text counts.
-/

namespace ReaderGen

/-- A message about the characters of a text from `start` to `stop`. -/
structure Problem where
  message : String
  start : Nat
  stop : Nat
  /-- Whether nothing can be shown for it. -/
  silent : Bool := false
deriving DecidableEq, Repr

namespace Problem

/-- A message about some of the lexemes of a text. -/
def about (message : String) (lexemes : List Lexeme) : Problem :=
  match lexemes.head?, lexemes.getLast? with
  | some first, some last => ⟨message, first.start, last.stop, false⟩
  | _, _ => ⟨message, 0, 0, false⟩

/-- A complaint is about the tokens it names. -/
def ofComplaint (lexemes : List Lexeme) (complaint : Complaint) : Problem :=
  let place := (lexemes.drop (lexemes.length - complaint.left)).take complaint.size
  { about complaint.fault.message place with silent := complaint.fault = .unknownLiteral }

/-- How many lexemes of an expression an error is shown at: all of them, or only the first tree if the
last token has no place of its own. -/
def shown (e : Expr) (tokens : List Token) : Nat :=
  match e.tokens.getLast? with
  | some (.part _) => Cursor.treeSize tokens
  | _ => tokens.length

/-- An error of an expression is about all its tokens. -/
def ofExprError (lexemes : List Lexeme) (e : Description.Located) (error : ExprError) : Problem :=
  let place := (lexemes.drop (lexemes.length - e.before)).take (e.before - e.after)
  about error.message (place.take (shown e.expr (place.map (·.token))))

end Problem

namespace Description

/-- The canonical text of an expression. -/
def Located.canonical (lexemes : List Lexeme) (e : Located) : Except Problem String :=
  e.expr.canonicalize.mapError (Problem.ofExprError lexemes e)

def Item.toFormat (lexemes : List Lexeme) (i : Item) : Except Problem Format := do
  return .item i.name (← i.indices.mapM (·.canonical lexemes))

mutual

/-- A statement as a format: a `read` ends its line. -/
def Statement.toFormat (lexemes : List Lexeme) : Statement → Except Problem Format
  | .read items => do
    return .sequence ((← items.mapM (·.toFormat lexemes)) ++ [.newline])
  | .loop counter bound body => do
    let size ← bound.canonical lexemes
    return .loop counter size (.sequence (← toFormats lexemes body))

def toFormats (lexemes : List Lexeme) : List Statement → Except Problem (List Format)
  | [] => .ok []
  | s :: ss => do
    let first ← s.toFormat lexemes
    return first :: (← toFormats lexemes ss)

end

end Description

namespace Format

/-- Reads a description. -/
def read (source : String) : Except Problem Format :=
  match Scanner.scan source with
  | .error p => .error ⟨Fault.unreadable.message, p, p, false⟩
  | .ok lexemes =>
    match Description.parse (lexemes.map (·.token)) with
    | .error complaint => .error (Problem.ofComplaint lexemes complaint)
    | .ok statements => return .sequence (← Description.toFormats lexemes statements)

/-- The error shown for a problem of a description. Places are shown by their byte offsets. -/
def diagnose (name source : String) (color : Bool) (problem : Problem) : FormatError :=
  let text := source.toList
  if problem.silent then .unknownLiteral
  else match Diagnostic.render color name text problem.message (Source.offsetAt text problem.start)
      (Source.offsetAt text problem.stop) with
  | some rendered => .malformed rendered
  | none => .unplaceable

/-- Reads a description; `name` is what its diagnostics call it. -/
def parse (name source : String) (color : Bool) : Except FormatError Format :=
  (read source).mapError (diagnose name source color)

end Format

end ReaderGen
