import ReaderGen.Grammar.Expression
import ReaderGen.Grammar.Item

/-!
# Statements

A block holds statements: declarations, definitions of variables, and expressions. A semicolon must
stand between an expression and the next statement, unless the expression ends in a block.
-/

namespace ReaderGen.Grammar

open Reading

variable (g : Grammar)

/-- Whether a declaration begins here. -/
def beginsItem (c : Cursor) : Bool :=
  let (second, third) := (c.next, c.next.next)
  ["pub", "extern", "use", "fn", "mod", "type", "struct", "enum", "trait", "impl", "macro"].any
      c.isWord ||
    (c.isWord "crate" && !second.startsWith "::") ||
    (c.isWord "static" && (second.isWord "mut" ||
      (second.isName &&
        !(second.isWord "async" && (third.isWord "move" || third.startsWith "|"))))) ||
    (c.isWord "const" && !(second.opens .curly || second.isWord "static" ||
      (second.isWord "async" &&
        !(third.isWord "unsafe" || third.isWord "extern" || third.isWord "fn")) ||
      second.isWord "move" || second.startsWith "|")) ||
    (c.isWord "unsafe" && !second.opens .curly) ||
    (c.isWord "async" && (second.isWord "unsafe" || second.isWord "extern" || second.isWord "fn")) ||
    (c.isWord "existential" && second.isWord "type") ||
    (c.isWord "union" && second.isName) ||
    (c.isWord "auto" && second.isWord "trait") ||
    (c.isWord "default" && (second.isWord "unsafe" || second.isWord "impl"))

/-- Whether an invocation that is a statement by itself begins here: one that ends in a curly bracket
or declares a name. -/
def beginsInvocation (c : Cursor) : Bool :=
  match plainPath c with
  | .error _ => false
  | .ok (_, c) =>
    c.startsWith "!" &&
      ((c.next.opens .curly && !(c.next.next.startsWith "." || c.next.next.startsWith "?")) ||
        c.next.isName)

/-- A definition of variables, less its attributes. There is no result if a block stands for the
values that do not match, so that the statement has to be kept as written, up to its semicolon. -/
def definition : Reading (Option Tokens) := do
  let head ← inTurn [word "let", g.topPattern,
    given (·.startsWith ":") (inTurn [symbol ":", g.typeTokens true])]
  if !(← get).startsWith "=" then return some head
  let value ← inTurn [symbol "=", g.value]
  if (← get).isWord "else" then
    let _ ← inTurn [word "else", g.block]
    return none
  else return some (head ++ value)

/-- A statement, and whether a semicolon has to stand between it and the next one. -/
def statement : Reading (Tokens × Bool) := do
  let start ← attributes
  let c ← get
  if beginsInvocation c then
    return (start ++ (← inTurn
      [plainPath, symbol "!", given (·.isName) name, invoked, symbol? ";"]), false)
  else if c.isWord "let" then
    let (found, written) ← withSource g.definition
    return (start ++ found.getD written ++ (← symbol ";"), false)
  else if beginsItem c then
    let p ← g.item
    return (if p.verbatim then p.tokens else start ++ p.tokens, false)
  else
    let e ← g.early
    let tokens := if e.shape = .verbatim then e.tokens else start ++ e.tokens
    if (← get).startsWith ";" then return (tokens ++ (← symbol ";"), false)
    else return (tokens, e.shape ≠ .block)

/-- The statements of a block. -/
def allStatements : Reading Tokens := do
  let parts ← many do
    let c ← get
    if c.atEnd then return none
    else if c.startsWith ";" then return some (← symbol ";")
    else
      let (tokens, separate) ← g.statement
      if separate && !(← get).atEnd then fail (·.complain .unexpected)
      else return some tokens
  return parts.flatten

end ReaderGen.Grammar
