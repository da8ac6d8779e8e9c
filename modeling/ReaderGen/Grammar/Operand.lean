import ReaderGen.Grammar.Block
import ReaderGen.Grammar.Member

/-!
# Operands

An operand is an atom with trailers after it (subscripts, calls, members) and with operators and
attributes before it. Literals, variables, subscripts and round brackets have a meaning; everything
else is a foreign form.
-/

namespace ReaderGen.Grammar

open Reading

variable (g : Grammar)

/-! ## Atoms -/

/-- A field of a record. -/
def field : Reading Tokens := do
  let start ← attributes
  let (named, tokens) ← member
  if (← get).startsWith ":" || !named then
    return start ++ tokens ++ (← inTurn [symbol ":", g.value])
  else return start ++ tokens

/-- The fields of a record. After two dots may stand the record that has the others. -/
def fields : Reading Tokens := do
  let (_, tokens) ← iterate next (false, [])
  return tokens
where
  /-- One more field, after those that have been read; the flag says that there are none. -/
  next : Bool × Tokens → Reading (Option (Bool × Tokens))
    | (complete, tokens) => do
      let c ← get
      if complete || c.atEnd then return none
      if c.startsWith ".." then
        let rest ← inTurn [symbol "..", given (!·.atEnd) g.value]
        return some (true, tokens ++ rest)
      let field ← g.field
      let comma ← given (!·.atEnd) (symbol ",")
      return some (false, tokens ++ field ++ comma)

/-- An atom that begins with a name: a variable, a qualified name, an invocation or a record. -/
def named (braces : Bool) : Reading Expr := do
  let ((p, record), written) ← withSource do
    let p ← g.anyPath .expression
    let c ← get
    if invocationFollows p c then return (p, some (← inTurn [symbol "!", invoked]))
    else if braces && c.opens .curly then return (p, some (← within .curly g.fields))
    else return (p, none)
  match record, p.tokens with
  | some rest, tokens =>
    return if p.ofType then .foreign .verbatim written else .foreign .plain (tokens ++ rest)
  | none, [.ident word] => return .name word
  | none, tokens => return .path tokens

/-- What stands in round brackets: an expression, or a tuple. -/
def round : Reading Expr := do
  enter .round
  if (← get).atEnd then
    leave
    return .foreign .plain (Token.bracketed .round [])
  let first ← g.expression true
  if (← get).atEnd then
    leave
    return .paren first
  let rest ← inTurn [symbol ",", list g.value]
  leave
  return .foreign .plain (Token.bracketed .round (first.tokens ++ rest))

/-- What stands in square brackets that do not follow an operand: a list, or a repeated element. -/
def array : Reading Tokens :=
  within .square do
    if (← get).atEnd then return []
    let first ← g.value
    let c ← get
    if c.atEnd then return first
    else if c.startsWith "," then return first ++ (← inTurn [symbol ",", list g.value])
    else if c.startsWith ";" then return first ++ (← inTurn [symbol ";", g.value])
    else fail (·.complain (.expected "`,` or `;`"))

/-- Whether an operand that may be missing is. -/
def missing (c : Cursor) : Bool := c.atEnd || c.startsWith "," || c.startsWith ";"

/-- An expression that may be missing where a test says so, as tokens. -/
def valueUnless (braces : Bool) (test : Cursor → Bool) : Reading Tokens :=
  given (!test ·) do
    let e ← g.expression braces
    return e.tokens

/-- Whether the upper end of a range is missing. -/
def rangeCut (braces : Bool) (c : Cursor) : Bool :=
  missing c || c.isPoint || (!braces && c.opens .curly)

/-- An atom that begins with a reserved word, if there is one. -/
def worded (braces : Bool) : Reading (Option Expr) := do
  let c ← get
  let plain (r : Reading Tokens) : Reading (Option Expr) := do return some (.foreign .plain (← r))
  let blocky (r : Reading Tokens) : Reading (Option Expr) := do return some (.foreign .block (← r))
  if c.isWord "break" then
    plain (inTurn [word "break", given (·.isLabel) label,
      g.valueUnless braces fun c => missing c || (!braces && c.opens .curly)])
  else if c.isWord "continue" then plain (inTurn [word "continue", given (·.isLabel) label])
  else if c.isWord "return" then plain (inTurn [word "return", g.valueUnless braces missing])
  else if c.isWord "let" then plain (inTurn [word "let", g.topPattern, symbol "=", g.matched])
  else if c.isWord "if" then blocky g.condition
  else if c.isWord "while" then blocky g.whileLoop
  else if c.isWord "for" then blocky g.forLoop
  else if c.isWord "loop" then blocky g.endlessLoop
  else if c.isWord "match" then blocky g.selection
  else if c.isWord "yield" then plain (inTurn [word "yield", g.valueUnless true missing])
  else if c.isWord "unsafe" then blocky (inTurn [word "unsafe", g.body])
  else if c.isWord "const" then return some (.foreign .verbatim (← g.constantBlock))
  else if c.isWord "_" then return some (.foreign .verbatim (← word "_"))
  else return none

/-- An operand by itself. -/
def atom (braces : Bool) : Reading Expr := do
  knownLiteral
  let c ← get
  match c.rest with
  | .int value text :: _ => do
    pass 1
    return .int value text
  | .literal text :: _ => do
    pass 1
    return .literal text
  | .ident "true" :: _ => do
    pass 1
    return .literal "true"
  | .ident "false" :: _ => do
    pass 1
    return .literal "false"
  | .opening .round :: _ => g.round
  | .opening .square :: _ => return .foreign .plain (← g.array)
  | .opening .curly :: _ => return .foreign .block (← g.body)
  | _ =>
    if beginsLater c then
      return .foreign .block (← inTurn [word "async", word? "move", g.block])
    else if beginsTry c then return .foreign .block (← inTurn [word "try", g.block])
    else if beginsClosure c then return .foreign .plain (← g.closure braces)
    else if bindsLabels c then
      return .foreign .verbatim (← source (inTurn [labelBinder, g.closure braces]))
    else if c.isSegment || c.startsWith "::" || c.startsWith "<" then g.named braces
    else
      match ← g.worded braces with
      | some e => return e
      | none =>
        if c.startsWith ".." then
          return .foreign .range
            (← inTurn [rangeOperator, g.valueUnless braces (rangeCut braces)])
        else if c.isLabel then return .foreign .block (← g.labelled)
        else wanted "expression"

/-! ## Trailers -/

/-- A member, or a call of a method. -/
def memberOrCall : Reading Tokens := do
  let (isName, tokens) ← member
  if !isName then return tokens
  let arguments ← given (·.startsWith "::") g.methodArguments
  if !arguments.isEmpty || (← get).opens .round then
    return tokens ++ arguments ++ (← within .round (list g.value))
  else return tokens

/-- What stands after a point. -/
def afterPoint : Reading Tokens := do
  knownLiteral
  let c ← get
  if c.isWord "await" then return ← word "await"
  match fractionAt c with
  | none => g.memberOrCall
  | some (text, n) =>
    match splitNumber text with
    | .error fault => fail fun c => ⟨fault, c.rest.length, n⟩
    | .ok (values, more) =>
      pass n
      if more then return memberParts values ++ Token.symbol "." ++ (← g.memberOrCall)
      else return memberParts values

/-- One more subscript, call, member or question mark after an operand. -/
def trailer (e : Expr) : Reading (Option Expr) := do
  let c ← get
  if c.opens .square then
    enter .square
    let i ← g.expression true
    leave
    return some (.index e i)
  else if c.opens .round then
    return some (.foreign .plain (e.tokens ++ (← within .round (list g.value))))
  else if c.isPoint && e.shape ≠ .range then
    return some (.foreign .plain (e.tokens ++ (← inTurn [symbol ".", g.afterPoint])))
  else if c.startsWith "?" then return some (.foreign .plain (e.tokens ++ (← symbol "?")))
  else return none

/-! ## Operators before an operand -/

/-- The operator before an operand that stands here. -/
def unaryAt (c : Cursor) : Option UnaryOp :=
  [UnaryOp.deref, .not, .neg].find? fun op => c.startsWith op.symbol

/-- A reference, or the place of a value. -/
def reference (braces : Bool) : Reading Expr := do
  let ((place, tokens), written) ← withSource do
    let start ← symbol "&"
    let c ← get
    if c.isWord "raw" && (c.next.isWord "mut" || c.next.isWord "const") then
      let _ ← word "raw"
      if (← get).isWord "mut" then pass 1 else let _ ← word "const"
      let _ ← g.operand braces
      return (true, [])
    else
      let mark ← word? "mut"
      let e ← g.operand braces
      return (false, start ++ mark ++ e.tokens)
  return if place then .foreign .verbatim written else .foreign .plain tokens

/-- An operand without attributes. -/
def bareOperand (braces : Bool) : Reading Expr := do
  let c ← get
  if c.startsWith "&" then g.reference braces
  else if c.isWord "box" then
    let mark ← word "box"
    let e ← g.operand braces
    return .foreign .plain (mark ++ e.tokens)
  else
    match unaryAt c with
    | some op =>
      let _ ← symbol op.symbol
      let e ← g.operand braces
      return .unary op e
    | none => iterate g.trailer (← g.atom braces)

/-- An operand. -/
def anyOperand (braces : Bool) : Reading Expr := do
  let start ← attributes
  let e ← g.bareOperand braces
  return e.withAttributes start

end ReaderGen.Grammar
