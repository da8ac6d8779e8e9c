import ReaderGen.Grammar.Parameter

/-!
# Declarations

Declarations of functions, types, traits and so on may stand among the statements of a block. They
are read to the end and have no meaning here.

Readings of declarations yield nothing where the declaration has to be kept as written.
-/

namespace ReaderGen.Grammar

open Reading

variable (g : Grammar)

/-! ## Parts -/

/-- The place that a reading leads to. -/
def placeAfter {α : Type} (r : Reading α) : Reading (α × Cursor) := fun c =>
  match r c with
  | .ok (a, after) => .ok ((a, after), c)
  | .error complaint => .error complaint

/-- One of several things should stand at a place. -/
def wantedAt {α : Type} (place : Cursor) (whats : List String) : Reading α :=
  fail fun _ => place.wanted (choice whats)

/-- Whether a string stands here. -/
def atString (c : Cursor) : Bool :=
  match c.rest with
  | .literal text :: _ => isString text
  | _ => false

/-- Whether a qualified name without arguments begins here. -/
def beginsPlainPath (c : Cursor) : Bool := c.isSegment && !c.isWord "Self" || c.startsWith "::"

/-- What `beginsPlainPath` looks for. -/
def plainPathStarts : List String := ["identifier", "`self`", "`super`", "`crate`", "`::`"]

/-- Those of several words that do not stand here, as messages quote them. -/
def wordsNotAt (c : Cursor) (words : List String) : List String :=
  (words.filter (!c.isWord ·)).map inTicks

/-- An underscore or a name. -/
def nameOrUnderscore : Reading Tokens := do
  if (← get).isWord "_" then word "_" else name

/-- An invocation, with the semicolon that it needs unless it ends in a curly bracket. -/
def invocation (named : Bool) : Reading Tokens := do
  let start ← inTurn [plainPath, symbol "!", if named then given (·.isName) name else nothing]
  let block := (← get).opens .curly
  return start ++ (← inTurn [invoked, if block then nothing else symbol ";"])

/-- Declarations in a curly bracket, after attributes of the whole. -/
def members (item : Reading Tokens) : Reading Tokens :=
  within .curly (inTurn [innerAttributes, manyGiven (!·.atEnd) item])

/-- A declaration with its attributes. -/
def itemOf (free : Reading (Option Tokens)) : Reading Phrase := do
  let (found, written) ← withSource do
    let start ← attributes
    let found ← free
    return found.map (start ++ ·)
  match found with
  | some tokens => return ⟨tokens, false⟩
  | none => return ⟨written, true⟩

/-- A declaration with its attributes, as tokens. -/
def itemTokens (free : Reading (Option Tokens)) : Reading Tokens := do
  let p ← itemOf free
  return p.tokens

/-! ## Fields -/

/-- Fields with names. -/
def namedFields : Reading Tokens :=
  within .curly (list (inTurn
    [attributes, visibility, nameOrUnderscore, symbol ":", g.typeTokens true]))

/-- Fields without names. -/
def tupleFields : Reading Tokens :=
  within .round (list (inTurn [attributes, visibility, g.typeTokens true]))

/-- One alternative of an enumeration. Nobody says who may see it. -/
def alternative : Reading Tokens := do
  let start ← attributes
  let _ ← visibility
  return start ++ (← inTurn [name, given (·.opens .curly) g.namedFields,
    given (·.opens .round) g.tupleFields,
    given (·.startsWith "=") (inTurn [symbol "=", g.value])])

/-- The fields of a record type and the conditions on its parameters. -/
def recordFields : Reading Tokens := do
  let c ← get
  let before ← g.conditions
  let c' ← get
  if !c.isWord "where" && c'.opens .round then
    let fields ← g.tupleFields
    let after ← get
    let conditions ← g.conditions
    if (← get).startsWith ";" then return fields ++ conditions ++ (← symbol ";")
    else if after.isWord "where" then wantedOneOf ["`;`"]
    else wantedOneOf ["`where`", "`;`"]
  else if c'.opens .curly then return before ++ (← g.namedFields)
  else if c'.startsWith ";" then return before ++ (← symbol ";")
  else if c.isWord "where" then wantedOneOf ["curly braces", "`;`"]
  else wantedOneOf ["`where`", "parentheses", "curly braces", "`;`"]

/-! ## Names of types -/

/-- A declared type: who may see it, the rest of the declaration, and which parts it has. -/
structure TypeAlias where
  tokens : Tokens
  /-- Whether it can be seen or replaced elsewhere. -/
  marked : Bool
  bounded : Bool
  defined : Bool

/-- The declaration of a name for a type. The conditions stand before the type or, if `late` is set,
after it. -/
def typeAlias (late : Bool) : Reading TypeAlias := do
  let start ← visibility
  let standard ← word? "default"
  let head ← inTurn [word "type", name, g.generics]
  let colon ← symbol? ":"
  let stop (c : Cursor) : Bool := c.isWord "where" || c.startsWith "=" || c.startsWith ";"
  let bounds ← if colon.isEmpty then pure [] else separated stop g.boundTokens "+"
  let before ← if late then nothing else g.conditions
  let value ← given (·.startsWith "=") (inTurn [symbol "=", g.typeTokens true])
  let after ← if late then g.conditions else nothing
  let semicolon ← symbol ";"
  return {
    tokens := start ++ standard ++ head ++ (if bounds.isEmpty then [] else colon ++ flat bounds) ++
      before ++ value ++ after ++ semicolon
    marked := !start.isEmpty || !standard.isEmpty
    bounded := !colon.isEmpty
    defined := !value.isEmpty }

/-! ## Traits -/

/-- Bounds after a colon, up to the conditions or the members. -/
def superBounds : Reading Tokens := do
  let colon ← symbol? ":"
  if colon.isEmpty then return []
  let bounds ← separated (fun c => c.isWord "where" || c.opens .curly) g.boundTokens "+"
  return if bounds.isEmpty then [] else colon ++ flat bounds

/-- A function of a trait, possibly without a body. -/
def traitFunction : Reading Tokens := do
  let head ← g.signature
  let c ← get
  if c.opens .curly then return head ++ (← g.body)
  else if c.startsWith ";" then return head ++ (← symbol ";")
  else wantedOneOf ["curly braces", "`;`"]

/-- A member of a trait. -/
def traitMember : Reading (Option Tokens) := do
  let marks ← inTurn [visibility, word? "default"]
  let c ← get
  let tokens ←
    if beginsFunction c then g.traitFunction
    else if c.isWord "const" then
      let after := c.next
      if after.isName || after.isWord "_" then
        inTurn [word "const", nameOrUnderscore, symbol ":", g.typeTokens true,
          given (·.startsWith "=") (inTurn [symbol "=", g.value]), symbol ";"]
      else if ["async", "unsafe", "extern", "fn"].any after.isWord then g.traitFunction
      else wantedAt after ["identifier", "`_`", "`async`", "`unsafe`", "`extern`", "`fn`"]
    else if c.isWord "type" then do
      let declared ← g.typeAlias true
      pure declared.tokens
    else if marks.isEmpty && beginsPlainPath c then invocation false
    else wantedAt c (["`fn`", "`const`", "`type`"] ++ if marks.isEmpty then plainPathStarts else [])
  return if marks.isEmpty then some tokens else none

/-- What comes after the name and the parameters of a trait. -/
def traitRest : Reading Tokens :=
  inTurn [g.superBounds, g.conditions, members (itemTokens g.traitMember)]

/-- A trait. -/
def traitItem : Reading Tokens :=
  inTurn [visibility, word? "unsafe", word? "auto", word "trait", name, g.generics, g.traitRest]

/-- A trait, or a name for a sum of bounds. -/
def traitOrAlias : Reading Tokens := do
  let head ← inTurn [visibility, word "trait", name, g.generics]
  let c ← get
  if c.opens .curly || c.startsWith ":" || c.isWord "where" then return head ++ (← g.traitRest)
  else if c.startsWith "=" then
    let equals ← symbol "="
    let bounds ← separated (fun c => c.isWord "where" || c.startsWith ";") g.boundTokens "+"
    return head ++ equals ++ flat bounds ++ (← inTurn [g.conditions, symbol ";"])
  else wantedOneOf ["curly braces", "`:`", "`where`", "`=`"]

/-! ## Implementations -/

/-- A member of an implementation. -/
def implMember : Reading (Option Tokens) := do
  let (marks, c) ← placeAfter visibility
  let standard := c.isWord "default" && !c.next.startsWith "!"
  let c := if standard then c.next else c
  let start := inTurn [visibility, if standard then word "default" else nothing]
  if beginsFunction c then
    let head ← inTurn [start, g.signature]
    if (← get).startsWith ";" then return some (head ++ (← symbol ";"))
    else return some (head ++ (← g.body))
  else if c.isWord "const" then
    if !(c.next.isName || c.next.isWord "_") then wantedAt c.next ["identifier", "`_`"]
    else
      let head ← inTurn [start, word "const", nameOrUnderscore, symbol ":", g.typeTokens true]
      if (← get).startsWith "=" then
        return some (head ++ (← inTurn [symbol "=", g.value, symbol ";"]))
      else
        let _ ← symbol ";"
        return none
  else if c.isWord "type" then
    let declared ← g.typeAlias true
    return if declared.bounded || !declared.defined then none else some declared.tokens
  else if marks.isEmpty && !standard && beginsPlainPath c then return some (← invocation false)
  else wantedAt c ((if standard then [] else ["`default`"]) ++ ["`fn`", "`const`", "`type`"] ++
    if marks.isEmpty && !standard then plainPathStarts else [])

/-- Whether the parameters of an implementation follow, and not a type in angle brackets. -/
def parametersFollow (c : Cursor) : Bool :=
  let (second, third) := (c.next, c.next.next)
  c.startsWith "<" && (second.startsWith ">" || second.startsWith "#" || second.isWord "const" ||
    ((second.isName || second.isLabel) && (third.startsWith ":" || third.startsWith "," ||
      third.startsWith ">" || third.startsWith "=")))

/-- An implementation. -/
def implItem : Reading (Option Tokens) := do
  let marks ← visibility
  let head ← inTurn [word? "default", word? "unsafe", word "impl",
    given parametersFollow g.generics]
  let c ← get
  let constant := c.isWord "const" || (c.startsWith "?" && c.next.isWord "const")
  if constant then let _ ← inTurn [symbol? "?", word "const"]
  let ((negative, shape, first), written) ← withSource do
    let c ← get
    let negative ← given (fun _ => c.startsWith "!" && !c.next.opens .curly) (symbol "!")
    let (shape, first) ← g.type true
    return (negative, shape, first)
  let ofTrait := (← get).isWord "for"
  let target ←
    if ofTrait then do
      let rest ← inTurn [word "for", g.typeTokens true]
      pure (negative ++ first ++ rest)
    else pure (if negative.isEmpty then first else written)
  let rest ← inTurn [g.conditions, members (itemTokens g.implMember)]
  let named := shape = .path || shape = .applied
  return if !marks.isEmpty || constant || (ofTrait && !named) then none
    else some (head ++ target ++ rest)

/-! ## Other declarations -/

/-- The names that a declaration brings in. -/
def importTree : Reading Tokens := do
  let c ← get
  if c.isSegment && !c.isWord "Self" then
    let first ← anyWord
    let c ← get
    if c.startsWith "::" then return .ident first :: (← inTurn [symbol "::", g.imports])
    else if c.isWord "as" then
      let mark ← word "as"
      let c ← get
      if c.isName || c.isWord "_" then return .ident first :: mark ++ (← nameOrUnderscore)
      else wanted "identifier or underscore"
    else return [.ident first]
  else if c.startsWith "*" then symbol "*"
  else if c.opens .curly then within .curly (list g.imports)
  else wantedOneOf ["identifier", "`self`", "`super`", "`crate`", "`try`", "`*`", "curly braces"]

/-- A member of a block of foreign declarations. -/
def foreignMember : Reading (Option Tokens) := do
  let (marks, c) ← placeAfter visibility
  if beginsFunction c then
    let head ← inTurn [visibility, g.signature]
    if (← get).opens .curly then
      let _ ← g.body
      return none
    else return some (head ++ (← symbol ";"))
  else if c.isWord "static" then
    let head ← inTurn [visibility, word "static", word? "mut", name, symbol ":",
      g.typeTokens true]
    if (← get).startsWith "=" then
      let _ ← inTurn [symbol "=", g.value, symbol ";"]
      return none
    else return some (head ++ (← symbol ";"))
  else if c.isWord "type" then
    let declared ← g.typeAlias false
    return if declared.bounded || declared.defined then none else some declared.tokens
  else if marks.isEmpty && beginsPlainPath c then return some (← invocation false)
  else wantedAt c (["`fn`", "`static`", "`type`"] ++ if marks.isEmpty then plainPathStarts else [])

/-- A block of foreign declarations. -/
def foreignBlock : Reading Tokens := do
  if !(← get).isWord "extern" then wanted "`extern`"
  else inTurn [convention, members (itemTokens g.foreignMember)]

/-- A module. -/
def moduleItem : Reading Tokens := do
  let head ← inTurn [visibility, word "mod", name]
  let c ← get
  if c.startsWith ";" then return head ++ (← symbol ";")
  else if c.opens .curly then
    return head ++ (← members do return (← g.item).tokens)
  else wantedOneOf ["`;`", "curly braces"]

/-- Another package that is made known. -/
def packageItem : Reading Tokens :=
  inTurn [visibility, word "extern", word "crate", (do
      if (← get).isWord "self" then word "self" else name),
    given (·.isWord "as") (inTurn [word "as", nameOrUnderscore]), symbol ";"]

/-- A global variable. -/
def staticItem : Reading (Option Tokens) := do
  let head ← inTurn [visibility, word "static", word? "mut", name]
  if (← get).startsWith "=" then
    let _ ← inTurn [symbol "=", g.value, symbol ";"]
    return none
  let type ← inTurn [symbol ":", g.typeTokens true]
  if (← get).startsWith ";" then
    let _ ← symbol ";"
    return none
  else return some (head ++ type ++ (← inTurn [symbol "=", g.value, symbol ";"]))

/-- A constant. -/
def constantItem : Reading (Option Tokens) := do
  let head ← inTurn [visibility, word "const", nameOrUnderscore, symbol ":", g.typeTokens true]
  if (← get).startsWith ";" then
    let _ ← symbol ";"
    return none
  else return some (head ++ (← inTurn [symbol "=", g.value, symbol ";"]))

/-- A function. -/
def functionItem : Reading (Option Tokens) := do
  let head ← inTurn [visibility, g.signature]
  if (← get).startsWith ";" then
    let _ ← symbol ";"
    return none
  else return some (head ++ (← g.body))

/-- A type of which only bounds are known. -/
def hiddenType : Reading Tokens :=
  inTurn [visibility, word "existential", word "type", name, g.generics, g.conditions, symbol ":",
    listed, symbol ";"]
where
  listed : Reading Tokens := do
    return flat (← separated (·.startsWith ";") g.boundTokens "+")

/-- A rule for invocations. -/
def ruleItem : Reading Tokens := do
  let head ← inTurn [visibility, word "macro", name]
  let c ← get
  let parameters ← given (·.opens .round) (within .round remainder)
  if (← get).opens .curly then return head ++ parameters ++ (← within .curly remainder)
  else if c.opens .round then wantedOneOf ["curly braces"]
  else wantedOneOf ["parentheses", "curly braces"]

/-! ## All declarations -/

/-- The words that a declaration may begin with, after those that say who may see it. -/
def itemStarts : List String :=
  ["fn", "extern", "use", "static", "const", "unsafe", "mod", "type", "existential", "struct", "enum",
   "union", "trait", "auto", "impl", "default", "macro"]

/-- A declaration after the mark that it is not checked; `c` is the place of the mark. -/
def uncheckedItem (c : Cursor) : Reading (Option Tokens) := do
  let after := c.next
  if after.isWord "trait" || (after.isWord "auto" && after.next.isWord "trait") then
    return some (← g.traitItem)
  else if after.isWord "impl" then g.implItem
  else if after.isWord "extern" then
    let _ ← inTurn [visibility, word "unsafe", g.foreignBlock]
    return none
  else if after.isWord "mod" then
    let _ ← inTurn [visibility, word "unsafe", g.moduleItem]
    return none
  else wantedAt after (wordsNotAt after ["trait", "auto", "impl", "extern", "mod"])

/-- A declaration that concerns other languages or packages; `c` is the place of its first word. -/
def foreignItem (c : Cursor) : Reading Tokens := do
  let after := c.next
  if after.isWord "crate" then packageItem
  else if after.opens .curly then g.foreignBlock
  else if atString after then
    if after.next.opens .curly then g.foreignBlock else wantedAt after.next ["curly braces"]
  else wantedAt after ["`crate`", "curly braces", "string literal"]

/-- A declaration without its attributes. -/
def freeItem : Reading (Option Tokens) := do
  let (marks, c) ← placeAfter visibility
  let whole (r : Reading Tokens) : Reading (Option Tokens) := do return some (← r)
  if beginsFunction c then g.functionItem
  else if c.isWord "extern" then whole (g.foreignItem c)
  else if c.isWord "use" then
    whole (inTurn [visibility, word "use", symbol? "::", g.imports, symbol ";"])
  else if c.isWord "static" then g.staticItem
  else if c.isWord "const" then
    if c.next.isName || c.next.isWord "_" then g.constantItem
    else wantedAt c.next ["identifier", "`_`"]
  else if c.isWord "unsafe" then g.uncheckedItem c
  else if c.isWord "mod" then whole g.moduleItem
  else if c.isWord "type" then do
    let declared ← g.typeAlias false
    return if declared.bounded || !declared.defined then none else some declared.tokens
  else if c.isWord "existential" then do
    let _ ← g.hiddenType
    return none
  else if c.isWord "struct" then
    whole (inTurn [visibility, word "struct", name, g.generics, g.recordFields])
  else if c.isWord "enum" then
    whole (inTurn [visibility, word "enum", name, g.generics, g.conditions,
      within .curly (list g.alternative)])
  else if c.isWord "union" && c.next.isName then
    whole (inTurn [visibility, word "union", name, g.generics, g.conditions, g.namedFields])
  else if c.isWord "trait" then whole g.traitOrAlias
  else if c.isWord "auto" && c.next.isWord "trait" then whole g.traitItem
  else if c.isWord "impl" || (c.isWord "default" && !c.next.startsWith "!") then g.implItem
  else if c.isWord "macro" then whole ruleItem
  else if marks.isEmpty && beginsPlainPath c then whole (invocation true)
  else wantedAt c (wordsNotAt c itemStarts ++ if marks.isEmpty then plainPathStarts else [])

/-- A declaration. -/
def anyItem : Reading Phrase := itemOf g.freeItem

end ReaderGen.Grammar
