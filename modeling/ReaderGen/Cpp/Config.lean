import ReaderGen.Cpp.Type
import ReaderGen.Error
import ReaderGen.Text.Quoted

/-!
# Options for the generated code

How loops, reads and writes are written can be chosen by name or given as a function.
`Config.emitter?` looks the names up: the first unknown one, of the loop, the scanner and the
printer, is the error.
-/

namespace ReaderGen.Cpp

/-- How a kind of statement is written. -/
inductive Choice (α : Type)
  | standard
  | named (name : String)
  | custom (write : α)

/-- A choice as text; a function is not shown. -/
def Choice.text {α : Type} : Choice α → String
  | standard => "Default"
  | named name => "Named(" ++ Text.quoted name ++ ")"
  | custom _ => "Custom(..)"

structure Config where
  /-- The header of a loop, from its counter and size. -/
  loop : Choice (String → String → String) := .standard
  /-- The statement that reads targets. -/
  scanner : Choice (List String → String) := .standard
  /-- The statement that writes expressions. -/
  printer : Choice (List String → String) := .standard
  /-- Whether library names are qualified. -/
  qualified : Bool := false
  indent : String := "    "
  scalar : Scalar := .int

/-- What stands before library names. -/
def Config.std (config : Config) : String := if config.qualified then "std::" else ""

/-! ## Statements -/

/-- `for (int i = 0; i < N; ++i)` -/
def forHeader (counter size : String) : String :=
  "for (int " ++ counter ++ " = 0; " ++ counter ++ " < " ++ size ++ "; ++" ++ counter ++ ")"

/-- `REP (i, N)` -/
def callHeader (name counter size : String) : String :=
  name ++ " (" ++ counter ++ ", " ++ size ++ ")"

/-- `scanf("%d%d", &a, &b);` -/
def scanfCall (spec : String) (targets : List String) : String :=
  "scanf(\"" ++ String.join (targets.map fun _ => spec) ++ "\", " ++
    ", ".intercalate (targets.map ("&" ++ ·)) ++ ");"

/-- `cin >> a >> b;` -/
def cinChain (std : String) (targets : List String) : String :=
  std ++ "cin " ++ " ".intercalate (targets.map (">> " ++ ·)) ++ ";"

/-- `printf("%d %d\n", a, b);` -/
def printfCall (spec : String) (exprs : List String) : String :=
  "printf(\"" ++ " ".intercalate (exprs.map fun _ => spec) ++ "\\n\", " ++
    ", ".intercalate exprs ++ ");"

/-- `cout << a << ' ' << b << endl;` -/
def coutChain (std : String) (exprs : List String) : String :=
  let middle := if exprs.isEmpty then "" else " << ' ' << ".intercalate exprs ++ " "
  std ++ "cout << " ++ middle ++ "<< " ++ std ++ "endl;"

/-! ## Choosing by name -/

/-- Whether a name can be called like a function. -/
def isIdentifier (name : String) : Bool :=
  match name.toList with
  | [] => false
  | c :: cs => (c.isAlpha || c = '_') && cs.all (fun c => c.isAlphanum || c = '_')

/-- The statements that generated code is made of. -/
structure Emitter where
  header : String → String → String
  scan : List String → String
  print : List String → String
  std : String
  scalar : Scalar
  indent : String

namespace Config

def header? : Choice (String → String → String) → Except ConfigError (String → String → String)
  | .standard => .ok forHeader
  | .named name => if isIdentifier name then .ok (callHeader name) else .error (.invalidLoopMacro name)
  | .custom write => .ok write

/-- The statement that a choice stands for. A call is the standard one, and a chain of operators may be
named with or without its qualification. -/
def statement? {α : Type} (call chain : String × α) (unknown : String → ConfigError) :
    Choice α → Except ConfigError α
  | .standard => .ok call.2
  | .named name =>
    if name = call.1 then .ok call.2
    else if name = chain.1 || name = "std::" ++ chain.1 then .ok chain.2
    else .error (unknown name)
  | .custom write => .ok write

def scan? (std spec : String) :
    Choice (List String → String) → Except ConfigError (List String → String) :=
  statement? ("scanf", scanfCall spec) ("cin", cinChain std) .unknownScanner

def print? (std spec : String) :
    Choice (List String → String) → Except ConfigError (List String → String) :=
  statement? ("printf", printfCall spec) ("cout", coutChain std) .unknownPrinter

/-- Looks up what the options name. -/
def emitter? (config : Config) : Except ConfigError Emitter := do
  let header ← header? config.loop
  let scan ← scan? config.std config.scalar.spec config.scanner
  let print ← print? config.std config.scalar.spec config.printer
  return ⟨header, scan, print, config.std, config.scalar, config.indent⟩

end Config

end ReaderGen.Cpp
