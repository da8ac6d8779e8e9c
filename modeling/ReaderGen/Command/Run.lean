import ReaderGen.Command
import ReaderGen.Directory
import ReaderGen.Format.Load
import ReaderGen.Format.Variables
import ReaderGen.Fragment

/-!
# Running commands

A command is run on what can be read from the path of its format: a text, or the reason why there is
none. `run` runs the program in a directory.
-/

namespace ReaderGen

namespace Command

def path : Command → String
  | lint path => path
  | code path _ _ => path

/-- The format at a path, and its variables. -/
def load (path : String) (content : Except Unreadable String) : Except Error (Format × Table) := do
  let source ← content.mapError (fun e => .format (.file path e.message))
  let format ← (Format.parse path source true).mapError .format
  let table ← format.table.mapError .expr
  return (format, table)

/-- Checks that a format can be read, and lists its variables. -/
def listVariables (path : String) (content : Except Unreadable String) : Except Error String := do
  let (format, table) ← load path content
  let _ ← format.schedule table
  return String.join (table.decls.map (fun d => d.text ++ "\n"))

/-- The fragments of a program, each under its title. -/
def document (table : Table) (config : Cpp.Config) (reading stub : String) : String :=
  String.join (List.map (fun (title, text) => "// " ++ title ++ "\n" ++ text ++ "\n\n")
    [("return type", Fragment.returnType),
     ("parameter types", Fragment.parameterTypes table config),
     ("parameter names", Fragment.parameterNames table),
     ("input reading", reading),
     ("output stub", stub)])

/-- Writes the fragments of a program for a format. -/
def writeFragments (counting : Layout.Counting) (path : String) (config : Cpp.Config) (nest : UInt64)
    (content : Except Unreadable String) : Except Error String := do
  let (format, table) ← load path content
  let reading ← Fragment.inputReading counting format table config nest
  let stub ← Fragment.outputStub counting config nest
  return document table config reading stub

/-- What a command prints, given the content of its path. -/
def execute (counting : Layout.Counting) (content : Except Unreadable String) :
    Command → Except Error String
  | lint path => listVariables path content
  | code path config nest => writeFragments counting path config nest content

end Command

/-- How a run of the program ends. -/
inductive Outcome
  | printed (output : String)
  | failed (error : Error)
  | stopped (stop : Command.Stop)
deriving DecidableEq, Repr

namespace Outcome

def ofResult : Except Error String → Outcome
  | .ok output => printed output
  | .error error => failed error

/-- What is written to the standard output. -/
def output : Outcome → String
  | printed output => output
  | stopped (.version none) => s!"{Command.program} {Command.version}\n"
  | stopped (.version (some command)) => s!"{Command.program}-{command} {Command.version}\n"
  | _ => ""

/-- What is written to the standard error. -/
def complaint : Outcome → String
  | failed error => error.message ++ "\n"
  | stopped (.refused refusal) => refusal.message ++ "\n"
  | stopped (.invalid option fault) => s!"error: Invalid value for '{option}': {fault.message}\n"
  | _ => ""

def exitCode : Outcome → Nat
  | printed _ => 0
  | stopped (.version _) => 0
  | failed error => if error.breaksOff then 101 else 1
  | _ => 1

end Outcome

/-- Runs the program in a directory. -/
def run (counting : Layout.Counting) (dir : Directory) (arguments : List String) : Outcome :=
  match Command.parse arguments with
  | .error stop => .stopped stop
  | .ok command => .ofResult (command.execute counting (dir.read command.path))

end ReaderGen
