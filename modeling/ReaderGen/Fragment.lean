import ReaderGen.Code.Merge
import ReaderGen.Code.Schedule
import ReaderGen.Cpp.Emit

/-!
# Fragments of a program

The parts that a template for a program is filled with: a function that solves the problem is given
all variables of the format and returns the answer, and the code around it reads the one and writes
the other.
-/

namespace ReaderGen.Fragment

open Cpp

/-- The variable that holds the answer. -/
def answer : String := "ans"

/-- What is left to the reader of the generated code. -/
def fillIn : String := "  // TODO: edit here"

def returnType : String := "auto"

/-- A parameter; a reference is not set off from its name. -/
def parameter (config : Config) (d : Decl) : String :=
  let type := paramType config.std config.scalar d.sizes
  if type.toList.getLast? = some '&' then type ++ d.name else type ++ " " ++ d.name

/-- The parameters that receive all variables: `int N, const vector<int> &A`. -/
def parameterTypes (table : Table) (config : Config) : String :=
  ", ".intercalate (table.decls.map (parameter config))

/-- The arguments that pass all variables: `N, A`. -/
def parameterNames (table : Table) : String := ", ".intercalate table.names

/-- The text of indented code; where there is none, the run breaks off. -/
def indented : Option String → Except Error String
  | some text => .ok text
  | none => .error .indentation

/-- The code that declares and reads all variables. -/
def inputReading (counting : Layout.Counting) (format : Format) (table : Table) (config : Config)
    (nest : UInt64) : Except Error String := do
  let emitter ← config.emitter?.mapError .config
  let code ← format.schedule table
  indented (emitter.render? counting code.optimize nest)

/-- Marks the last line as the place to edit. -/
def markLast : List String → List String
  | [] => []
  | [line] => [line ++ fillIn]
  | line :: lines => line :: markLast lines

/-- The code that writes the answer. -/
def outputStub (counting : Layout.Counting) (config : Config) (nest : UInt64) :
    Except Error String := do
  let emitter ← config.emitter?.mapError .config
  indented (Layout.render? counting config.indent nest (markLast (emitter.lines (.write [answer]))))

end ReaderGen.Fragment
