import ReaderGen.Code
import ReaderGen.Cpp.Config
import ReaderGen.Layout

/-!
# Writing code

A code tree is written line by line. Neighbouring declarations of the same type share a line.
-/

namespace ReaderGen.Cpp.Emitter

/-! ## Declarations -/

/-- Variables of one type, each with its constructor arguments. -/
structure Group where
  type : String
  vars : List (String × String)
deriving DecidableEq, Repr

/-- Puts a variable before the groups that follow it, in the first one if the type is the same. -/
def Group.cons (type name ctor : String) : List Group → List Group
  | [] => [⟨type, [(name, ctor)]⟩]
  | g :: gs =>
    if g.type = type then ⟨type, (name, ctor) :: g.vars⟩ :: gs
    else ⟨type, [(name, ctor)]⟩ :: g :: gs

/-- The maximal runs of declarations of the same type. -/
def groups (e : Emitter) : List Decl → List Group
  | [] => []
  | d :: ds =>
    let shape := shape e.std e.scalar d.sizes
    Group.cons shape.type d.name shape.ctor (groups e ds)

/-- `vector<int> A(N), B(N);` -/
def Group.line (g : Group) : String :=
  g.type ++ " " ++ ", ".intercalate (g.vars.map fun (name, ctor) => name ++ ctor) ++ ";"

/-! ## Lines -/

mutual

/-- The lines of a code tree, not yet indented. -/
def lines (e : Emitter) : Code → List String
  | .decl decls => (e.groups decls).map Group.line
  | .read targets => [e.scan targets]
  | .write exprs => [e.print exprs]
  | .block nodes => allLines e nodes
  | .loop counter size body => (e.header counter size ++ " \x7b") :: lines e body ++ ["\x7d"]
  | .line text => [text]

def allLines (e : Emitter) : List Code → List String
  | [] => []
  | node :: rest => lines e node ++ allLines e rest

end

/-- A code tree as indented text. -/
def render? (counting : Layout.Counting) (e : Emitter) (code : Code) (nest : UInt64) : Option String :=
  Layout.render? counting e.indent nest (e.lines code)

end ReaderGen.Cpp.Emitter
