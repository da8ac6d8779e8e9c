import ReaderGen.Canonical
import ReaderGen.Code
import ReaderGen.Decl.Table
import ReaderGen.Format

/-!
# Scheduling declarations

`schedule` turns a format into code that reads its items, and puts the declaration of each variable
at the earliest place: before the first part of the format at which everything that its sizes depend
on has been read. What is declared at the same place is declared together, in the order of the table.

A counter counts as declared within its loop, and is forgotten after it, unless it was declared
before. This holds as well when the body of the loop fails, so every step gives the state it leaves
behind beside its result.
-/

namespace ReaderGen

/-- What is known when a part of a format is reached. -/
structure Progress where
  /-- Variables declared so far, and the counters of the enclosing loops. -/
  declared : Names
  /-- Variables read so far. -/
  initialized : Names
deriving DecidableEq, Repr

namespace Progress

def start : Progress := ⟨.empty, .empty⟩

/-- The declarations that can be made now, in the order of the table. -/
def ready (table : Table) (p : Progress) : List Decl :=
  table.decls.filter (fun d => !p.declared.contains d.name && d.after.subset p.initialized)

def declare (decls : List Decl) (p : Progress) : Progress :=
  { p with declared := decls.foldl (fun names d => names.insert d.name) p.declared }

def markRead (name : String) (p : Progress) : Progress :=
  { p with initialized := p.initialized.insert name }

end Progress

namespace Format

/-- The subscripts of a target: each index, counted from the base of its dimension. -/
def subscripts (indices bases : List String) : Except ExprError String := do
  let offsets ← (indices.zip bases).mapM
    (fun (index, base) => simplify (index ++ " - (" ++ base ++ ")"))
  return String.join (offsets.map (fun offset => "[" ++ offset ++ "]"))

/-- Reads one item. -/
def readItem (table : Table) (name : String) (indices : List String) (p : Progress) :
    Except Error Code × Progress :=
  if name ∈ p.declared then
    match table.get? name with
    | none => (.error (.scheduling (.notInTable name)), p)
    | some d =>
      match subscripts indices d.bases with
      | .error e => (.error (.expr e), p)
      | .ok subscripts => (.ok (.read [name ++ subscripts]), p.markRead name)
  else (.error (.scheduling (.undeclared name)), p)

/-- Makes the declarations that are ready, before the code of a part of the format. -/
def declaring (table : Table) (p : Progress)
    (code : Progress → Except Error Code × Progress) : Except Error Code × Progress :=
  let ready := p.ready table
  match code (p.declare ready) with
  | (.ok code, p) => (.ok (if ready.isEmpty then code else .block [.decl ready, code]), p)
  | (.error e, p) => (.error e, p)

/-- Keeps a counter declared while the body of its loop is scheduled. -/
def counting (counter : String) (p : Progress)
    (body : Progress → Except Error Code × Progress) : Except Error Code × Progress :=
  if counter ∈ p.declared then body p
  else
    let (code, p) := body { p with declared := p.declared.insert counter }
    (code, { p with declared := p.declared.erase counter })

mutual

/-- The code of a part of a format, and what is known after it. -/
def visit (table : Table) : Format → Progress → Except Error Code × Progress
  | .item name indices, p => declaring table p (readItem table name indices)
  | .newline, p => declaring table p (fun p => (.ok (.block []), p))
  | .sequence items, p =>
    declaring table p fun p =>
      let (codes, p) := visitAll table items p
      (codes.map Code.block, p)
  | .loop counter size body, p =>
    declaring table p fun p =>
      let (code, p) := counting counter p (visit table body)
      (code.map (Code.loop counter size), p)

/-- The codes of the parts of a format, one after the other, up to the first that fails. -/
def visitAll (table : Table) : List Format → Progress → Except Error (List Code) × Progress
  | [], p => (.ok [], p)
  | f :: fs, p =>
    match visit table f p with
    | (.error e, p) => (.error e, p)
    | (.ok code, p) =>
      match visitAll table fs p with
      | (.error e, p) => (.error e, p)
      | (.ok codes, p) => (.ok (code :: codes), p)

end

/-- The code that reads a format into the variables of a table. -/
def schedule (f : Format) (table : Table) : Except Error Code := (visit table f .start).1

end Format

end ReaderGen
