import ReaderGen.Canonical
import ReaderGen.Decl.Table
import ReaderGen.Format

/-!
# The variables of a format

The declaration of a variable is found where it is first read, outside of loops whose counter has its
name. Each subscript there must be the counter of an enclosing loop plus an offset that depends on no
counter: the size of that loop is the size of the dimension, and the offset its base.
-/

namespace ReaderGen.Format

/-- A loop around a part of a format. -/
structure Enclosing where
  counter : String
  size : String
deriving DecidableEq, Repr

/-- Whether an expression depends on the counter of an enclosing loop. -/
def usesCounter (loops : List Enclosing) (expr : String) : Except ExprError Bool := do
  let vars ← freeVars expr
  return loops.any (fun l => vars.contains l.counter)

/-- The dimension that a subscript gives an array. The loops are listed from the inside out. -/
def dimension (loops : List Enclosing) (name index : String) : Except ExprError Dimension := do
  let unsupported := ExprError.unsupportedIndex name index
  let vars ← freeVars index
  match loops.find? (fun l => vars.contains l.counter) with
  | none => .error unsupported
  | some l =>
    -- The array is declared before the loop is entered, so its size must be known there.
    if ← usesCounter loops l.size then .error unsupported
    else
      match ← offsetFrom index l.counter with
      | none => .error unsupported
      | some base =>
        if ← usesCounter loops base then .error unsupported
        else return ⟨l.size, base⟩

mutual

/-- Adds the variables that are not in the table yet, in the order of their first use. -/
def addVariables (loops : List Enclosing) : Format → Table → Except ExprError Table
  | .item name indices, table =>
    if known : name ∈ table.names then .ok table
    else if loops.any (·.counter = name) then .ok table
    else do
      let dims ← indices.mapM (dimension loops name)
      let vars ← dims.mapM (fun d => freeVars d.size)
      return table.push ⟨name, dims, Names.unions vars⟩ known
  | .newline, table => .ok table
  | .sequence items, table => addAllVariables loops items table
  | .loop counter size body, table => addVariables (⟨counter, size⟩ :: loops) body table

def addAllVariables (loops : List Enclosing) : List Format → Table → Except ExprError Table
  | [], table => .ok table
  | f :: fs, table => do
    let table ← addVariables loops f table
    addAllVariables loops fs table

end

/-- The declarations of the variables that a format reads. -/
def table (f : Format) : Except ExprError Table := addVariables [] f .empty

end ReaderGen.Format
