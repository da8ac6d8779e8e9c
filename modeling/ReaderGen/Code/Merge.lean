import ReaderGen.Code

/-!
# Merging statements

`Code.optimize` dissolves blocks within blocks and merges neighbouring declarations, reads and
writes, from the inside out. It reaches its normal form in one pass: the children of an optimized
block are no blocks themselves, so that dissolving one level is enough.
-/

namespace ReaderGen.Code

/-- The children of a block, and any other node by itself. -/
def unfold : Code → List Code
  | block nodes => nodes
  | node => [node]

/-- Merges a node with what follows it, as far as that goes, and then the rest. -/
def absorb (node : Code) : List Code → List Code
  | [] => [node]
  | next :: rest =>
    match node.merge? next with
    | some merged => absorb merged rest
    | none => node :: absorb next rest

/-- Merges neighbouring nodes. -/
def mergeAdjacent : List Code → List Code
  | [] => []
  | node :: rest => absorb node rest

mutual

/-- Dissolves inner blocks and merges neighbouring statements. -/
def optimize : Code → Code
  | block nodes => block (mergeAdjacent ((optimizeAll nodes).flatMap unfold))
  | loop counter size body => loop counter size (optimize body)
  | decl decls => decl decls
  | read targets => read targets
  | write exprs => write exprs
  | line text => line text

def optimizeAll : List Code → List Code
  | [] => []
  | node :: rest => optimize node :: optimizeAll rest

end

end ReaderGen.Code
