import ReaderGen.Expr

/-!
# Chains of operands

Reading an expression first yields a chain: operands joined by operators, left to right. How
tightly an operator binds is settled afterwards. `mergeLevel` joins the neighbours of all
operators of one level, from the left; `resolve` does so for each level, the tightest first.
-/

namespace ReaderGen

/-- An operator of a chain, with the operand after it. -/
inductive Link
  /-- A binary operator. -/
  | binary (op : BinaryOp) (operand : Expr)
  /-- An assignment or a range, which binds more loosely than any binary operator. The operand
  after a range may be missing. -/
  | loose (symbol : String) (operand : Option Expr)
deriving DecidableEq, Repr

namespace Link

def tokens : Link → List Token
  | binary op operand => Token.symbol op.symbol ++ operand.tokens
  | loose symbol (some operand) => Token.symbol symbol ++ operand.tokens
  | loose symbol none => Token.symbol symbol

/-- The operator and its operand, if the link is a binary operator. -/
def binary? : Link → Option (BinaryOp × Expr)
  | binary op operand => some (op, operand)
  | loose _ _ => none

end Link

namespace Chain

/-- Joins the neighbours of each operator that belongs to the level, from the left. -/
def mergeLevel (level : List String) :
    Expr → List (BinaryOp × Expr) → Expr × List (BinaryOp × Expr)
  | e, [] => (e, [])
  | e, (op, x) :: rest =>
    if level.contains op.symbol then mergeLevel level (.binary op e x) rest
    else
      let (x, rest) := mergeLevel level x rest
      (e, (op, x) :: rest)

/-- The tree of a chain of binary operators. -/
def resolve (first : Expr) (rest : List (BinaryOp × Expr)) : Expr :=
  (BinaryOp.levels.foldl (fun chain level => mergeLevel level chain.1 chain.2) (first, rest)).1

/-- The tree of a chain. An assignment or a range anywhere in it makes it a foreign form. -/
def toExpr (first : Expr) (links : List Link) : Expr :=
  match links.mapM Link.binary? with
  | some rest => resolve first rest
  | none => .foreign .plain (first.tokens ++ links.flatMap Link.tokens)

theorem mergeLevel_nil (level : List String) (e : Expr) : mergeLevel level e [] = (e, []) := rfl

theorem toExpr_nil (e : Expr) : toExpr e [] = e := rfl

end Chain

end ReaderGen
