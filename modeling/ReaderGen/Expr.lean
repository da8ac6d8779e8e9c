import ReaderGen.Token

/-!
# Expressions

The expressions that stand for sizes and subscripts, as trees. Only integer arithmetic over
variables and subscripted variables has a meaning here. The reader accepts more than that, so that
a refusal can name the reason and quote the whole expression; what has no meaning is kept as the
tokens it was read from.

`Expr.tokens` writes a tree as tokens. No brackets are added: the shape of the tree decides where
they stand.
-/

namespace ReaderGen

/-- An operator before its operand. -/
inductive UnaryOp
  | neg
  | not
  | deref
deriving DecidableEq, Repr

def UnaryOp.symbol : UnaryOp → String
  | neg => "-"
  | not => "!"
  | deref => "*"

/-- An operator between two operands. -/
inductive BinaryOp
  | add
  | sub
  | mul
  | div
  | rem
  /-- An operator that integer arithmetic does not have. -/
  | other (symbol : String)
deriving DecidableEq, Repr

namespace BinaryOp

def symbol : BinaryOp → String
  | add => "+"
  | sub => "-"
  | mul => "*"
  | div => "/"
  | rem => "%"
  | other symbol => symbol

def ofSymbol (symbol : String) : BinaryOp :=
  if symbol = "+" then add else if symbol = "-" then sub else if symbol = "*" then mul
  else if symbol = "/" then div else if symbol = "%" then rem else other symbol

/-- Operators that bind equally, from the tightest to the loosest. -/
def levels : List (List String) :=
  [["*", "/", "%"], ["+", "-"], ["<<", ">>"], ["&"], ["^"], ["|"],
   ["==", "!=", "<", "<=", ">", ">="], ["&&"], ["||"]]

end BinaryOp

/-- What may be done with a form that has no meaning here. -/
inductive Shape
  | plain
  /-- It ends in a block, so nothing has to separate it from what follows. -/
  | block
  /-- It is a range, of which no member can be named. -/
  | range
  /-- It is kept exactly as written. -/
  | verbatim
deriving DecidableEq, Repr

/-- An expression. -/
inductive Expr
  /-- An integer literal: its value, and how it is written. -/
  | int (value : Nat) (text : String)
  /-- A literal that is not an integer. -/
  | literal (text : String)
  /-- A variable. -/
  | name (id : String)
  /-- A qualified name. -/
  | path (tokens : List Token)
  /-- A subscripted expression. -/
  | index (array subscript : Expr)
  /-- An expression in round brackets. -/
  | paren (inner : Expr)
  /-- An expression in brackets that are not written. -/
  | group (inner : Expr)
  | unary (op : UnaryOp) (operand : Expr)
  | binary (op : BinaryOp) (left right : Expr)
  /-- An expression with attributes before it, which have no bearing on its meaning. -/
  | attributed (attributes : List Token) (inner : Expr)
  /-- Any other form. -/
  | foreign (shape : Shape) (tokens : List Token)
deriving DecidableEq, Repr

namespace Expr

/-- The tokens of an expression. -/
def tokens : Expr → List Token
  | int value text => [.int value text]
  | literal text => [.literal text]
  | name id => [.ident id]
  | path tokens => tokens
  | index array subscript => array.tokens ++ Token.bracketed .square subscript.tokens
  | paren inner => Token.bracketed .round inner.tokens
  | group inner => inner.tokens
  | unary op operand => Token.symbol op.symbol ++ operand.tokens
  | binary op left right => left.tokens ++ Token.symbol op.symbol ++ right.tokens
  | attributed attributes inner => attributes ++ inner.tokens
  | foreign _ tokens => tokens

/-- The shape of an expression. -/
def shape : Expr → Shape
  | attributed _ inner => inner.shape
  | foreign shape _ => shape
  | _ => .plain

/-- An expression with attributes before it, if there are any. -/
def withAttributes (attributes : List Token) (e : Expr) : Expr :=
  if attributes.isEmpty then e else attributed attributes e

/-- The expression as a message quotes it. -/
def quote (e : Expr) : String := Token.quote e.tokens

end Expr

end ReaderGen
