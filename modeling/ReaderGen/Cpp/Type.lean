/-!
# Types of the generated code

An array is a vector of vectors, constructed with its sizes: `vector<vector<int> > A(N,
vector<int>(M))`. Two closing angle brackets are kept apart by a space.
-/

namespace ReaderGen.Cpp

/-- The integers that are read. -/
inductive Scalar
  | int
  | int64
deriving DecidableEq, Repr

namespace Scalar

def name : Scalar → String
  | int => "int"
  | int64 => "int64_t"

/-- How the type is called in a format string. -/
def spec : Scalar → String
  | int => "%d"
  | int64 => "%lld"

end Scalar

/-- The type of vectors of `item`; `std` stands before the name of the library's type. -/
def vectorOf (std item : String) : String :=
  let space := if item.toList.getLast? = some '>' then " " else ""
  std ++ "vector<" ++ item ++ space ++ ">"

/-- A type, and the constructor arguments that give a variable of it its shape. -/
structure Shape where
  type : String
  ctor : String
deriving DecidableEq, Repr

/-- The shape of vectors of `size` elements of a shape. -/
def Shape.vector (std size : String) (item : Shape) : Shape where
  type := vectorOf std item.type
  ctor :=
    if item.ctor.isEmpty then "(" ++ size ++ ")"
    else "(" ++ size ++ ", " ++ item.type ++ item.ctor ++ ")"

/-- The shape of a variable with the given sizes, outermost first. -/
def shape (std : String) (scalar : Scalar) (sizes : List String) : Shape :=
  sizes.foldr (Shape.vector std) ⟨scalar.name, ""⟩

/-- The type of a parameter that receives a variable: an array is passed by reference. -/
def paramType (std : String) (scalar : Scalar) (sizes : List String) : String :=
  let type := (shape std scalar sizes).type
  if sizes.isEmpty then type else "const " ++ type ++ " &"

end ReaderGen.Cpp
