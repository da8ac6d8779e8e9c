/-!
# Formats

A format says in which order the items of an input are read, where its lines end, and which parts of
it are repeated. Sizes and indices are expressions, kept as text.
-/

namespace ReaderGen

inductive Format
  /-- A variable, or an element of an array. -/
  | item (name : String) (indices : List String)
  | newline
  | sequence (items : List Format)
  /-- The body, for each value of the counter from 0 to below the size. -/
  | loop (counter size : String) (body : Format)
deriving Repr

end ReaderGen
