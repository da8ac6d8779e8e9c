/-!
# Similar words

Whether a word looks like a misspelling of another one. Letters match if they are equal and stand at
nearly the same place; the share of letters that match, of those that match in order, and the length
of the common beginning make up a score, and words are similar if it exceeds four fifths.

The score is a fraction, so it is compared exactly.
-/

namespace ReaderGen.Text

/-- The first place between `low` and `high`, not yet taken, where a letter stands. The letters are
those from place `j` on. -/
def matchIndex (c : Char) (low high : Nat) (taken : List Nat) : Nat → List Char → Option Nat
  | _, [] => none
  | j, d :: ds =>
    if low ≤ j && j ≤ high && c = d && !taken.contains j then some j
    else matchIndex c low high taken (j + 1) ds

/-- The places in `b` that match the letters from place `i` on, each within `range` of its own. -/
def matchIndices (b : List Char) (range : Nat) (taken : List Nat) : Nat → List Char → List Nat
  | _, [] => []
  | i, c :: cs =>
    match matchIndex c (i - range) (i + range) taken 0 b with
    | some j => j :: matchIndices b range (j :: taken) (i + 1) cs
    | none => matchIndices b range taken (i + 1) cs

/-- How often a place comes before the one in front of it. -/
def descents : List Nat → Nat
  | [] => 0
  | [_] => 0
  | i :: j :: rest => (if j < i then 1 else 0) + descents (j :: rest)

/-- Length of the common beginning. -/
def sharedStart : List Char → List Char → Nat
  | a :: as, b :: bs => if a = b then sharedStart as bs + 1 else 0
  | _, _ => 0

/-- Whether two words are similar. With `m` letters that match, `t` of them out of order, and a common
beginning of length `s`, the score is `j + s / 10 * (1 - j)`, where `j` is the mean of the shares of
matching letters in both words and of `(m - t) / m`. -/
def similar (a b : String) : Bool :=
  let (as, bs) := (a.toList, b.toList)
  let (la, lb) := (as.length, bs.length)
  let found := matchIndices bs (max la lb / 2 - 1) [] 0 as
  let (m, t) := (found.length, descents found)
  let num := m * m * lb + m * m * la + (m - t) * la * lb
  let den := 3 * la * lb * m
  8 * den < 10 * num + sharedStart as bs * (den - num)

end ReaderGen.Text
