import ReaderGen.Decl

/-!
# Code trees

A code tree is what is to be done, statement by statement, before it is written in the syntax of the
generated code. Targets, expressions and sizes are kept as text.
-/

namespace ReaderGen

inductive Code
  | decl (decls : List Decl)
  | read (targets : List String)
  | write (exprs : List String)
  | block (nodes : List Code)
  /-- The body, for each value of the counter from 0 to below the size. -/
  | loop (counter size : String) (body : Code)
  /-- A line that is written as it stands. -/
  | line (text : String)
deriving Repr

namespace Code

/-! ## Equality -/

mutual

def decEq : (a b : Code) → Decidable (a = b)
  | decl xs, b =>
    match b with
    | decl ys => decidable_of_iff (xs = ys) (by simp)
    | read _ | write _ | block _ | loop _ _ _ | line _ => isFalse nofun
  | read xs, b =>
    match b with
    | read ys => decidable_of_iff (xs = ys) (by simp)
    | decl _ | write _ | block _ | loop _ _ _ | line _ => isFalse nofun
  | write xs, b =>
    match b with
    | write ys => decidable_of_iff (xs = ys) (by simp)
    | decl _ | read _ | block _ | loop _ _ _ | line _ => isFalse nofun
  | block xs, b =>
    match b with
    | block ys =>
      match decEqAll xs ys with
      | isTrue h => isTrue (by rw [h])
      | isFalse h => isFalse (by simpa using h)
    | decl _ | read _ | write _ | loop _ _ _ | line _ => isFalse nofun
  | loop i m x, b =>
    match b with
    | loop j n y =>
      match decEq x y with
      | isTrue h => decidable_of_iff (i = j ∧ m = n) (by simp [h])
      | isFalse h => isFalse (by simp [h])
    | decl _ | read _ | write _ | block _ | line _ => isFalse nofun
  | line x, b =>
    match b with
    | line y => decidable_of_iff (x = y) (by simp)
    | decl _ | read _ | write _ | block _ | loop _ _ _ => isFalse nofun

def decEqAll : (xs ys : List Code) → Decidable (xs = ys)
  | [], [] => isTrue rfl
  | [], _ :: _ => isFalse nofun
  | _ :: _, [] => isFalse nofun
  | x :: xs, y :: ys =>
    match decEq x y, decEqAll xs ys with
    | isTrue h, isTrue h' => isTrue (by rw [h, h'])
    | isFalse h, _ => isFalse (by simp [h])
    | _, isFalse h => isFalse (by simp [h])

end

instance : DecidableEq Code := decEq

/-! ## Merging two statements -/

/-- The two statements as one, if both declare, both read or both write. -/
def merge? : Code → Code → Option Code
  | decl xs, decl ys => some (decl (xs ++ ys))
  | read xs, read ys => some (read (xs ++ ys))
  | write xs, write ys => some (write (xs ++ ys))
  | _, _ => none

end Code

end ReaderGen
