/-!
# Directories

A directory as a list of files, each under its path. A path is looked up from the left, one component
at a time. Above the directory nothing is known but that it exists.
-/

namespace ReaderGen

/-- Why a text cannot be read from a file. -/
inductive Unreadable
  | missing
  | isDirectory
  /-- A file is used as a directory. -/
  | notDirectory
  | notText
deriving DecidableEq, Repr

def Unreadable.message : Unreadable → String
  | missing => "No such file or directory (os error 2)"
  | isDirectory => "Is a directory (os error 21)"
  | notDirectory => "Not a directory (os error 20)"
  | notText => "stream did not contain valid UTF-8"

/-- Files and what they hold, each under the components of its path. -/
structure Directory where
  files : List (List String × ByteArray)

namespace Directory

/-- What a path leads to. -/
inductive Entry
  | file (bytes : ByteArray)
  | folder (path : List String)
  /-- The directory that holds everything, or one above it. -/
  | above

/-- What a path below the directory leads to. -/
def entryAt (dir : Directory) (path : List String) : Except Unreadable Entry :=
  match dir.files.lookup path with
  | some bytes => .ok (.file bytes)
  | none => if dir.files.any (path.isPrefixOf ·.1) then .ok (.folder path) else .error .missing

/-- Follows one component of a path. -/
def step (dir : Directory) (entry : Entry) (component : String) : Except Unreadable Entry :=
  match entry with
  | .file _ => .error .notDirectory
  | .folder path =>
    if component = "" || component = "." then .ok entry
    else if component = ".." then .ok (if path.isEmpty then .above else .folder path.dropLast)
    else dir.entryAt (path ++ [component])
  | .above =>
    if component = "" || component = "." || component = ".." then .ok entry else .error .missing

/-- What a path leads to. -/
def find (dir : Directory) (path : String) : Except Unreadable Entry :=
  if path.isEmpty then .error .missing
  else (path.splitOn "/").foldlM dir.step (if path.toList.head? = some '/' then .above else .folder [])

/-- The text of bytes. -/
def decode (bytes : ByteArray) : Except Unreadable String :=
  match String.fromUTF8? bytes with
  | some text => .ok text
  | none => .error .notText

/-- The text of a file. -/
def read (dir : Directory) (path : String) : Except Unreadable String := do
  match ← dir.find path with
  | .file bytes => decode bytes
  | .folder _ | .above => .error .isDirectory

end Directory

end ReaderGen
