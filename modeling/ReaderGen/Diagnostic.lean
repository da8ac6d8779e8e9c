import ReaderGen.Text.Source
import ReaderGen.Text.Width

/-!
# Diagnostics

A diagnostic shows a message above the whole source text, with the place it is about underlined:

```text
error: expected `;`
 --> format:1:8
  |
1 | read N M;
  |        ^ here
  |
```

A place that spans several lines is marked in a column of its own, from the first line to the last.
-/

namespace ReaderGen.Diagnostic

/-! ## Colors -/

/-- How the parts of a diagnostic are set off from each other. -/
structure Palette where
  error : String → String
  gutter : String → String
  strong : String → String

namespace Palette

def plain : Palette := ⟨id, id, id⟩

/-- Terminal colors: red for errors, blue for the gutter, both bold. -/
def colored : Palette := ⟨paint "1;38;5;9", paint "1;38;5;12", paint "1"⟩
where
  paint (code text : String) : String := "\x1b[" ++ code ++ "m" ++ text ++ "\x1b[0m"

def choose (color : Bool) : Palette := if color then colored else plain

end Palette

/-! ## Source lines -/

/-- The columns that the first `n` characters take. The end of the line takes one. -/
def columns : Nat → List Char → Nat
  | 0, _ => 0
  | _ + 1, [] => 1
  | n + 1, c :: cs => Text.width c + columns n cs

/-- A line as it is shown, and the index of its first character in the source. -/
structure SourceLine where
  text : List Char
  first : Nat
deriving DecidableEq, Repr

namespace SourceLine

/-- The index of the end of the line. -/
def last (l : SourceLine) : Nat := l.first + l.text.length

/-- The column at which the character at index `x` is shown. -/
def column (l : SourceLine) (x : Nat) : Nat := columns (x - l.first) l.text

/-- Whether the place from `start` to `stop` is shown under this line alone. -/
def holds (start stop : Nat) (l : SourceLine) : Bool :=
  l.first ≤ start && stop ≤ l.last || start = l.last && stop - start ≤ 1

end SourceLine

/-- A line without the carriage return before its newline. -/
def dropReturn (line : List Char) : List Char :=
  if line.getLast? = some '\r' then line.dropLast else line

/-- The lines shown, the first of which begins at index `first`. Nothing is shown after the last
newline if nothing follows it. -/
def sourceLines (first : Nat) : List (List Char) → List SourceLine
  | [] => []
  | [line] => if line.isEmpty then [] else [⟨line, first⟩]
  | line :: lines => ⟨dropReturn line, first⟩ :: sourceLines (first + line.length + 1) lines

/-- The line and column of the character at index `start`, both counted from 1. -/
def origin (start : Nat) (lines : List SourceLine) : Nat × Nat :=
  match lines.findIdx? (fun l => l.first ≤ start && start ≤ l.last) with
  | none => (1, 1)
  | some k => (k + 1, start - (lines.getD k ⟨[], 0⟩).first + 1)

/-! ## Rows -/

/-- What a row shows after the gutter. -/
inductive Content
  | source (number : Nat) (text : List Char)
  /-- Carets after an indentation of `indent + 1` times the character `fill`. -/
  | underline (fill : Char) (indent carets : Nat) (label : Bool)
deriving DecidableEq, Repr

/-- A row of the diagnostic, and its mark if it is part of a place of several lines. -/
structure Row where
  mark : Option Char
  content : Content
deriving DecidableEq, Repr

/-- The rows for a line when the place is on one line. -/
def rowsAlone (start stop number : Nat) (l : SourceLine) : List Row :=
  let source : Row := ⟨none, .source number l.text⟩
  if l.holds start stop then
    [source, ⟨none, .underline ' ' (l.column start) (l.column stop - l.column start) true⟩]
  else [source]

/-- The rows for a line when the place spans several lines. -/
def rowsAmong (start stop number : Nat) (l : SourceLine) : List Row :=
  let source (mark : Option Char) : Row := ⟨mark, .source number l.text⟩
  if l.first ≤ start && start ≤ l.last && l.last < stop then
    if start = l.first then [source (some '/')]
    else [source none, ⟨none, .underline '_' (l.column start) 1 false⟩]
  else if start < l.first && l.last < stop then [source (some '|')]
  else if start < l.first && l.first ≤ stop && stop ≤ l.last then
    [source (some '|'), ⟨some '|', .underline '_' (l.column stop - 1) 1 true⟩]
  else [source none]

/-- All rows, with the lines numbered from 1. -/
def rows (start stop : Nat) (lines : List SourceLine) : List Row :=
  let rowsFor := if lines.any (·.holds start stop) then rowsAlone else rowsAmong
  (lines.zipIdx 1).flatMap (fun (l, number) => rowsFor start stop number l)

/-! ## Text -/

def times (n : Nat) (c : Char) : String := String.ofList (List.replicate n c)

/-- The gutter, `digits` wide. -/
def gutterText (palette : Palette) (digits : Nat) (number : String) : String :=
  palette.gutter (times (digits - number.length) ' ' ++ number ++ " |")

def Content.text (palette : Palette) : Content → String
  | source _ text => " " ++ String.ofList text
  | underline fill indent carets label =>
    palette.error (times (indent + 1) fill ++ times carets '^') ++
      if label then " " ++ palette.error "here" else ""

def Content.number : Content → String
  | source number _ => number.repr
  | underline .. => ""

/-- A row as text; `marked` says whether there is a column for marks. -/
def Row.text (palette : Palette) (digits : Nat) (marked : Bool) (row : Row) : String :=
  let mark := match row.mark with
    | some c => " " ++ palette.error (String.singleton c)
    | none => if marked then "  " else ""
  gutterText palette digits row.content.number ++ mark ++ row.content.text palette

/-- The diagnostic for the place from `start` to `stop`. There is none if the place ends after the
source. -/
def render (color : Bool) (name : String) (source : List Char) (message : String)
    (start stop : Nat) : Option String :=
  if source.length < stop then none
  else
    let palette := Palette.choose color
    let lines := sourceLines 0 (Source.lines source)
    let digits := if lines.isEmpty then 0 else lines.length.repr.length
    let (line, column) := origin start lines
    let rows := rows start stop lines
    let marked := rows.any (·.mark.isSome)
    let empty := gutterText palette digits ""
    some ("\n".intercalate
      ([palette.error "error" ++ ": " ++ palette.strong message,
        times digits ' ' ++ palette.gutter "-->" ++ s!" {name}:{line}:{column}",
        empty] ++ rows.map (·.text palette digits marked) ++ [empty]))

end ReaderGen.Diagnostic
