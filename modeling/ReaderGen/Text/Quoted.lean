import ReaderGen.Text.Identifier
import ReaderGen.Text.Quoted.Table

/-!
# Quoted text

A text in double quotes, on one line and with every character to be seen: quotes, backslashes and
line ends are written after a backslash, and what does not show by its code point in braces.
-/

namespace ReaderGen.Text

/-- Whether a character shows by itself. -/
def isVisible (c : Char) : Bool :=
  if c.toNat < 0x80 then 0x20 ≤ c.toNat && c.toNat ≠ 0x7f
  else !inRanges invisibleRanges c.toNat

/-- One character of a quoted text. -/
def quoteChar (c : Char) : String :=
  match c with
  | '\x00' => "\\0"
  | '\t' => "\\t"
  | '\n' => "\\n"
  | '\r' => "\\r"
  | '"' => "\\\""
  | '\\' => "\\\\"
  | c =>
    if isVisible c then String.singleton c
    else "\\u\x7b" ++ String.ofList (Nat.toDigits 16 c.toNat) ++ "\x7d"

/-- A text in quotes. -/
def quoted (text : String) : String := "\"" ++ String.join (text.toList.map quoteChar) ++ "\""

end ReaderGen.Text
