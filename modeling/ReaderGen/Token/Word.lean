/-!
# Words

Not every word may name a variable. Those that may not are reserved, a few of them because they stand
for something that can be named.
-/

namespace ReaderGen.Word

/-- Words that are not names. -/
def reserved : List String :=
  ["_", "abstract", "as", "become", "box", "break", "const", "continue", "crate", "do", "else",
   "enum", "extern", "false", "final", "fn", "for", "if", "impl", "in", "let", "loop", "macro",
   "match", "mod", "move", "mut", "override", "priv", "pub", "ref", "return", "Self", "self",
   "static", "struct", "super", "trait", "true", "type", "typeof", "unsafe", "unsized", "use",
   "virtual", "where", "while", "yield"]

/-- Reserved words that stand for something that can be named. -/
def places : List String := ["self", "Self", "super", "crate"]

def isName (word : String) : Bool := !reserved.contains word

/-- Whether a word may stand in a qualified name. -/
def isSegment (word : String) : Bool := isName word || places.contains word

theorem isSegment_of_isName {word : String} (h : isName word = true) : isSegment word = true := by
  simp [isSegment, h]

end ReaderGen.Word
