import ReaderGen.Text.Identifier

/-!
# Literals

The literal at the beginning of a text, if there is one: a number, a character or a string. Each
function returns the number of characters that the literal takes. A literal may end in a suffix,
an identifier written directly after it, which has no bearing on its value.

Integers may be written in base 2, 8, 10 or 16, with underscores between the digits. A number with
a point or an exponent is not an integer.
-/

namespace ReaderGen.Literal

open Text

/-! ## Numbers -/

/-- Length of the identifier at the beginning of a text, 0 if there is none. -/
def suffixLength (cs : List Char) : Nat :=
  match identifierAt cs with
  | some name => name.length
  | none => 0

/-- Value of a digit in bases up to 16. -/
def digitValue? (c : Char) : Option Nat :=
  if '0' ≤ c ∧ c ≤ '9' then some (c.toNat - '0'.toNat)
  else if 'a' ≤ c ∧ c ≤ 'f' then some (c.toNat - 'a'.toNat + 10)
  else if 'A' ≤ c ∧ c ≤ 'F' then some (c.toNat - 'A'.toNat + 10)
  else none

/-- The base announced at the beginning of an integer, and the length of the announcement. -/
def baseAt : List Char → Nat × Nat
  | '0' :: 'x' :: _ => (16, 2)
  | '0' :: 'o' :: _ => (8, 2)
  | '0' :: 'b' :: _ => (2, 2)
  | _ => (10, 0)

/-- Digits of an integer, with underscores: the value so far (`none` before the first digit) and
the number of characters read so far are carried along. A decimal digit that is too large for the
base spoils the literal, a letter that is too large ends it. -/
def digitsAt (base : Nat) : Option Nat → Nat → List Char → Option (Nat × Nat)
  | value, n, [] => value.map (·, n)
  | value, n, c :: cs =>
    if c = '_' then
      if value.isNone && base = 10 then none else digitsAt base value (n + 1) cs
    else
      match digitValue? c with
      | none => value.map (·, n)
      | some d =>
        if d < base then digitsAt base (some (value.getD 0 * base + d)) (n + 1) cs
        else if c.isDigit then none
        else value.map (·, n)

/-- A number together with its suffix must end where an identifier could not go on. -/
def withSuffix (length : Nat) (cs : List Char) : Option Nat :=
  let rest := cs.drop length
  let total := length + suffixLength rest
  match cs.drop total with
  | [] => some total
  | c :: _ => if isIdentifierPart c then none else some total

/-- An integer: its value and its length. -/
def intAt (cs : List Char) : Option (Nat × Nat) :=
  let (base, announced) := baseAt cs
  match digitsAt base none 0 (cs.drop announced) with
  | none => none
  | some (value, n) => (withSuffix (announced + n) cs).map (value, ·)

/-- Whether an integer has no suffix. -/
def isUnsuffixed (cs : List Char) : Bool :=
  let (base, announced) := baseAt cs
  match digitsAt base none 0 (cs.drop announced) with
  | some (_, n) => announced + n = cs.length
  | none => false

def isDigitOrUnderscore (c : Char) : Bool := c.isDigit || c = '_'

/-- Length of an exponent after its letter. One sign may come before the first digit. -/
def exponentAt (signed valued : Bool) (n : Nat) : List Char → Option Nat
  | [] => if valued then some n else none
  | c :: cs =>
    if c = '+' || c = '-' then
      if valued then some n else if signed then none else exponentAt true false (n + 1) cs
    else if c.isDigit then exponentAt signed true (n + 1) cs
    else if c = '_' then exponentAt signed valued (n + 1) cs
    else if valued then some n else none

/-- Length of a number with a point, an exponent or both, less its suffix. A point that is
followed by another point or by a letter is not part of the number. -/
def fractionAt (cs : List Char) : Option Nat :=
  match cs with
  | [] => none
  | c :: rest =>
    if !c.isDigit then none
    else
      let whole := 1 + (rest.takeWhile isDigitOrUnderscore).length
      match cs.drop whole with
      | '.' :: after =>
        match after with
        | d :: _ => if d = '.' || isIdentifierStart d then none else some (fraction whole after)
        | [] => some (whole + 1)
      | d :: after =>
        if d = 'e' || d = 'E' then (exponentAt false false 0 after).map (whole + 1 + ·) else none
      | [] => none
where
  /-- Length up to the end of the digits after the point, and of an exponent if it is complete. -/
  fraction (whole : Nat) (after : List Char) : Nat :=
    let places := (after.takeWhile isDigitOrUnderscore).length
    let length := whole + 1 + places
    match after.drop places with
    | d :: rest =>
      if d = 'e' || d = 'E' then
        match exponentAt false false 0 rest with
        | some n => length + 1 + n
        | none => length
      else length
    | [] => length

/-- A number that is not an integer: its length. -/
def floatAt (cs : List Char) : Option Nat :=
  (fractionAt cs).bind (withSuffix · cs)

/-! ## Characters and strings -/

/-- Which characters and escapes a string or character may hold. -/
inductive Content
  /-- Any character, with escapes for code points. -/
  | text
  /-- ASCII characters only, with escapes for bytes. -/
  | bytes
  /-- Any character but the null one, which ends the text, with escapes for bytes and code points. -/
  | ended
deriving DecidableEq, Repr

/-- Whether a character may stand for itself. -/
def Content.admits : Content → Char → Bool
  | text, _ => true
  | bytes, c => c.toNat < 0x80
  | ended, c => c ≠ '\x00'

def isHexDigit (c : Char) : Bool := (digitValue? c).isSome

/-- The rest of a code point escape, after its opening brace: its value and its length. -/
def codePointAt (value digits n : Nat) : List Char → Option (Nat × Nat)
  | [] => none
  | c :: cs =>
    match digitValue? c with
    | some d => if digits = 6 then none else codePointAt (value * 16 + d) (digits + 1) (n + 1) cs
    | none =>
      if digits = 0 then none
      else if c = '_' then codePointAt value digits (n + 1) cs
      else if c = '\x7d' && Nat.isValidChar value then some (value, n + 1)
      else none

/-- Whether two hexadecimal digits make a byte that an escape may stand for. -/
def Content.admitsByte : Content → Char → Char → Bool
  | text, high, _ => '0' ≤ high && high ≤ '7'
  | bytes, _, _ => true
  | ended, high, low => high ≠ '0' || low ≠ '0'

/-- Length of an escape after its backslash, line continuations apart. -/
def escapeAt (content : Content) : List Char → Option Nat
  | 'x' :: high :: low :: _ =>
    if isHexDigit high && isHexDigit low && content.admitsByte high low then some 3 else none
  | 'u' :: '\x7b' :: cs =>
    match content, codePointAt 0 0 0 cs with
    | .bytes, _ => none
    | .ended, some (0, _) => none
    | _, found => found.map (2 + ·.2)
  | '0' :: _ => if content = .ended then none else some 1
  | c :: _ => if ['n', 'r', 't', '\\', '\'', '"'].contains c then some 1 else none
  | [] => none

/-- Length of a string after its opening quote, up to and including the closing one. Characters
that belong to an escape already read are counted down in `skip`. -/
def stringBody (content : Content) (skip n : Nat) : List Char → Option Nat
  | [] => none
  | c :: cs =>
    match skip with
    | k + 1 => stringBody content k (n + 1) cs
    | 0 =>
      if c = '"' then some (n + 1)
      else if c = '\r' then
        if cs.head? = some '\n' then stringBody content 1 (n + 1) cs else none
      else if c = '\\' then
        match cs with
        | '\n' :: _ => stringBody content 1 (n + 1) cs
        | '\r' :: '\n' :: _ => stringBody content 2 (n + 1) cs
        | _ =>
          match escapeAt content cs with
          | some k => stringBody content k (n + 1) cs
          | none => none
      else if content.admits c then stringBody content 0 (n + 1) cs
      else none

/-- Length of a raw string after its opening quote: it ends at a quote followed by as many number
signs as were before the opening one. -/
def rawBody (content : Content) (signs n : Nat) : List Char → Option Nat
  | [] => none
  | c :: cs =>
    if c = '"' && (cs.take signs).length = signs && (cs.take signs).all (· = '#') then
      some (n + 1 + signs)
    else if c = '\r' && cs.head? ≠ some '\n' then none
    else if content.admits c then rawBody content signs (n + 1) cs
    else none

/-- A raw string after its letter `r`. -/
def rawAt (content : Content) (cs : List Char) : Option Nat :=
  let signs := (cs.takeWhile (· = '#')).length
  match cs.drop signs with
  | '"' :: body => if 255 < signs then none else (rawBody content signs 0 body).map (signs + 1 + ·)
  | _ => none

/-- A single quoted character after its opening quote. -/
def charBody (content : Content) : List Char → Option Nat
  | '\\' :: cs =>
    match escapeAt content cs with
    | some n => if (cs.drop n).head? = some '\'' then some (n + 2) else none
    | none => none
  | c :: '\'' :: _ => if content.admits c then some 2 else none
  | _ => none

/-- A character or string literal, with its suffix: its length. -/
def quotedAt (cs : List Char) : Option Nat :=
  let body : Option Nat :=
    match cs with
    | '"' :: rest => (stringBody .text 0 0 rest).map (1 + ·)
    | 'r' :: rest => (rawAt .text rest).map (1 + ·)
    | 'b' :: '"' :: rest => (stringBody .bytes 0 0 rest).map (2 + ·)
    | 'b' :: 'r' :: rest => (rawAt .bytes rest).map (2 + ·)
    | 'b' :: '\'' :: rest => (charBody .bytes rest).map (2 + ·)
    | 'c' :: '"' :: rest => (stringBody .ended 0 0 rest).map (2 + ·)
    | 'c' :: 'r' :: rest => (rawAt .ended rest).map (2 + ·)
    | '\'' :: rest => (charBody .text rest).map (1 + ·)
    | _ => none
  body.map fun n => n + suffixLength (cs.drop n)

end ReaderGen.Literal
