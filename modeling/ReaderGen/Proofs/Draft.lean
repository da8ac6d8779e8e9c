import ReaderGen.Format
import ReaderGen.Proofs.Excerpt

/-!
# Descriptions and how they are written

A draft is what a description says: its statements, with the texts of subscripts and bounds as they are
written. Writing it and reading the text yields its format, with each of these texts in canonical form;
that is shown in `ReaderGen.Proofs.RoundTrip`. Here the text is split into tokens.

* `Draft.text`: the written form, `read a[E][E], b;` and `for v upto E { … }`.
* `Draft.formats`: what it stands for.
* `Draft.scans_text`: the tokens of the written form are those of its words and texts, in order.
-/

namespace ReaderGen

/-- An item to be read: a variable with the texts of its subscripts. -/
structure Draft.Item where
  name : String
  indices : List String

/-- The statements of a description, one after the other. -/
inductive Draft
  | done
  /-- Reads one or more items and then the end of the line. -/
  | read (first : Draft.Item) (more : List Draft.Item) (rest : Draft)
  | loop (counter bound : String) (body rest : Draft)

namespace Draft

/-! ## The written form -/

def indicesText : List String → String
  | [] => ""
  | index :: indices => "[" ++ index ++ "]" ++ indicesText indices

def Item.text (i : Item) : String := i.name ++ indicesText i.indices

def itemsText : Item → List Item → String
  | i, [] => i.text
  | i, j :: more => i.text ++ ", " ++ itemsText j more

/-- A draft as a description is written. -/
def text : Draft → String
  | done => ""
  | read first more rest => "read " ++ itemsText first more ++ "; " ++ rest.text
  | loop counter bound body rest =>
    "for " ++ counter ++ " upto " ++ bound ++ " \x7b " ++ body.text ++ "\x7d " ++ rest.text

/-! ## What it says -/

/-- The names of the variables and the counters. -/
def words : Draft → List String
  | done => []
  | read first more rest => (first :: more).map (·.name) ++ rest.words
  | loop counter _ body rest => counter :: (body.words ++ rest.words)

/-- The texts of the bounds. -/
def bounds : Draft → List String
  | done => []
  | read _ _ rest => rest.bounds
  | loop _ bound body rest => bound :: (body.bounds ++ rest.bounds)

/-- The texts of the subscripts and of the bounds. -/
def texts : Draft → List String
  | done => []
  | read first more rest => (first :: more).flatMap (·.indices) ++ rest.texts
  | loop _ bound body rest => bound :: (body.texts ++ rest.texts)

/-- The formats of the statements, each text replaced by its canonical form. -/
def formats (canonical : String → String) : Draft → List Format
  | done => []
  | read first more rest =>
    .sequence ((first :: more).map (fun i => .item i.name (i.indices.map canonical)) ++ [.newline]) ::
      rest.formats canonical
  | loop counter bound body rest =>
    .loop counter (canonical bound) (.sequence (body.formats canonical)) :: rest.formats canonical

/-! ## Tokens -/

/-- The tokens of a text, if it can be split into tokens. -/
def tokensOf (text : String) : List Token :=
  match Scanner.scan text with
  | .ok lexemes => lexemes.map (·.token)
  | .error _ => []

def indicesTokens : List String → List Token
  | [] => []
  | index :: indices => Token.bracketed .square (tokensOf index) ++ indicesTokens indices

def Item.tokens (i : Item) : List Token := .ident i.name :: indicesTokens i.indices

def itemsTokens : Item → List Item → List Token
  | i, [] => i.tokens
  | i, j :: more => i.tokens ++ .punct ',' false :: itemsTokens j more

def tokens : Draft → List Token
  | done => []
  | read first more rest =>
    .ident "read" :: (itemsTokens first more ++ .punct ';' false :: rest.tokens)
  | loop counter bound body rest =>
    .ident "for" :: .ident counter :: .ident "upto" ::
      (tokensOf bound ++ .opening .curly :: (body.tokens ++ .closing .curly :: rest.tokens))

end Draft

/-! ## Scanning -/

namespace Scanner

/-- Scanning finds these tokens at any place where these brackets are open. -/
def ScansTo (outer : List Bracket) (cs : List Char) (tokens : List Token) : Prop :=
  ∀ pos (stack : List (Bracket × Nat)), stack.map (·.1) = outer → Scans 0 pos stack cs tokens

namespace ScansTo

variable {outer : List Bracket} {cs : List Char} {tokens : List Token}

theorem nil : ScansTo [] [] [] := by
  intro pos stack hstack
  obtain rfl := List.map_eq_nil_iff.1 hstack
  exact .nil

theorem word {w : String} (hw : identAt w.toList = some w.toList) (ha : Apart cs)
    (h : ScansTo outer cs tokens) : ScansTo outer (w.toList ++ cs) (.ident w :: tokens) :=
  fun _ stack hstack => .word hw ha fun p => h p stack hstack

theorem space (h : ScansTo outer cs tokens) : ScansTo outer (' ' :: cs) tokens :=
  fun _ stack hstack => .space fun p => h p stack hstack

theorem opening {c : Char} {b : Bracket} (hc : Bracket.ofOpening? c = some b)
    (h : ScansTo (b :: outer) cs tokens) : ScansTo outer (c :: cs) (.opening b :: tokens) :=
  fun pos stack hstack => .opening hc (h _ ((b, pos) :: stack) (congrArg (b :: ·) hstack))

theorem closing {c : Char} {b : Bracket} (hc : Bracket.ofOpening? c = none)
    (hb : Bracket.ofClosing? c = some b) (h : ScansTo outer cs tokens) :
    ScansTo (b :: outer) (c :: cs) (.closing b :: tokens) := by
  intro pos stack hstack
  cases stack with
  | nil => cases hstack
  | cons top stack =>
    obtain ⟨b', start⟩ := top
    rw [List.map_cons, List.cons.injEq] at hstack
    obtain ⟨rfl, hstack⟩ := hstack
    exact .closing hc hb (h _ stack hstack)

/-- A comma or a semicolon before a space. -/
theorem separator {c : Char} (hc : c ∈ [',', ';']) (h : ScansTo outer cs tokens) :
    ScansTo outer (c :: ' ' :: cs) (.punct c false :: tokens) := by
  intro pos stack hstack
  have hspace := fun p => h.space p stack hstack
  rcases List.mem_cons.1 hc with rfl | hc
  · have hm : munch (',' :: ' ' :: cs) = some ([.punct ',' false], 1) := rfl
    exact Scans.single rfl rfl hm (hspace _)
  · obtain rfl := List.mem_singleton.1 hc
    have hm : munch (';' :: ' ' :: cs) = some ([.punct ';' false], 1) := rfl
    exact Scans.single rfl rfl hm (hspace _)

/-- A text that can be split into tokens by itself. -/
theorem excerpt {lexemes : List Lexeme} {text : List Char}
    (hs : scanFrom 0 0 [] text = .ok lexemes) (hc : commentFree 0 text = true) (ha : Apart cs)
    (hp : beginsPunct cs = false) (h : ScansTo outer cs tokens) :
    ScansTo outer (text ++ cs) (lexemes.map (·.token) ++ tokens) :=
  fun pos _ hstack => scans_append ha hp h hs (Nat.zero_le _) hc pos (by simpa using hstack)

end ScansTo

end Scanner

namespace Draft

open Scanner

/-- The text can be split into tokens by itself, without comments or a mark at its beginning. -/
structure Scannable (text : String) : Prop where
  scan : ∃ lexemes, Scanner.scan text = .ok lexemes
  comments : commentFree 0 text.toList = true
  mark : text.toList.head? ≠ some '\ufeff'

theorem Scannable.scanFrom {text : String} (h : Scannable text) :
    ∃ lexemes, Scanner.scanFrom 0 0 [] text.toList = .ok lexemes ∧
      tokensOf text = lexemes.map (·.token) := by
  obtain ⟨lexemes, hscan⟩ := h.scan
  refine ⟨lexemes, ?_, by rw [tokensOf, hscan]⟩
  rw [Scanner.scan] at hscan
  split at hscan
  · rename_i heq
    exact absurd (by rw [heq]; rfl) h.mark
  · exact hscan

variable {outer : List Bracket} {cs : List Char} {after : List Token}

theorem scans_excerpt {text : String} (h : Scannable text) (ha : Apart cs)
    (hp : beginsPunct cs = false) (hcs : ScansTo outer cs after) :
    ScansTo outer (text.toList ++ cs) (tokensOf text ++ after) := by
  obtain ⟨lexemes, hs, ht⟩ := h.scanFrom
  rw [ht]
  exact .excerpt hs h.comments ha hp hcs

theorem scans_indices {indices : List String} (h : ∀ text ∈ indices, Scannable text)
    (hcs : ScansTo outer cs after) :
    ScansTo outer ((indicesText indices).toList ++ cs) (indicesTokens indices ++ after) := by
  induction indices with
  | nil => exact hcs
  | cons index indices ih =>
    obtain ⟨hindex, hindices⟩ := List.forall_mem_cons.1 h
    have hclose := (ih hindices).closing (c := ']') (b := .square) rfl rfl
    have hopen := (scans_excerpt hindex (by simp [Apart, wordEnds]) (by rfl) hclose).opening
      (c := '[') rfl
    simpa [indicesText, indicesTokens, Token.bracketed] using hopen

theorem scans_item {i : Item} (hw : identAt i.name.toList = some i.name.toList)
    (h : ∀ text ∈ i.indices, Scannable text) (ha : Apart cs) (hcs : ScansTo outer cs after) :
    ScansTo outer (i.text.toList ++ cs) (i.tokens ++ after) := by
  have hapart : Apart ((indicesText i.indices).toList ++ cs) := by
    cases i.indices with
    | nil => exact ha
    | cons index indices => simp [indicesText, Apart, wordEnds]
  have hword := (scans_indices h hcs).word hw hapart
  simpa [Item.text, Item.tokens] using hword

theorem scans_items {first : Item} {more : List Item}
    (hw : ∀ i ∈ first :: more, identAt i.name.toList = some i.name.toList)
    (h : ∀ i ∈ first :: more, ∀ text ∈ i.indices, Scannable text) (ha : Apart cs)
    (hcs : ScansTo outer cs after) :
    ScansTo outer ((itemsText first more).toList ++ cs) (itemsTokens first more ++ after) := by
  induction more generalizing first with
  | nil => exact scans_item (hw first (.head _)) (h first (.head _)) ha hcs
  | cons next more ih =>
    obtain ⟨hfirst, hothers⟩ := List.forall_mem_cons.1 hw
    obtain ⟨htexts, hothers'⟩ := List.forall_mem_cons.1 h
    have hcomma := (ih hothers hothers').separator (c := ',') (by decide)
    have hitem := scans_item hfirst htexts (by simp [Apart, wordEnds]) hcomma
    simpa [itemsText, itemsTokens] using hitem

/-- The tokens of a written draft are those of its words and texts, in order. -/
theorem scans_text {d : Draft} (hw : ∀ w ∈ d.words, identAt w.toList = some w.toList)
    (h : ∀ text ∈ d.texts, Scannable text) (hcs : ScansTo outer cs after) :
    ScansTo outer (d.text.toList ++ cs) (d.tokens ++ after) := by
  have hkeywords : ∀ w ∈ ["read", "for", "upto"], identAt w.toList = some w.toList := by decide
  induction d generalizing outer cs after with
  | done => exact hcs
  | read first more rest ih =>
    obtain ⟨hnames, hw⟩ := List.forall_mem_append.1 hw
    obtain ⟨hindices, h⟩ := List.forall_mem_append.1 h
    have hsemicolon := (ih hw h hcs).separator (c := ';') (by decide)
    have hitems := scans_items (List.forall_mem_map.1 hnames)
      (fun i hi text ht => hindices text (List.mem_flatMap.2 ⟨i, hi, ht⟩))
      (by simp [Apart, wordEnds]) hsemicolon
    have hread := hitems.space.word (hkeywords "read" (by decide)) (by simp [Apart, wordEnds])
    simpa [text, tokens] using hread
  | loop counter bound body rest ihb ihr =>
    obtain ⟨hcounter, hw⟩ := List.forall_mem_cons.1 hw
    obtain ⟨hwbody, hwrest⟩ := List.forall_mem_append.1 hw
    obtain ⟨hbound, h⟩ := List.forall_mem_cons.1 h
    obtain ⟨hbody, hrest⟩ := List.forall_mem_append.1 h
    have hclose := (ihr hwrest hrest hcs).space.closing (c := '\x7d') (b := .curly) rfl rfl
    have hopen := (ihb hwbody hbody hclose).space.opening (c := '\x7b') rfl
    have hexpr := scans_excerpt hbound (by simp [Apart, wordEnds]) (by rfl) hopen.space
    have hupto := hexpr.space.word (hkeywords "upto" (by decide)) (by simp [Apart, wordEnds])
    have hname := hupto.space.word hcounter (by simp [Apart, wordEnds])
    have hfor := hname.space.word (hkeywords "for" (by decide)) (by simp [Apart, wordEnds])
    simpa [text, tokens] using hfor

theorem scan_text {d : Draft} (hw : ∀ w ∈ d.words, identAt w.toList = some w.toList)
    (h : ∀ text ∈ d.texts, Scannable text) :
    ∃ lexemes, Scanner.scan d.text = .ok lexemes ∧ lexemes.map (·.token) = d.tokens := by
  obtain ⟨lexemes, hs, ht⟩ := scans_text hw h .nil 0 [] rfl
  rw [List.append_nil] at hs ht
  refine ⟨lexemes, ?_, ht⟩
  have hmark : d.text.toList.head? ≠ some '\ufeff' := by
    cases d <;> simp [text]
  rw [Scanner.scan]
  split
  · rename_i heq
    exact absurd (by rw [heq]; rfl) hmark
  · exact hs

end Draft

end ReaderGen
