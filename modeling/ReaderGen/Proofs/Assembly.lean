import ReaderGen.Expr.Parser
import ReaderGen.Proofs.Reading

/-!
# Readings put together

Tokens that are read as an arithmetic operand or expression are read as the same one wherever they
stand, if only it stops there: at the end of the bracket or the text, before an operator, or before a
block. A block is what a curly bracket begins, and it may belong to the word before it: to any name where
braces are read as the fields of a record, and always to `async` and `try`. `Admits` keeps them apart.

* `ReadsAs`: some tokens are read as a value, whatever follows among what may follow.
* `ReadsAs.bind`: one reading after the other reads what both read.
* `Grammar.atom_word`, `Grammar.atom_round`, `Grammar.TrailersRead`, `Grammar.bareOperand_trailers`,
  `Grammar.bareOperand_neg`, `Grammar.anyOperand_attributes`, `Grammar.link_operand`,
  `Grammar.LinksRead`, `Grammar.anyExpression_links`: how the rules of the grammar read a phrase made of
  phrases.
-/

namespace ReaderGen

/-! ## What follows -/

/-- The characters of arithmetic operators. -/
def signs : List Char := ['+', '-', '*', '/', '%']

/-- The bracket or the text ends here, or a block begins here. -/
def Halts : List Token → Prop
  | [] => True
  | .closing _ :: _ => True
  | .opening .curly :: _ => True
  | _ => False

/-- It halts here, or an arithmetic operator stands here. -/
def Stops : List Token → Prop
  | .punct c _ :: _ => c ∈ signs
  | ts => Halts ts

/-- It stops here, or a subscript begins here. -/
def Follows : List Token → Prop
  | .opening .square :: _ => True
  | ts => Stops ts

theorem Halts.stops {ts : List Token} (h : Halts ts) : Stops ts := by
  match ts with
  | [] | .closing _ :: _ | .opening .curly :: _ => trivial

theorem Stops.follows {ts : List Token} (h : Stops ts) : Follows ts := by
  unfold Follows
  split
  · trivial
  · exact h

theorem Halts.runOf {ts : List Token} (h : Halts ts) : Cursor.runOf ts = [] := by
  match ts with
  | [] | .closing _ :: _ | .opening .curly :: _ => rfl

theorem Follows.runOf {ts : List Token} (h : Follows ts) :
    Cursor.runOf ts = [] ∨ ∃ c ∈ signs, ∃ more, Cursor.runOf ts = c :: more := by
  match ts with
  | [] => exact .inl rfl
  | .closing _ :: _ => exact .inl rfl
  | .opening _ :: _ => exact .inl rfl
  | .punct c true :: ts => exact .inr ⟨c, h, Cursor.runOf ts, rfl⟩
  | .punct c false :: _ => exact .inr ⟨c, h, [], rfl⟩

namespace Cursor

/-- No symbol stands here that begins otherwise than an arithmetic operator. -/
theorem startsWith_of_follows {c : Cursor} {s : String} (h : Follows c.rest)
    (hs : signs.any (s.toList.head? == some ·) = false)
    (hn : s.toList.isPrefixOf [] = false) : c.startsWith s = false := by
  rw [startsWith]
  rcases h.runOf with hr | ⟨ch, hc, more, hr⟩
  · rw [hr, hn]
  · have hne := List.any_eq_false.1 hs ch hc
    rw [hr]
    cases hchars : s.toList with
    | nil =>
      rw [hchars] at hn
      cases hn
    | cons a as =>
      have ha : a ≠ ch := by simpa [hchars] using hne
      simp [List.isPrefixOf, ha]

theorem isWord_of_follows {c : Cursor} (h : Follows c.rest) (w : String) :
    c.isWord w = false := by
  unfold isWord
  split
  · rename_i hc
    rw [hc] at h
    exact (h : False).elim
  · rfl

theorem opens_of_stops {c : Cursor} (h : Stops c.rest) {b : Bracket} (hb : b ≠ .curly) :
    c.opens b = false := by
  unfold opens
  split
  · rename_i b' ts hc
    rw [hc] at h
    cases b' with
    | curly => simpa using hb
    | _ => exact (h : False).elim
  · rfl

end Cursor

/-! ## Blocks -/

/-- Words that a block after them belongs to. -/
def blockWords : List String := ["async", "try"]

/-- Whether a block after the tokens does not belong to the last of them. -/
def leavesBlock (used : List Token) : Bool :=
  match used.getLast? with
  | some (.ident w) => !blockWords.contains w
  | _ => true

theorem leavesBlock_append {u v : List Token} (hv : v ≠ []) :
    leavesBlock (u ++ v) = leavesBlock v := by
  rw [leavesBlock, leavesBlock, List.getLast?_append, List.getLast?_eq_some_getLast hv,
    Option.some_or]

/-- A block that begins after the tokens does not belong to them. -/
def Admits (braces : Bool) (used : List Token) : List Token → Prop
  | .opening .curly :: _ => braces = false ∧ leavesBlock used = true
  | _ => True

namespace Admits

theorem of_opens {braces : Bool} {used : List Token} {c : Cursor} (h : Admits braces used c.rest)
    (hc : c.opens .curly = true) : braces = false ∧ leavesBlock used = true := by
  unfold Cursor.opens at hc
  split at hc
  · rename_i b ts hrest
    obtain rfl := of_decide_eq_true hc
    rw [hrest] at h
    exact h
  · cases hc

variable {braces : Bool} {u v rest : List Token}

theorem left (h : Admits braces (u ++ v) rest) (hv : v.head? ≠ some (.opening .curly)) :
    Admits braces u (v ++ rest) := by
  cases v with
  | nil => simpa using h
  | cons t ts =>
    rw [List.cons_append]
    unfold Admits
    split
    · rename_i heq
      cases heq
      exact absurd rfl hv
    · trivial

theorem right (h : Admits braces (u ++ v) rest) : Admits braces v rest := by
  unfold Admits at h ⊢
  split at h
  · obtain ⟨hbraces, hleaves⟩ := h
    refine ⟨hbraces, ?_⟩
    cases v with
    | nil => rfl
    | cons t ts => rwa [leavesBlock_append (List.cons_ne_nil t ts)] at hleaves
  · trivial

end Admits

/-! ## Tokens that are read as a value -/

/-- The tokens are read as this value before anything that may follow. -/
def ReadsAs {α : Type} (r : Bool → Reading α) (tail : List Token → Prop) (a : α)
    (used : List Token) : Prop :=
  ∀ (braces : Bool) (rest : List Token) (stray : Option Complaint), tail rest →
    Admits braces used rest → r braces ⟨used ++ rest, stray⟩ = .ok (a, ⟨rest, stray⟩)

namespace ReadsAs

open Reading

variable {α β : Type} {tail tail' : List Token → Prop} {a : α} {b : β} {u v : List Token}

/-- One reading after the other reads what both read, if what the second one reads may follow what the
first one does, and is no block. -/
theorem bind {r : Bool → Reading α} {f : Bool → α → Reading β} (hr : ReadsAs r tail' a u)
    (hf : ReadsAs (f · a) tail b v) (htail : ∀ rest, tail rest → tail' (v ++ rest))
    (hv : v.head? ≠ some (.opening .curly)) :
    ReadsAs (fun braces => r braces >>= f braces) tail b (u ++ v) := by
  intro braces rest stray hrest hadmits
  have hfirst := hr braces (v ++ rest) stray (htail rest hrest) (hadmits.left hv)
  rw [List.append_assoc]
  exact (bind_of_ok hfirst).trans (hf braces rest stray hrest hadmits.right)

theorem map {r : Bool → Reading α} (f : α → β) (hr : ReadsAs r tail a u) :
    ReadsAs (fun braces => do return f (← r braces)) tail (f a) u := by
  intro braces rest stray hrest hadmits
  exact bind_of_ok (hr braces rest stray hrest hadmits)

end ReadsAs

/-! ## Words -/

namespace Grammar

open Reading

variable (g : Grammar)

theorem segment_word {w : String} (hw : Word.isSegment w = true) {rest : List Token}
    (h : Follows rest) (stray : Option Complaint) :
    g.segment .expression ⟨.ident w :: rest, stray⟩ = .ok (([.ident w], false), ⟨rest, stray⟩) := by
  have hf : argumentsFollow .expression ⟨rest, stray⟩ = false := by
    have : Cursor.startsWith "::" ⟨rest, stray⟩ = false :=
      Cursor.startsWith_of_follows h (by decide) (by decide)
    simp [argumentsFollow, this]
  rw [segment, bind_get]
  by_cases hb : bareSegments.any (fun b => Cursor.isWord b ⟨.ident w :: rest, stray⟩) = true
  · rw [if_pos hb]
    rfl
  · rw [if_neg hb]
    by_cases hs : w = "Self"
    · subst hs
      rw [if_pos (by rfl), bind_of_ok (show word "Self" _ = .ok ([.ident "Self"], ⟨rest, stray⟩) from
        rfl)]
      dsimp only
      rw [bind_get, hf]
      rfl
    · have hself : ¬Cursor.isWord "Self" ⟨.ident w :: rest, stray⟩ = true := by
        simpa [Cursor.isWord] using hs
      -- of the reserved words that are segments, only `Self` is not bare
      have hn : Word.isName w = true := by
        simp only [Word.isSegment, Word.places, Bool.or_eq_true, List.contains_cons, beq_iff_eq,
          List.contains_nil, Bool.false_eq_true, or_false] at hw
        simp only [bareSegments, Cursor.isWord, List.any_cons, List.any_nil, Bool.or_eq_true,
          decide_eq_true_eq, Bool.false_eq_true, or_false, not_or] at hb
        rcases hw with hw | hw | hw | hw | hw
        · exact hw
        · exact absurd hw hb.2.1
        · exact absurd hw hs
        · exact absurd hw hb.1
        · exact absurd hw hb.2.2.1
      have hname : name ⟨.ident w :: rest, stray⟩ = .ok ([.ident w], ⟨rest, stray⟩) := by
        simp [name, hn]
      rw [if_neg hself, bind_of_ok hname]
      dsimp only
      rw [bind_get, hf]
      rfl

theorem path_word {w : String} (hw : Word.isSegment w = true) {rest : List Token}
    (h : Follows rest) (stray : Option Complaint) :
    g.anyPath .expression ⟨.ident w :: rest, stray⟩ =
      .ok (⟨[.ident w], false, true, false, true⟩, ⟨rest, stray⟩) := by
  have hcc : Cursor.startsWith "::" ⟨.ident w :: rest, stray⟩ = false := rfl
  have hrest : segmentFollows ⟨rest, stray⟩ = false := by
    rw [segmentFollows, Cursor.startsWith_of_follows h (by decide) (by decide), Bool.false_and]
  have hmore : g.moreSegments .expression segmentFollows ⟨rest, stray⟩ =
      .ok ([], ⟨rest, stray⟩) := by
    refine many_of_none ?_
    rw [bind_get, hrest]
    rfl
  rw [anyPath, bind_get, if_pos (by rfl), path, bind_of_ok (symbol?_of_not hcc),
    bind_of_ok (g.segment_word hw h stray)]
  dsimp only
  rw [bind_of_ok hmore]
  rfl

theorem named_word {w : String} (hw : Word.isSegment w = true) :
    ReadsAs g.named Follows (.name w) [.ident w] := by
  intro braces rest stray h hadmits
  have hbang : Cursor.isBang ⟨rest, stray⟩ = false := by
    rw [Cursor.isBang, Cursor.startsWith_of_follows h (by decide) (by decide), Bool.false_and]
  have hcurly : (braces && Cursor.opens .curly ⟨rest, stray⟩) = false := by
    cases hopen : Cursor.opens .curly ⟨rest, stray⟩ with
    | false => rw [Bool.and_false]
    | true => rw [(hadmits.of_opens (c := ⟨rest, stray⟩) hopen).1]; rfl
  rw [List.singleton_append, named, bind_apply, withSource, bind_of_ok (g.path_word hw h stray),
    bind_get, invocationFollows, hbang, hcurly, Bool.and_false, Bool.false_and]
  rfl

/-! ## Atoms -/

theorem atom_int (n : Nat) (text : String) :
    ReadsAs g.atom Follows (.int n text) [.int n text] :=
  fun _ _ _ _ _ => rfl

theorem atom_word {w : String} (hw : Word.isSegment w = true) :
    ReadsAs g.atom Follows (.name w) [.ident w] := by
  intro braces rest stray h hadmits
  rw [List.singleton_append]
  have hnext : Cursor.next ⟨.ident w :: rest, stray⟩ = ⟨rest, stray⟩ := rfl
  have hmove := Cursor.isWord_of_follows (c := ⟨rest, stray⟩) h "move"
  have hbar : Cursor.startsWith "|" ⟨rest, stray⟩ = false :=
    Cursor.startsWith_of_follows h (by decide) (by decide)
  have hne : ∀ {u : String}, Word.isSegment u = false →
      Cursor.isWord u ⟨.ident w :: rest, stray⟩ = false := by
    intro u hu
    simp only [Cursor.isWord, decide_eq_false_iff_not]
    rintro rfl
    rw [hu] at hw
    cases hw
  -- a block that follows does not belong to the word
  have hblock : ∀ {u : String}, u ∈ blockWords →
      (Cursor.isWord u ⟨.ident w :: rest, stray⟩ && Cursor.opens .curly ⟨rest, stray⟩) = false := by
    intro u hu
    cases hopen : Cursor.opens .curly ⟨rest, stray⟩ with
    | false => rw [Bool.and_false]
    | true =>
      have hleaves := (hadmits.of_opens (c := ⟨rest, stray⟩) hopen).2
      have hno : w ∉ blockWords := by simpa [leavesBlock] using hleaves
      rw [Bool.and_true, Cursor.isWord, decide_eq_false_iff_not]
      rintro rfl
      exact hno hu
  have hlater : beginsLater ⟨.ident w :: rest, stray⟩ = false := by
    rw [beginsLater, hnext, hmove, Bool.false_and, Bool.or_false, hblock (by decide)]
  have htry : beginsTry ⟨.ident w :: rest, stray⟩ = false := by
    rw [beginsTry, hnext, hblock (by decide)]
  have hclosure : beginsClosure ⟨.ident w :: rest, stray⟩ = false := by
    rw [beginsClosure, hnext, hbar, hmove, hne (u := "static") (by decide),
      hne (u := "move") (by decide), Bool.or_self, Bool.and_false]
    rfl
  have hlabels : bindsLabels ⟨.ident w :: rest, stray⟩ = false := by
    rw [bindsLabels, hne (u := "for") (by decide)]
    rfl
  have hsegment : Cursor.isSegment ⟨.ident w :: rest, stray⟩ = true := hw
  rw [atom, bind_of_ok (show knownLiteral ⟨.ident w :: rest, stray⟩ = .ok ((), _) from rfl),
    bind_get, hlater, htry, hclosure, hlabels, hsegment, if_neg Bool.false_ne_true,
    if_neg Bool.false_ne_true, if_neg Bool.false_ne_true, if_neg Bool.false_ne_true,
    if_pos (by rfl)]
  -- the words that are literals are no segments
  refine (congrFun (?_ : (_ : Reading Expr) = g.named braces) _).trans
    (g.named_word hw braces rest stray h hadmits)
  split
  · rename_i heq; cases heq
  · rename_i heq; cases heq
  · rename_i heq; cases heq; exact absurd hw (by decide)
  · rename_i heq; cases heq; exact absurd hw (by decide)
  · rename_i heq; cases heq
  · rename_i heq; cases heq
  · rename_i heq; cases heq
  · rfl

variable {g}

/-- What is in round brackets, if it does not begin with their end. -/
theorem atom_round {e : Expr} {u : List Token} (he : ReadsAs g.expression Halts e u)
    (hu : ∀ ts stray, Cursor.atEnd ⟨u ++ ts, stray⟩ = false) :
    ReadsAs g.atom Follows (.paren e) (Token.bracketed .round u) := by
  intro braces rest stray _ _
  have hread := he true (.closing .round :: rest) stray trivial trivial
  have hround : g.round ⟨.opening .round :: (u ++ .closing .round :: rest), stray⟩ =
      .ok (.paren e, ⟨rest, stray⟩) := by
    rw [round, bind_of_ok (enter_opening .round _ stray), bind_get, hu,
      if_neg Bool.false_ne_true, bind_of_ok hread, bind_get]
    rfl
  rw [Token.bracketed, List.cons_append, List.cons_append, List.append_assoc]
  exact hround

/-! ## Subscripts -/

theorem trailer_index (a : Expr) {i : Expr} {u : List Token} (hi : ReadsAs g.expression Halts i u)
    (rest : List Token) (stray : Option Complaint) :
    g.trailer a ⟨Token.bracketed .square u ++ rest, stray⟩ =
      .ok (some (.index a i), ⟨rest, stray⟩) := by
  have hread := hi true (.closing .square :: rest) stray trivial trivial
  rw [Token.bracketed, List.cons_append, List.cons_append, List.append_assoc, trailer, bind_get,
    if_pos (by rfl), bind_of_ok (enter_opening .square _ stray),
    List.singleton_append, bind_of_ok hread]
  rfl

theorem trailer_stops (a : Expr) {rest : List Token} (h : Stops rest) (stray : Option Complaint) :
    g.trailer a ⟨rest, stray⟩ = .ok (none, ⟨rest, stray⟩) := by
  have hsquare : Cursor.opens .square ⟨rest, stray⟩ = false := Cursor.opens_of_stops h (by decide)
  have hround : Cursor.opens .round ⟨rest, stray⟩ = false := Cursor.opens_of_stops h (by decide)
  have hpoint : Cursor.startsWith "." ⟨rest, stray⟩ = false :=
    Cursor.startsWith_of_follows h.follows (by decide) (by decide)
  have hmark : Cursor.startsWith "?" ⟨rest, stray⟩ = false :=
    Cursor.startsWith_of_follows h.follows (by decide) (by decide)
  rw [trailer, bind_get, hsquare, hround, Cursor.isPoint, hpoint, hmark, Bool.false_and,
    Bool.false_and]
  rfl

/-- The tokens are subscripts that make one operand out of another. -/
structure TrailersRead (g : Grammar) (a e : Expr) (v : List Token) : Prop where
  head : ∀ t ∈ v.head?, t = .opening .square
  /-- They take some rounds, no more than there are tokens. -/
  reads : ∃ k ≤ v.length, ∀ n rest stray, iterateFrom g.trailer (k + n) a ⟨v ++ rest, stray⟩ =
    iterateFrom g.trailer n e ⟨rest, stray⟩

namespace TrailersRead

theorem nil (a : Expr) : TrailersRead g a a [] where
  head := by simp
  reads := ⟨0, Nat.le_refl 0, fun n rest stray => by rw [Nat.zero_add, List.nil_append]⟩

theorem single (a : Expr) {i : Expr} {u : List Token} (hi : ReadsAs g.expression Halts i u) :
    TrailersRead g a (.index a i) (Token.bracketed .square u) where
  head := by simp [Token.bracketed]
  reads := by
    refine ⟨1, by simp [Token.bracketed], fun n rest stray => ?_⟩
    rw [Nat.add_comm, iterateFrom_succ, trailer_index a hi]

theorem trans {a b e : Expr} {v w : List Token} (h : TrailersRead g a b v)
    (h' : TrailersRead g b e w) : TrailersRead g a e (v ++ w) where
  head := by
    cases v with
    | nil => exact h'.head
    | cons t v => exact h.head
  reads := by
    obtain ⟨k, hk, hreads⟩ := h.reads
    obtain ⟨k', hk', hreads'⟩ := h'.reads
    refine ⟨k + k', by rw [List.length_append]; omega, fun n rest stray => ?_⟩
    rw [Nat.add_assoc, List.append_assoc, hreads, hreads']

theorem iterate {a e : Expr} {v : List Token} (h : TrailersRead g a e v) :
    ReadsAs (fun _ => iterate g.trailer a) Stops e v := by
  intro _ rest stray hrest _
  obtain ⟨k, hk, hreads⟩ := h.reads
  obtain ⟨n, hn⟩ : ∃ n, (v ++ rest).length + 1 = k + (n + 1) :=
    ⟨(v ++ rest).length - k, by rw [List.length_append]; omega⟩
  show iterateFrom g.trailer ((v ++ rest).length + 1) a _ = _
  rw [hn, hreads, iterateFrom_succ, trailer_stops e hrest]

end TrailersRead

/-! ## Operands -/

/-- A token with which an arithmetic operand without attributes begins. -/
def Begins : Token → Prop
  | .int _ _ => True
  | .ident w => Word.isSegment w = true
  | .opening .round => True
  | .punct c _ => c = '-'
  | _ => False

theorem Begins.not_sharp {t : Token} (h : Begins t) (ts : List Token) (stray : Option Complaint) :
    Cursor.startsWith "#" ⟨t :: ts, stray⟩ = false := by
  match t, h with
  | .int _ _, _ | .ident _, _ | .opening .round, _ => rfl
  | .punct c true, h => obtain rfl : c = '-' := h; rfl
  | .punct c false, h => obtain rfl : c = '-' := h; rfl

theorem bareOperand_atom (braces : Bool) {t : Token} (h : Begins t) (hp : ∀ c b, t ≠ .punct c b)
    (ts : List Token) (stray : Option Complaint) :
    g.bareOperand braces ⟨t :: ts, stray⟩ =
      (do iterate g.trailer (← g.atom braces)) ⟨t :: ts, stray⟩ := by
  have hbox : Cursor.isWord "box" ⟨t :: ts, stray⟩ = false := by
    cases t with
    | ident w =>
      simp only [Cursor.isWord, decide_eq_false_iff_not]
      rintro rfl
      have hbox : Word.isSegment "box" = false := by decide
      rw [show Begins (.ident "box") = (Word.isSegment "box" = true) from rfl, hbox] at h
      cases h
    | _ => rfl
  have hrun : Cursor.runOf (t :: ts) = [] := by
    cases t with
    | punct c b => exact absurd rfl (hp c b)
    | _ => rfl
  have hand : Cursor.startsWith "&" ⟨t :: ts, stray⟩ = false :=
    Cursor.startsWith_of_runOf_nil hrun (by decide)
  have hunary : unaryAt ⟨t :: ts, stray⟩ = none := by
    simp only [unaryAt, List.find?_eq_none, List.mem_cons, List.not_mem_nil, or_false]
    rintro op (rfl | rfl | rfl) <;>
      simp [Cursor.startsWith_of_runOf_nil (c := ⟨t :: ts, stray⟩) hrun, UnaryOp.symbol]
  rw [bareOperand, bind_get, hand, hbox, if_neg Bool.false_ne_true, if_neg Bool.false_ne_true,
    hunary]

/-- An operand without an operator before it is an atom with its subscripts. -/
theorem bareOperand_trailers {a e : Expr} {t : Token} {u v : List Token} (ht : Begins t)
    (hp : ∀ c b, t ≠ .punct c b) (ha : ReadsAs g.atom Follows a (t :: u))
    (hv : TrailersRead g a e v) : ReadsAs g.bareOperand Stops e (t :: u ++ v) := by
  have hcurly : v.head? ≠ some (.opening .curly) := fun h => by cases hv.head _ h
  have hfollows : ∀ rest, Stops rest → Follows (v ++ rest) := by
    intro rest hrest
    cases v with
    | nil => exact hrest.follows
    | cons t v =>
      obtain rfl := hv.head t rfl
      trivial
  intro braces rest stray hrest hadmits
  rw [List.cons_append, List.cons_append, bareOperand_atom braces ht hp]
  exact ha.bind (f := fun _ a => iterate g.trailer a) hv.iterate hfollows hcurly braces rest stray
    hrest hadmits

theorem bareOperand_neg {e : Expr} {u : List Token} (joint : Bool)
    (he : ReadsAs g.operand Stops e u) :
    ReadsAs g.bareOperand Stops (.unary .neg e) (.punct '-' joint :: u) := by
  intro braces rest stray hrest hadmits
  have hread := he braces rest stray hrest (Admits.right (u := [.punct '-' joint]) hadmits)
  have hunary : unaryAt ⟨.punct '-' joint :: (u ++ rest), stray⟩ = some .neg := by
    cases joint <;> rfl
  have hsymbol : symbol UnaryOp.neg.symbol ⟨.punct '-' joint :: (u ++ rest), stray⟩ =
      .ok ([.punct '-' false], ⟨u ++ rest, stray⟩) := by cases joint <;> rfl
  have hand : Cursor.startsWith "&" ⟨.punct '-' joint :: (u ++ rest), stray⟩ = false := by
    cases joint <;> rfl
  have hbox : Cursor.isWord "box" ⟨.punct '-' joint :: (u ++ rest), stray⟩ = false := rfl
  rw [List.cons_append, bareOperand, bind_get, hand, hbox, if_neg Bool.false_ne_true,
    if_neg Bool.false_ne_true, hunary]
  dsimp only
  rw [bind_of_ok hsymbol, bind_of_ok hread]
  rfl

/-- No attribute begins here. -/
def Unattributed (ts : List Token) : Prop := Cursor.startsWith "#" ⟨ts, none⟩ = false

theorem attributes_nil : ReadsAs (fun _ => attributes) Unattributed [] [] :=
  fun _ _ _ h _ => manyGiven_of_not h

/-- An operand has attributes, or none, before one that has none. -/
theorem anyOperand_attributes {start w : Tokens} {t : Token} {u : List Token} {e : Expr}
    (hw : ReadsAs (fun _ => attributes) Unattributed start w) (ht : Begins t)
    (he : ReadsAs g.bareOperand Stops e (t :: u)) :
    ReadsAs g.anyOperand Stops (e.withAttributes start) (w ++ t :: u) := by
  refine hw.bind (f := fun braces start => do return (← g.bareOperand braces).withAttributes start)
    (he.map (Expr.withAttributes start)) (fun rest _ => ht.not_sharp _ _) ?_
  intro hcurly
  cases hcurly
  exact ht

theorem anyOperand_plain {t : Token} {u : List Token} {e : Expr} (ht : Begins t)
    (he : ReadsAs g.bareOperand Stops e (t :: u)) : ReadsAs g.anyOperand Stops e (t :: u) :=
  anyOperand_attributes attributes_nil ht he

/-! ## Chains -/

theorem converted_stops (e : Expr) {rest : List Token} (h : Stops rest) (stray : Option Complaint) :
    g.converted e ⟨rest, stray⟩ = .ok (e, ⟨rest, stray⟩) := by
  have hword := Cursor.isWord_of_follows (c := ⟨rest, stray⟩) h.follows "as"
  have hcolon : Cursor.startsWith ":" ⟨rest, stray⟩ = false :=
    Cursor.startsWith_of_follows h.follows (by decide) (by decide)
  refine iterate_of_none ?_
  rw [cast, bind_get, hword, Cursor.isColon, hcolon, Bool.false_and]
  rfl

/-- An operator of one character, with its operand. -/
theorem link_operand {op : BinaryOp} {ch : Char} {joint : Bool} {e : Expr} {u : List Token}
    (hop : op.symbol.toList = [ch])
    (hjoint : ∀ rest stray, jointAt ⟨.punct ch joint :: (u ++ rest), stray⟩ = some (.binary op))
    (he : ReadsAs g.operand Stops e u) :
    ReadsAs g.link Stops (some (.binary op e)) (.punct ch joint :: u) := by
  intro braces rest stray hrest hadmits
  have hread := he braces rest stray hrest (Admits.right (u := [.punct ch joint]) hadmits)
  have hsymbol : symbol op.symbol ⟨.punct ch joint :: (u ++ rest), stray⟩ =
      .ok (Token.symbol op.symbol, ⟨u ++ rest, stray⟩) := by
    have hlength : op.symbol.length = 1 := by rw [← String.length_toList, hop]; rfl
    have hstarts : Cursor.startsWith op.symbol ⟨.punct ch joint :: (u ++ rest), stray⟩ = true := by
      rw [Cursor.startsWith, hop]
      cases joint <;> simp [Cursor.runOf, List.isPrefixOf]
    rw [symbol, hstarts, Cursor.dropSymbol, hlength]
    rfl
  rw [List.cons_append, link, bind_get, hjoint]
  dsimp only [Joint.symbol]
  rw [bind_of_ok hsymbol, bind_of_ok hread, bind_of_ok (converted_stops e hrest stray)]
  rfl

theorem link_halts (braces : Bool) {c : Cursor} (h : Halts c.rest) :
    g.link braces c = .ok (none, c) := by
  have hs : ∀ {s : String}, s.toList.isPrefixOf [] = false → c.startsWith s = false :=
    fun hs => Cursor.startsWith_of_runOf_nil h.runOf hs
  have hjoint : jointAt c = none := by
    have hfind : ∀ {symbols : List String},
        (∀ s ∈ symbols, s.toList.isPrefixOf [] = false) → symbols.find? c.startsWith = none := by
      intro symbols hsymbols
      rw [List.find?_eq_none]
      intro s hmem
      rw [hs (hsymbols s hmem)]
      exact Bool.false_ne_true
    rw [jointAt, hfind (by decide), hfind (by decide), hs (by decide), Bool.false_and]
    rfl
  have hrange : rangeAt c = none := by
    simp [rangeAt, hs]
  rw [link, bind_get, hjoint]
  dsimp only
  rw [hrange]
  rfl

/-- The tokens are links, one after the other. -/
structure LinksRead (g : Grammar) (links : List Link) (v : List Token) : Prop where
  head : ∀ t ∈ v.head?, ∃ ch ∈ signs, ∃ joint, t = .punct ch joint
  reads : ∀ n, v.length < n → ReadsAs (fun braces => manyFrom (g.link braces) n) Halts links v

namespace LinksRead

theorem stops {links : List Link} {v rest : List Token} (h : LinksRead g links v)
    (hrest : Halts rest) : Stops (v ++ rest) := by
  cases v with
  | nil => exact hrest.stops
  | cons t v =>
    obtain ⟨ch, hch, joint, rfl⟩ := h.head t rfl
    exact hch

theorem not_curly {links : List Link} {v : List Token} (h : LinksRead g links v) :
    v.head? ≠ some (.opening .curly) := by
  intro hv
  obtain ⟨ch, -, joint, ht⟩ := h.head _ hv
  cases ht

theorem nil : LinksRead g [] [] where
  head := by simp
  reads := by
    intro n hn braces rest stray hrest _
    obtain ⟨n, rfl⟩ : ∃ m, n = m + 1 := ⟨n - 1, by simp at hn; omega⟩
    show manyFrom (g.link braces) (n + 1) _ = _
    rw [List.nil_append, manyFrom_succ, link_halts braces hrest]

theorem cons {l : Link} {links : List Link} {ch : Char} {joint : Bool} {u v : List Token}
    (hch : ch ∈ signs) (hl : ReadsAs g.link Stops (some l) (.punct ch joint :: u))
    (hv : LinksRead g links v) : LinksRead g (l :: links) (.punct ch joint :: u ++ v) where
  head := by
    rintro t ⟨⟩
    exact ⟨ch, hch, joint, rfl⟩
  reads := by
    intro n hn braces rest stray hrest hadmits
    obtain ⟨n, rfl⟩ : ∃ m, n = m + 1 := ⟨n - 1, by simp at hn; omega⟩
    have hlink := hl braces (v ++ rest) stray (hv.stops hrest) (hadmits.left hv.not_curly)
    have hothers := hv.reads n (by simp at hn; omega) braces rest stray hrest hadmits.right
    show manyFrom (g.link braces) (n + 1) _ = _
    rw [List.append_assoc, manyFrom_succ, hlink]
    exact bind_of_ok hothers

theorem many {links : List Link} {v : List Token} (h : LinksRead g links v) :
    ReadsAs (fun braces => many (g.link braces)) Halts links v := by
  intro braces rest stray hrest hadmits
  exact h.reads _ (by rw [List.length_append]; omega) braces rest stray hrest hadmits

end LinksRead

/-- An expression is an operand with its links. -/
theorem anyExpression_links {first : Expr} {links : List Link} {u v : List Token}
    (hu : ReadsAs g.operand Stops first u) (hv : LinksRead g links v) :
    ReadsAs g.anyExpression Halts (Chain.toExpr first links) (u ++ v) := by
  refine hu.bind (f := fun braces first => g.chain braces first) ?_
    (fun rest hrest => hv.stops hrest) hv.not_curly
  intro braces rest stray hrest hadmits
  exact (bind_of_ok (converted_stops first (hv.stops hrest) stray)).trans
    (hv.many.map (Chain.toExpr first) braces rest stray hrest hadmits)

end Grammar

end ReaderGen
