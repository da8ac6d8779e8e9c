import ReaderGen.Proofs.Attributes
import ReaderGen.Proofs.Origin

/-!
# An expression in another place

What is read as an arithmetic expression at one place is read as the same one wherever its tokens stand,
if only it stops there. A text that is an expression by itself is one as the subscript of an item, and as
the bound of a loop unless its last word takes the body of the loop for its own block.

* `Taken`: what a reading has taken, with the brackets in it matched.
* `Grammar.Carries`: what one grammar reads as arithmetic, another one reads as the same wherever it
  stands.
* `Grammar.ofDepth_carries`: so it is with the grammars of any depth and a larger one.
-/

namespace ReaderGen

/-- Between two places stand these tokens: self-contained, not all of them punctuation, and with no part in
a block that follows. -/
structure Taken (c c' : Cursor) (used : List Token) : Prop where
  rest : c.rest = used ++ c'.rest
  contained : Token.SelfContained used
  solid : ∃ t ∈ used, ∀ ch joint, t ≠ .punct ch joint
  block : c'.opens .curly = true → leavesBlock used = true

theorem Taken.openAfter {c c' : Cursor} {used : List Token} (h : Taken c c' used)
    {stack : List Bracket} (hstack : Token.openAfter stack c.rest = some []) :
    Token.openAfter stack c'.rest = some [] := by
  rwa [h.rest, Token.openAfter_balanced h.contained.balanced] at hstack

/-- What is read as arithmetic and leaves nothing stray is read as the same by another rule, wherever its
tokens stand. The brackets that are open here have to be closed in what follows. -/
def Reading.Carries (r : Reading Expr) (r' : Bool → Reading Expr) (tail : List Token → Prop) : Prop :=
  ∀ ⦃c : Cursor⦄ ⦃e : Expr⦄ ⦃c' : Cursor⦄ ⦃stack : List Bracket⦄, r c = .ok (e, c') →
    e.Arithmetic → c'.stray = none → Token.openAfter stack c.rest = some [] →
      ∃ used, Taken c c' used ∧ ReadsAs r' tail e used

namespace Grammar

open Reading

structure Carries (g g' : Grammar) : Prop where
  names : g.NamesFrom
  expression : ∀ braces, (g.expression braces).Carries g'.expression Halts
  operand : ∀ braces, (g.operand braces).Carries g'.operand Stops

variable {g g' : Grammar}

/-! ## Brackets -/

theorem atEnd_of_leave {c : Cursor} (h : c.leave.stray = none) :
    c.atEnd = true ∧ c.stray = none ∧ c.leave = c.drop 1 := by
  unfold Cursor.leave at h ⊢
  split at h
  · rename_i hend
    exact ⟨hend, h, if_pos hend⟩
  · obtain ⟨rest, stray⟩ := c
    cases stray <;> cases h

/-- Where a bracket is open, the end is its end. -/
theorem rest_of_atEnd {c : Cursor} {b : Bracket} {stack : List Bracket} (h : c.atEnd = true)
    (hstack : Token.openAfter (b :: stack) c.rest = some []) :
    c.rest = .closing b :: (c.drop 1).rest := by
  obtain ⟨rest, stray⟩ := c
  cases rest with
  | nil => cases hstack
  | cons t rest =>
    cases t with
    | closing b' =>
      rw [Token.openAfter] at hstack
      split at hstack
      · rename_i hb
        rw [hb]
        rfl
      · cases hstack
    | _ => cases h

/-- An expression in brackets, with nothing stray in them. -/
theorem enclosed_carries (hg : g.Carries g') {b : Bracket} {c c₁ : Cursor} {e : Expr}
    {stack : List Bracket} (hopen : c.opens b = true)
    (h : g.expression true (c.drop 1) = .ok (e, c₁)) (he : e.Arithmetic)
    (hstray : c₁.leave.stray = none) (hstack : Token.openAfter stack c.rest = some []) :
    ∃ u, c.rest = Token.bracketed b u ++ c₁.leave.rest ∧ Token.openAfter [] u = some [] ∧ u ≠ [] ∧
      ReadsAs g'.expression Halts e u := by
  obtain ⟨ts, hc⟩ := rest_of_opens hopen
  obtain ⟨rest, stray⟩ := c
  subst hc
  obtain ⟨hend, hstray₁, hleave⟩ := atEnd_of_leave hstray
  have hinside : Token.openAfter (b :: stack) ts = some [] := hstack
  obtain ⟨u, htaken, hreads⟩ := hg.expression true h he hstray₁ hinside
  obtain ⟨t, ht, -⟩ := htaken.solid
  refine ⟨u, ?_, htaken.contained.balanced, List.ne_nil_of_mem ht, hreads⟩
  have hts : ts = u ++ c₁.rest := htaken.rest
  rw [hts, rest_of_atEnd hend (htaken.openAfter hinside), hleave]
  simp [Token.bracketed]

/-- Tokens with matching brackets do not begin with the end of a bracket. -/
theorem not_atEnd_of_balanced {u : List Token} (hu : Token.openAfter [] u = some []) (hne : u ≠ [])
    (ts : List Token) (stray : Option Complaint) : Cursor.atEnd ⟨u ++ ts, stray⟩ = false := by
  cases u with
  | nil => exact absurd rfl hne
  | cons t u =>
    cases t with
    | closing b => cases hu
    | _ => rfl

theorem leavesBlock_bracketed (b : Bracket) (u : List Token) :
    leavesBlock (Token.bracketed b u) = true := by
  rw [Token.bracketed, leavesBlock_append (List.cons_ne_nil _ _)]
  rfl

/-! ## Atoms and their subscripts -/

theorem atom_carries (hg : g.Carries g') {braces : Bool} {c c' : Cursor} {e : Expr}
    {stack : List Bracket} (h : g.atom braces c = .ok (e, c')) (he : e.Arithmetic)
    (hstray : c'.stray = none) (hstack : Token.openAfter stack c.rest = some []) :
    ∃ t u, Taken c c' (t :: u) ∧ Begins t ∧ (∀ ch joint, t ≠ .punct ch joint) ∧
      ReadsAs g'.atom Follows e (t :: u) := by
  rcases atom_of_ok h he with ⟨value, text, rfl, rfl⟩ | h | ⟨h, hlater, htry⟩
  · refine ⟨.int value text, [], ?_, trivial, by simp, g'.atom_int value text⟩
    exact ⟨rfl, .of_not_bracket rfl, ⟨_, .head _, by simp⟩, fun _ => rfl⟩
  · obtain ⟨inner, c₁, rfl, hopen, hinner, -, rfl⟩ := round_of_ok h he
    obtain ⟨u, hrest, hu, hne, hreads⟩ := enclosed_carries hg hopen hinner he hstray hstack
    refine ⟨.opening .round, u ++ [Token.closing .round], ?_, trivial, by simp,
      atom_round hreads (not_atEnd_of_balanced hu hne)⟩
    exact ⟨hrest, .bracketed (by decide) hu, ⟨_, .head _, by simp⟩,
      fun _ => leavesBlock_bracketed .round u⟩
  · obtain ⟨w, rfl, rfl, hw⟩ := named_of_ok h he
    refine ⟨.ident w, [], ?_, hw, by simp, g'.atom_word hw⟩
    refine ⟨rfl, .of_not_bracket rfl, ⟨_, .head _, by simp⟩, fun hcurly => ?_⟩
    -- a word that takes the block would have been read with it
    have hnext : Cursor.next ⟨.ident w :: c'.rest, c'.stray⟩ = c' := rfl
    rw [beginsLater, hnext, hcurly, Bool.true_or, Bool.and_true] at hlater
    rw [beginsTry, hnext, hcurly, Bool.and_true] at htry
    simpa [leavesBlock, blockWords, Cursor.isWord] using And.intro hlater htry

theorem trailers_carry (hg : g.Carries g') {n : Nat} {a e : Expr} {c c' : Cursor}
    {stack : List Bracket} (h : iterateFrom g.trailer n a c = .ok (e, c')) (he : e.Arithmetic)
    (hstray : c'.stray = none) (hstack : Token.openAfter stack c.rest = some []) :
    ∃ v, c.rest = v ++ c'.rest ∧ Token.SelfContained v ∧ leavesBlock v = true ∧
      TrailersRead g' a e v := by
  induction n generalizing a c with
  | zero => cases h
  | succ n ih =>
    rw [iterateFrom_succ] at h
    split at h
    · rename_i c₁ hstep
      cases h
      obtain rfl := trailer_of_none hstep
      exact ⟨[], rfl, .nil, rfl, .nil e⟩
    · rename_i a' c₁ hstep
      obtain ⟨ha', hwithin, -⟩ := iterate_trailer hg.names h he
      obtain ⟨i, c₂, rfl, hopen, hi, rfl⟩ := trailer_of_ok hstep ha'
      obtain ⟨u, hrest, hu, -, hreads⟩ :=
        enclosed_carries hg hopen hi ha'.2 (hwithin.stray hstray) hstack
      have hbrackets := Token.SelfContained.bracketed (b := .square) (by decide) hu
      rw [hrest, Token.openAfter_balanced hbrackets.balanced] at hstack
      obtain ⟨v, hv, hcontained, hblock, htrailers⟩ := ih h hstack
      refine ⟨Token.bracketed .square u ++ v, by rw [hrest, hv, List.append_assoc],
        hbrackets.append hcontained, ?_, (TrailersRead.single a hreads).trans htrailers⟩
      cases v with
      | nil => rw [List.append_nil, leavesBlock_bracketed]
      | cons t v => rw [leavesBlock_append (List.cons_ne_nil t v), hblock]
    · cases h

/-! ## Operands -/

theorem bareOperand_carries (hg : g.Carries g') {braces : Bool} {c c' : Cursor} {e : Expr}
    {stack : List Bracket} (h : g.bareOperand braces c = .ok (e, c')) (he : e.Arithmetic)
    (hstray : c'.stray = none) (hstack : Token.openAfter stack c.rest = some []) :
    ∃ t u, Taken c c' (t :: u) ∧ Begins t ∧ ReadsAs g'.bareOperand Stops e (t :: u) := by
  rcases bareOperand_of_ok h he with ⟨mark, operand, c₁, hsymbol, hoperand, rfl⟩ | ⟨a, c₁, hatom, h⟩
  · obtain ⟨joint, rfl⟩ := symbol_of_ok (by rfl) hsymbol
    rw [Token.openAfter_of_not_bracket rfl] at hstack
    obtain ⟨u, htaken, hreads⟩ := hg.operand braces hoperand he.2 hstray hstack
    obtain ⟨t, ht, hp⟩ := htaken.solid
    refine ⟨.punct '-' joint, u, ?_, rfl, bareOperand_neg joint hreads⟩
    refine ⟨congrArg (Token.punct '-' joint :: ·) htaken.rest, .cons rfl htaken.contained,
      ⟨t, .tail _ ht, hp⟩, fun hcurly => ?_⟩
    rw [← List.singleton_append, leavesBlock_append (List.ne_nil_of_mem ht), htaken.block hcurly]
  · obtain ⟨ha, hwithin, -⟩ := iterate_trailer hg.names h he
    obtain ⟨t, u, htaken, ht, hp, hreads⟩ :=
      atom_carries hg hatom ha (hwithin.stray hstray) hstack
    obtain ⟨v, hv, hcontained, hblock, hreads'⟩ :=
      trailers_carry hg h he hstray (htaken.openAfter hstack)
    refine ⟨t, u ++ v, ?_, ht, bareOperand_trailers ht hp hreads hreads'⟩
    refine ⟨by rw [htaken.rest, hv, ← List.cons_append, List.append_assoc],
      htaken.contained.append hcontained, ⟨t, .head _, hp⟩, fun hcurly => ?_⟩
    rw [← List.cons_append]
    cases v with
    | nil =>
      rw [List.append_nil]
      refine htaken.block ?_
      rw [Cursor.opens, hv]
      exact hcurly
    | cons t' v => rw [leavesBlock_append (List.cons_ne_nil t' v), hblock]

theorem anyOperand_carries (hg : g.Carries g') (braces : Bool) :
    (g.anyOperand braces).Carries g'.anyOperand Stops := by
  intro c e c' stack h he hstray hstack
  obtain ⟨start, c₁, a, hstart, ha, rfl, harith⟩ := anyOperand_of_ok h he
  obtain ⟨w, rfl, hw, hattributes⟩ := attributes_of_ok hstart hstack
  rw [Token.openAfter_balanced hw.balanced] at hstack
  obtain ⟨t, u, htaken, ht, hreads⟩ := bareOperand_carries hg ha harith hstray hstack
  obtain ⟨s, hs, hp⟩ := htaken.solid
  refine ⟨w ++ t :: u, ?_, anyOperand_attributes hattributes ht hreads⟩
  refine ⟨by rw [List.append_assoc, ← htaken.rest], hw.append htaken.contained,
    ⟨s, List.mem_append_right w hs, hp⟩, fun hcurly => ?_⟩
  rw [leavesBlock_append (List.cons_ne_nil t u), htaken.block hcurly]

/-! ## Chains -/

/-- The operator that stands here is told by the run of punctuation. -/
theorem jointAt_congr {c c' : Cursor} (h : Cursor.runOf c.rest = Cursor.runOf c'.rest) :
    jointAt c = jointAt c' := by
  have hs : ∀ s, c.startsWith s = c'.startsWith s := by
    intro s
    rw [Cursor.startsWith, Cursor.startsWith, h]
  simp only [jointAt, hs]

/-- An arithmetic operator has one character. -/
theorem sign_of_isArithmetic {op : BinaryOp} (h : op.IsArithmetic) :
    ∃ ch ∈ signs, op.symbol.toList = [ch] := by
  cases op with
  | add => exact ⟨'+', by decide, rfl⟩
  | sub => exact ⟨'-', by decide, rfl⟩
  | mul => exact ⟨'*', by decide, rfl⟩
  | div => exact ⟨'/', by decide, rfl⟩
  | rem => exact ⟨'%', by decide, rfl⟩
  | other s => exact h.elim

theorem links_carry (hg : g.Carries g') {braces : Bool} {n : Nat} {c c' : Cursor}
    {rest : List (BinaryOp × Expr)} {stack : List Bracket}
    (h : manyFrom (g.link braces) n c = .ok (rest.map fun l => .binary l.1 l.2, c'))
    (hrest : ∀ l ∈ rest, l.1.IsArithmetic ∧ l.2.Arithmetic) (hstray : c'.stray = none)
    (hstack : Token.openAfter stack c.rest = some []) :
    ∃ v, c.rest = v ++ c'.rest ∧ Token.SelfContained v ∧
      (c'.opens .curly = true → leavesBlock v = true) ∧
      LinksRead g' (rest.map fun l => .binary l.1 l.2) v := by
  induction n generalizing c rest with
  | zero => cases h
  | succ n ih =>
    rcases manyFrom_link_of_ok h with ⟨rfl, rfl⟩ | ⟨op, e, others, c₁, rfl, hlink, hothers⟩
    · exact ⟨[], rfl, .nil, fun _ => rfl, .nil⟩
    · obtain ⟨⟨hop, he⟩, hrest⟩ := List.forall_mem_cons.1 hrest
      obtain ⟨hwithin, -⟩ := manyFrom_link hg.names hothers fun l hl => (hrest l hl).2
      obtain ⟨mark, operand, c₂, c₃, hjoint, hsymbol, hoperand, hconverted⟩ := link_of_ok hlink
      obtain ⟨rfl, rfl⟩ := converted_of_ok hconverted he
      obtain ⟨ch, hch, hsign⟩ := sign_of_isArithmetic hop
      obtain ⟨joint, rfl⟩ := symbol_of_ok hsign hsymbol
      rw [Token.openAfter_of_not_bracket rfl] at hstack
      obtain ⟨u, htaken, hreads⟩ := hg.operand braces hoperand he (hwithin.stray hstray) hstack
      obtain ⟨v, hv, hcontained, hblock, hlinks⟩ := ih hothers hrest (htaken.openAfter hstack)
      obtain ⟨t, ht, hp⟩ := htaken.solid
      -- the operator is the same, whatever comes after its operand
      have hjoint' : ∀ rest stray, jointAt ⟨.punct ch joint :: (u ++ rest), stray⟩ =
          some (.binary op) := by
        intro rest stray
        have hsolid : ∃ s ∈ Token.punct ch joint :: u, ∀ ch' joint', s ≠ .punct ch' joint' :=
          ⟨t, .tail _ ht, hp⟩
        rw [← hjoint]
        refine jointAt_congr ?_
        rw [htaken.rest]
        exact Cursor.runOf_append hsolid rest c₁.rest
      refine ⟨.punct ch joint :: u ++ v, ?_, (htaken.contained.cons rfl).append hcontained,
        fun hcurly => ?_, .cons hch (link_operand hsign hjoint' hreads) hlinks⟩
      · rw [htaken.rest, hv, List.cons_append, List.cons_append, List.append_assoc]
      · cases v with
        | nil =>
          rw [List.append_nil, ← List.singleton_append, leavesBlock_append (List.ne_nil_of_mem ht)]
          refine htaken.block ?_
          rw [Cursor.opens, hv]
          exact hcurly
        | cons t' v => rw [leavesBlock_append (List.cons_ne_nil t' v), hblock hcurly]

theorem anyExpression_carries (hg : g.Carries g') (braces : Bool) :
    (g.anyExpression braces).Carries g'.anyExpression Halts := by
  intro c e c' stack h he hstray hstack
  obtain ⟨first, c₁, rest, hfirst, hlinks, -, rfl, hf, hrest⟩ := anyExpression_of_ok h he
  obtain ⟨hwithin, -⟩ := manyFrom_link hg.names hlinks fun l hl => (hrest l hl).2
  obtain ⟨u, htaken, hreads⟩ := hg.operand braces hfirst hf (hwithin.stray hstray) hstack
  obtain ⟨v, hv, hcontained, hblock, hreads'⟩ :=
    links_carry hg hlinks hrest hstray (htaken.openAfter hstack)
  obtain ⟨t, ht, hp⟩ := htaken.solid
  have hread := anyExpression_links hreads hreads'
  rw [Chain.toExpr, Chain.mapM_binary?.2 rfl] at hread
  refine ⟨u ++ v, ⟨by rw [htaken.rest, hv, List.append_assoc], htaken.contained.append hcontained,
    ⟨t, List.mem_append_left v ht, hp⟩, fun hcurly => ?_⟩, hread⟩
  cases v with
  | nil =>
    rw [List.append_nil]
    refine htaken.block ?_
    rw [Cursor.opens, hv]
    exact hcurly
  | cons t' v => rw [leavesBlock_append (List.cons_ne_nil t' v), hblock hcurly]

/-! ## Whole expressions -/

/-- What is read at one depth is read as the same at any larger one. -/
theorem ofDepth_carries {n m : Nat} (h : n ≤ m) : (ofDepth n).Carries (ofDepth m) := by
  induction n generalizing m with
  | zero =>
    refine ⟨ofDepth_namesFrom 0, fun _ c e c' stack h => ?_, fun _ c e c' stack h => ?_⟩
    · cases h
    · cases h
  | succ n ih =>
    obtain ⟨m, rfl⟩ : ∃ k, m = k + 1 := ⟨m - 1, by omega⟩
    have hg : (ofDepth n).Carries (ofDepth m) := ih (by omega)
    exact ⟨ofDepth_namesFrom (n + 1), anyExpression_carries hg, anyOperand_carries hg⟩

end Grammar

end ReaderGen
