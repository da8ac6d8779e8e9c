import ReaderGen.Proofs.Inversion
import ReaderGen.Proofs.Spelling
import ReaderGen.Proofs.Value
import ReaderGen.Proofs.Words

/-!
# Where the names of an expression come from

Every name in an arithmetic expression that was read from a text is a word of that text. So a parsed
expression names only what can be read back as a variable.

What is foreign to arithmetic may hold any tokens, but it never becomes arithmetic again: the rules
only have to be followed as long as their results are.

* `Reading.Keeps`: a reading leaves only tokens that were there.
* `Reading.NamesFrom`: so does one with an arithmetic result, which names words that stood there.
* `Expr.variable_of_parse`, `Expr.readable_of_parse`: the names of a parsed expression.
-/

namespace ReaderGen

/-! ## Readings that leave what was there -/

/-- Every token left is one that was there, and what was stray is not forgotten. -/
structure Cursor.Within (c' c : Cursor) : Prop where
  mem : ∀ t ∈ c'.rest, t ∈ c.rest
  stray : c'.stray = none → c.stray = none

namespace Cursor.Within

theorem refl (c : Cursor) : c.Within c := ⟨fun _ h => h, fun h => h⟩

theorem trans {c₁ c₂ c₃ : Cursor} (h : c₂.Within c₁) (h' : c₃.Within c₂) : c₃.Within c₁ :=
  ⟨fun t ht => h.mem t (h'.mem t ht), fun hnone => h.stray (h'.stray hnone)⟩

theorem drop (n : Nat) (c : Cursor) : (c.drop n).Within c :=
  ⟨fun _ h => List.mem_of_mem_drop h, fun h => h⟩

theorem tail (t : Token) (c : Cursor) : c.Within ⟨t :: c.rest, c.stray⟩ :=
  ⟨fun _ h => .tail _ h, fun h => h⟩

theorem splitClosing (depth : Nat) (ts : List Token) :
    ∀ t ∈ (Cursor.splitClosing depth ts).2, t ∈ ts := by
  induction ts generalizing depth with
  | nil => intro t h; exact h
  | cons u ts ih =>
    intro t h
    unfold Cursor.splitClosing at h
    split at h
    · exact .tail _ (ih _ t h)
    · split at h
      · exact .tail _ h
      · exact .tail _ (ih _ t h)
    · exact .tail _ (ih _ t h)

theorem leave (c : Cursor) : c.leave.Within c := by
  unfold Cursor.leave
  split
  · exact drop 1 c
  · refine ⟨splitClosing 0 c.rest, fun h => ?_⟩
    cases hstray : c.stray with
    | none => rfl
    | some complaint =>
      rw [hstray] at h
      cases h

end Cursor.Within

namespace Reading

variable {α β : Type}

/-- The reading leaves only tokens that were there, and forgets nothing stray. -/
def Keeps (r : Reading α) : Prop := ∀ c a c', r c = .ok (a, c') → c'.Within c

namespace Keeps

theorem pure (a : α) : (Pure.pure a : Reading α).Keeps := by
  intro c b c' h
  cases h
  exact .refl c

theorem bind {r : Reading α} {f : α → Reading β} (hr : r.Keeps) (hf : ∀ a, (f a).Keeps) :
    (r >>= f).Keeps := by
  intro c b c' h
  obtain ⟨a, c₁, h₁, h₂⟩ := bind_eq_ok_iff.1 h
  exact (hr c a c₁ h₁).trans (hf a c₁ b c' h₂)

theorem get : (MonadState.get : Reading Cursor).Keeps := by
  intro c a c' h
  cases h
  exact .refl c

theorem fail (complaint : Cursor → Complaint) : (Reading.fail complaint : Reading α).Keeps := by
  intro c a c' h
  cases h

theorem ite {p : Prop} [Decidable p] {r s : Reading α} (hr : r.Keeps) (hs : s.Keeps) :
    (if p then r else s).Keeps := by
  split
  · exact hr
  · exact hs

theorem symbol (s : String) : (Reading.symbol s).Keeps := by
  intro c a c' h
  unfold Reading.symbol at h
  split at h
  · cases h
    exact .drop _ c
  · cases h

theorem anyWord : Reading.anyWord.Keeps := by
  intro c w c' h
  obtain rfl := Grammar.anyWord_of_ok h
  exact .tail _ c'

theorem enter (b : Bracket) : (Reading.enter b).Keeps := by
  intro c a c' h
  unfold Reading.enter at h
  split at h
  · cases h
    exact .drop 1 c
  · cases h

theorem leave : Reading.leave.Keeps := by
  intro c a c' h
  cases h
  exact .leave c

theorem remainder : Reading.remainder.Keeps := by
  intro c a c' h
  cases h
  exact .drop _ c

theorem given {test : Cursor → Bool} {r : Reading Tokens} (h : r.Keeps) :
    (Reading.given test r).Keeps := get.bind fun _ => h.ite (pure _)

theorem inTurn {rs : List (Reading Tokens)} (h : ∀ r ∈ rs, r.Keeps) :
    (Reading.inTurn rs).Keeps := by
  induction rs with
  | nil => exact pure _
  | cons r rs ih =>
    exact (h r (.head _)).bind fun _ => (ih fun s hs => h s (.tail _ hs)).bind fun _ => pure _

theorem within {b : Bracket} {r : Reading Tokens} (h : r.Keeps) : (Reading.within b r).Keeps :=
  (enter b).bind fun _ => h.bind fun _ => leave.bind fun _ => pure _

theorem manyFrom {step : Reading (Option α)} (h : step.Keeps) (n : Nat) :
    (Reading.manyFrom step n).Keeps := by
  induction n with
  | zero => exact fail _
  | succ n ih =>
    refine h.bind fun a => ?_
    cases a with
    | none => exact pure _
    | some a => exact ih.bind fun _ => pure _

theorem many {step : Reading (Option α)} (h : step.Keeps) : (Reading.many step).Keeps :=
  fun c a c' hc => manyFrom h _ c a c' hc

theorem manyGiven {test : Cursor → Bool} {r : Reading Tokens} (h : r.Keeps) :
    (Reading.manyGiven test r).Keeps :=
  (many (get.bind fun _ => (h.bind fun _ => pure _).ite (pure _))).bind fun _ => pure _

theorem joinedFrom {stop : Cursor → Bool} {part : Reading α} (h : part.Keeps) (joint : String)
    (n : Nat) : (Reading.joinedFrom stop part joint n).Keeps := by
  induction n with
  | zero => exact fail _
  | succ n ih =>
    exact get.bind fun _ => (pure _).ite (h.bind fun _ => get.bind fun _ =>
      (pure _).ite ((symbol joint).bind fun _ => ih.bind fun _ => pure _))

end Keeps

end Reading

/-! ## Words in a list of tokens -/

/-- The word stands among the tokens, and may name something. -/
def Cursor.HasWord (c : Cursor) (x : String) : Prop :=
  Token.ident x ∈ c.rest ∧ Word.isSegment x = true

theorem Cursor.HasWord.of_within {c c' : Cursor} {x : String} (h : c'.Within c)
    (hx : c'.HasWord x) : c.HasWord x := ⟨h.mem _ hx.1, hx.2⟩

/-- If the result is arithmetic, it names only words that stand here, and only tokens that were here
are left. -/
def Reading.NamesFrom (r : Reading Expr) : Prop := ∀ c e c', r c = .ok (e, c') → e.Arithmetic →
  c'.Within c ∧ ∀ x ∈ e.names, c.HasWord x

namespace Grammar

open Reading

variable {g : Grammar}

theorem attributes_keeps : attributes.Keeps := by
  have hplain : plainPath.Keeps := by
    refine (Keeps.given (.symbol _)).bind fun _ => Keeps.bind ?_ fun segments => ?_
    · exact fun c a c' h => Keeps.joinedFrom .anyWord _ _ c a c' h
    · cases segments.getLast? with
      | none => exact .fail _
      | some p =>
        obtain ⟨w, s⟩ := p
        cases s with
        | nil => exact .pure _
        | cons t ts => exact .fail _
  refine .manyGiven (.inTurn ?_)
  intro r hr
  rcases List.mem_cons.1 hr with rfl | hr
  · exact .symbol _
  · obtain rfl := List.mem_singleton.1 hr
    refine .within (.inTurn ?_)
    intro r hr
    rcases List.mem_cons.1 hr with rfl | hr
    · exact hplain
    · obtain rfl := List.mem_singleton.1 hr
      exact .remainder

/-! ## Atoms and operands -/

variable (g) in
/-- The grammar reads expressions and operands that name only words that stand there. -/
structure NamesFrom : Prop where
  expression : ∀ braces, (g.expression braces).NamesFrom
  operand : ∀ braces, (g.operand braces).NamesFrom

theorem named_namesFrom (braces : Bool) : (g.named braces).NamesFrom := by
  intro c e c' h he
  obtain ⟨w, rfl, rfl, hw⟩ := named_of_ok h he
  refine ⟨.tail _ c', fun x hx => ?_⟩
  obtain rfl := List.mem_singleton.1 hx
  exact ⟨.head _, hw⟩

theorem round_namesFrom (hg : g.NamesFrom) : g.round.NamesFrom := by
  intro c e c' h he
  obtain ⟨inner, c₁, rfl, -, hinner, -, rfl⟩ := round_of_ok h he
  have hdrop := Cursor.Within.drop 1 c
  obtain ⟨h₁, hnames⟩ := hg.expression true _ inner c₁ hinner he
  exact ⟨hdrop.trans (h₁.trans (.leave c₁)), fun x hx => (hnames x hx).of_within hdrop⟩

theorem atom_namesFrom (hg : g.NamesFrom) (braces : Bool) : (g.atom braces).NamesFrom := by
  intro c e c' h he
  rcases atom_of_ok h he with ⟨value, text, rfl, rfl⟩ | h | ⟨h, -, -⟩
  · exact ⟨.tail _ c', fun x hx => by cases hx⟩
  · exact round_namesFrom hg c e c' h he
  · exact named_namesFrom braces c e c' h he

theorem iterate_trailer (hg : g.NamesFrom) {n : Nat} {a b : Expr} {c c' : Cursor}
    (h : iterateFrom g.trailer n a c = .ok (b, c')) (hb : b.Arithmetic) :
    a.Arithmetic ∧ c'.Within c ∧ ∀ x ∈ b.names, x ∈ a.names ∨ c.HasWord x := by
  induction n generalizing a c with
  | zero => cases h
  | succ n ih =>
    rw [iterateFrom_succ] at h
    split at h
    · rename_i c₁ hstep
      cases h
      obtain rfl := trailer_of_none hstep
      exact ⟨hb, .refl _, fun x hx => .inl hx⟩
    · rename_i a' c₁ hstep
      obtain ⟨ha', h₁, hnames⟩ := ih h
      obtain ⟨i, c₂, rfl, -, hi, rfl⟩ := trailer_of_ok hstep ha'
      have hdrop := Cursor.Within.drop 1 c
      obtain ⟨h₂, hnames'⟩ := hg.expression true _ i c₂ hi ha'.2
      have h₃ := hdrop.trans (h₂.trans (.leave c₂))
      refine ⟨ha'.1, h₃.trans h₁, fun x hx => ?_⟩
      rcases hnames x hx with hx | hx
      · rcases List.mem_append.1 hx with hx | hx
        · exact .inl hx
        · exact .inr ((hnames' x hx).of_within hdrop)
      · exact .inr (hx.of_within h₃)
    · cases h

theorem bareOperand_namesFrom (hg : g.NamesFrom) (braces : Bool) :
    (g.bareOperand braces).NamesFrom := by
  intro c e c' h he
  rcases bareOperand_of_ok h he with ⟨mark, operand, c₁, hsymbol, hoperand, rfl⟩ |
    ⟨a, c₁, hatom, h⟩
  · have h₁ := Keeps.symbol _ c mark c₁ hsymbol
    obtain ⟨h₂, hnames⟩ := hg.operand braces c₁ operand c' hoperand he.2
    exact ⟨h₁.trans h₂, fun x hx => (hnames x hx).of_within h₁⟩
  · obtain ⟨ha, h₂, hnames⟩ := iterate_trailer hg h he
    obtain ⟨h₁, hnames'⟩ := atom_namesFrom hg braces c a c₁ hatom ha
    refine ⟨h₁.trans h₂, fun x hx => ?_⟩
    rcases hnames x hx with hx | hx
    · exact hnames' x hx
    · exact hx.of_within h₁

theorem anyOperand_namesFrom (hg : g.NamesFrom) (braces : Bool) :
    (g.anyOperand braces).NamesFrom := by
  intro c e c' h he
  obtain ⟨start, c₁, a, hstart, ha, rfl, harith⟩ := anyOperand_of_ok h he
  have h₁ := attributes_keeps c start c₁ hstart
  have hsame : (a.withAttributes start).names = a.names := by
    unfold Expr.withAttributes
    split
    · rfl
    · rfl
  rw [hsame]
  obtain ⟨h₂, hnames⟩ := bareOperand_namesFrom hg braces c₁ a c' ha harith
  exact ⟨h₁.trans h₂, fun x hx => (hnames x hx).of_within h₁⟩

/-! ## Links -/

theorem manyFrom_link (hg : g.NamesFrom) {braces : Bool} {n : Nat} {c c' : Cursor}
    {rest : List (BinaryOp × Expr)}
    (h : manyFrom (g.link braces) n c = .ok (rest.map fun l => .binary l.1 l.2, c'))
    (hrest : ∀ l ∈ rest, l.2.Arithmetic) :
    c'.Within c ∧ ∀ l ∈ rest, ∀ x ∈ l.2.names, c.HasWord x := by
  induction n generalizing c rest with
  | zero => cases h
  | succ n ih =>
    rcases manyFrom_link_of_ok h with ⟨rfl, rfl⟩ | ⟨op, e, others, c₁, rfl, hlink, hothers⟩
    · exact ⟨.refl _, fun l hl => by cases hl⟩
    · obtain ⟨he, hrest⟩ := List.forall_mem_cons.1 hrest
      obtain ⟨mark, operand, c₂, c₃, -, hsymbol, hoperand, hconverted⟩ := link_of_ok hlink
      obtain ⟨rfl, rfl⟩ := converted_of_ok hconverted he
      have h₁ := Keeps.symbol _ c mark c₂ hsymbol
      obtain ⟨h₂, hnames⟩ := hg.operand braces c₂ _ _ hoperand he
      obtain ⟨h₃, hnames'⟩ := ih hothers hrest
      have h₄ := h₁.trans h₂
      refine ⟨h₄.trans h₃, List.forall_mem_cons.2 ⟨?_, ?_⟩⟩
      · exact fun x hx => (hnames x hx).of_within h₁
      · exact fun l hl x hx => (hnames' l hl x hx).of_within h₄

theorem anyExpression_namesFrom (hg : g.NamesFrom) (braces : Bool) :
    (g.anyExpression braces).NamesFrom := by
  intro c e c' h he
  obtain ⟨first, c₁, rest, hfirst, hlinks, hlevels, rfl, hf, hrest⟩ := anyExpression_of_ok h he
  obtain ⟨h₁, hnames⟩ := hg.operand braces c _ _ hfirst hf
  obtain ⟨h₂, hnames'⟩ := manyFrom_link hg hlinks fun l hl => (hrest l hl).2
  refine ⟨h₁.trans h₂, ?_⟩
  refine (Chain.resolve_iff (Q := fun _ => True) (P := fun e => ∀ x ∈ e.names, c.HasWord x) ?_ _
    hlevels).2 ⟨hnames, fun l hl => ⟨trivial, fun x hx => (hnames' l hl x hx).of_within h₁⟩⟩
  intro op l r
  simp only [Expr.names, List.mem_append, or_imp, forall_and, true_and]

/-- At every depth the grammar names only words that stand there. -/
theorem ofDepth_namesFrom (n : Nat) : (ofDepth n).NamesFrom := by
  induction n with
  | zero => exact ⟨fun _ c e c' h => (by cases h), fun _ c e c' h => (by cases h)⟩
  | succ n ih => exact ⟨anyExpression_namesFrom ih, anyOperand_namesFrom ih⟩

end Grammar

namespace Expr

/-- The names of an arithmetic expression that was read from a text are words that stand in it. -/
theorem variable_of_parse {text : String} {e : Expr} (h : Expr.parse text = .ok e)
    (he : e.Arithmetic) : ∀ x ∈ e.names, Word.IsVariable x := by
  intro x hx
  obtain ⟨lexemes, hscan, hread⟩ := parse_eq_ok_iff.1 h
  obtain ⟨-, hnames⟩ := (Grammar.ofDepth_namesFrom _).expression true _ e _ hread he
  obtain ⟨hmem, hsegment⟩ := hnames x hx
  obtain ⟨l, hl, htoken⟩ := List.mem_map.1 hmem
  exact ⟨Scanner.ident_of_scan hscan l hl x htoken, hsegment⟩

/-- A text is read as the variable of that name just if it is a word that names a variable. -/
theorem parse_eq_name_iff {x : String} : Expr.parse x = .ok (.name x) ↔ Word.IsVariable x :=
  ⟨fun h => variable_of_parse h trivial x (.head _), fun h => parse_spelled (e := .name x) h⟩

theorem Readable.variable {e : Expr} (h : e.Readable) : ∀ x ∈ e.names, Word.IsVariable x :=
  fun x hx => parse_eq_name_iff.1 (h x hx)

/-- What is read from a text and stands for a polynomial can be written and read again. -/
theorem readable_of_parse {text : String} {e : Expr} {p : Poly} (h : Expr.parse text = .ok e)
    (hp : e.toPoly = .ok p) : e.Readable :=
  fun x hx => parse_eq_name_iff.2 (variable_of_parse h (arithmetic_of_lowered.1 p hp) x hx)

end Expr

end ReaderGen
