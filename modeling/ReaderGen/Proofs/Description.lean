import ReaderGen.Format.Load
import ReaderGen.Proofs.Meaning
import ReaderGen.Proofs.Placement

/-!
# Words of a description

Every variable of a format that was read from a text is a word of that text, and every size and index
is the canonical text of an expression whose names are words of it. The expressions of the description
are arithmetic, since they have canonical forms, so what is left after one of them are tokens that were
there before it.

* `Reading.Finds`: the words of what is read stand where it is read.
* `Description.statements_cases`: what statements are read from.
* `Description.statements_of_ok`: the variables and expressions of the statements stand in the
  description.
* `Format.word_of_read`: the variables of a format are words.
* `Format.canonicalText_of_read`: its sizes and indices are canonical texts.
-/

namespace ReaderGen

namespace Format

/-! ## Sizes and indices -/

mutual

/-- The sizes and indices of a format. -/
def exprs : Format → List String
  | .item _ indices => indices
  | .newline => []
  | .sequence items => exprsAll items
  | .loop _ size body => size :: exprs body

def exprsAll : List Format → List String
  | [] => []
  | f :: fs => exprs f ++ exprsAll fs

end

theorem mem_exprsAll {text : String} {fs : List Format} :
    text ∈ exprsAll fs ↔ ∃ f ∈ fs, text ∈ f.exprs := by
  induction fs with
  | nil => simp [exprsAll]
  | cons f fs ih => simp [exprsAll, ih]

end Format

/-! ## Readings of words -/

namespace Reading

variable {α : Type} {P : α → Prop} {found : Cursor → α → Prop}

/-- If the result has a property, then something of it stands here, and only tokens that were here
are left. -/
def Finds (r : Reading α) (P : α → Prop) (found : Cursor → α → Prop) : Prop :=
  ∀ c a c', r c = .ok (a, c') → P a → c'.Within c ∧ found c a

theorem Finds.manyFrom {step : Reading (Option α)}
    (h : step.Finds (fun as => ∀ a ∈ as, P a) (fun c as => ∀ a ∈ as, found c a))
    (hmono : ∀ {c c' : Cursor} {a}, c'.Within c → found c' a → found c a) (n : Nat) :
    (Reading.manyFrom step n).Finds (fun as => ∀ a ∈ as, P a) (fun c as => ∀ a ∈ as, found c a) := by
  intro c as c' hr has
  induction n generalizing c as with
  | zero => cases hr
  | succ n ih =>
    rw [manyFrom_succ] at hr
    split at hr
    · rename_i c₁ hstep
      cases hr
      exact ⟨(h c _ _ hstep (by simp)).1, by simp⟩
    · rename_i a c₁ hstep
      obtain ⟨as', c₂, hrest, hr⟩ := bind_eq_ok_iff.1 hr
      cases hr
      obtain ⟨h₁, hfirst⟩ := h c _ _ hstep (by simpa using has a (.head _))
      obtain ⟨h₂, hothers⟩ := ih c₁ as' hrest fun b hb => has b (.tail _ hb)
      refine ⟨h₁.trans h₂, List.forall_mem_cons.2 ⟨hfirst a rfl, fun b hb => ?_⟩⟩
      exact hmono h₁ (hothers b hb)
    · cases hr

theorem Finds.joinedFrom {part : Reading α} (h : part.Finds P found)
    (hmono : ∀ {c c' : Cursor} {a}, c'.Within c → found c' a → found c a)
    (stop : Cursor → Bool) (joint : String) (n : Nat) :
    (Reading.joinedFrom stop part joint n).Finds (fun as => ∀ a ∈ as, P a.1)
      (fun c as => ∀ a ∈ as, found c a.1) := by
  intro c as c' hr has
  induction n generalizing c as with
  | zero => cases hr
  | succ n ih =>
    rw [Reading.joinedFrom, bind_get] at hr
    rcases cond_eq_ok hr with ⟨-, hr⟩ | ⟨-, hr⟩
    · cases hr
      exact ⟨.refl _, by simp⟩
    · obtain ⟨a, c₁, hpart, hr⟩ := bind_eq_ok_iff.1 hr
      rw [bind_get] at hr
      rcases cond_eq_ok hr with ⟨-, hr⟩ | ⟨-, hr⟩
      · cases hr
        obtain ⟨h₁, hfirst⟩ := h c a _ hpart (has _ (.head _))
        exact ⟨h₁, by simpa using hfirst⟩
      · obtain ⟨s, c₂, hsymbol, hr⟩ := bind_eq_ok_iff.1 hr
        obtain ⟨as', c₃, hrest, hr⟩ := bind_eq_ok_iff.1 hr
        cases hr
        obtain ⟨h₁, hfirst⟩ := h c a _ hpart (has _ (.head _))
        have h₂ := Keeps.symbol joint c₁ s c₂ hsymbol
        obtain ⟨h₃, hothers⟩ := ih c₂ as' hrest fun b hb => has b (.tail _ hb)
        refine ⟨(h₁.trans h₂).trans h₃, List.forall_mem_cons.2 ⟨hfirst, fun b hb => ?_⟩⟩
        exact hmono (h₁.trans h₂) (hothers b hb)

end Reading

namespace Description

open Reading

variable {g : Grammar}

/-! ## Items -/

theorem located_finds (hg : g.NamesFrom) (braces : Bool) :
    (located g braces).Finds (·.expr.Arithmetic) (fun c e => ∀ x ∈ e.expr.names, c.HasWord x) := by
  intro c e c' h he
  rw [located, bind_get] at h
  obtain ⟨expr, c₁, hexpr, h⟩ := bind_eq_ok_iff.1 h
  cases h
  exact hg.expression braces c expr _ hexpr he

theorem index_finds (hg : g.NamesFrom) :
    (index g).Finds (fun found => ∀ e ∈ found, e.expr.Arithmetic)
      (fun c found => ∀ e ∈ found, ∀ x ∈ e.expr.names, c.HasWord x) := by
  intro c found c' h hfound
  rw [index, bind_get] at h
  rcases cond_eq_ok h with ⟨-, h⟩ | ⟨-, h⟩
  · cases h
    exact ⟨.refl _, by simp⟩
  · obtain ⟨_, c₁, henter, h⟩ := bind_eq_ok_iff.1 h
    obtain ⟨e, c₂, hlocated, h⟩ := bind_eq_ok_iff.1 h
    obtain ⟨_, c₃, hleave, h⟩ := bind_eq_ok_iff.1 h
    cases h
    have h₁ := Keeps.enter .square c _ c₁ henter
    obtain ⟨h₂, hnames⟩ := located_finds hg true c₁ e c₂ hlocated (hfound e rfl)
    have h₃ := Keeps.leave c₂ _ _ hleave
    refine ⟨(h₁.trans h₂).trans h₃, fun e' he' x hx => ?_⟩
    cases he'
    exact (hnames x hx).of_within h₁

/-- The name of the item stands here, and so do those in its indices. -/
def Item.StandsAt (c : Cursor) (i : Item) : Prop :=
  Token.ident i.name ∈ c.rest ∧ ∀ e ∈ i.indices, ∀ x ∈ e.expr.names, c.HasWord x

theorem Item.StandsAt.of_within {c c' : Cursor} {i : Item} (h : c'.Within c) (hi : i.StandsAt c') :
    i.StandsAt c := ⟨h.mem _ hi.1, fun e he x hx => (hi.2 e he x hx).of_within h⟩

theorem item_finds (hg : g.NamesFrom) :
    (item g).Finds (fun i => ∀ e ∈ i.indices, e.expr.Arithmetic) Item.StandsAt := by
  intro c i c' h hi
  obtain ⟨name, c₁, hname, h⟩ := bind_eq_ok_iff.1 h
  obtain ⟨indices, c₂, hindices, h⟩ := bind_eq_ok_iff.1 h
  cases h
  have h₁ := Keeps.anyWord c name c₁ hname
  have hmem : Token.ident name ∈ c.rest := by
    rw [Grammar.anyWord_of_ok hname]
    exact .head _
  obtain ⟨h₂, hnames⟩ := (index_finds hg).manyFrom
    (fun h hfound x hx => (hfound x hx).of_within h) _ c₁ indices _ hindices hi
  exact ⟨h₁.trans h₂, hmem, fun e he x hx => (hnames e he x hx).of_within h₁⟩

theorem items_finds (hg : g.NamesFrom) :
    (items g).Finds (fun is => ∀ i ∈ is, ∀ e ∈ i.indices, e.expr.Arithmetic)
      (fun c is => ∀ i ∈ is, i.StandsAt c) := by
  intro c is c' h his
  obtain ⟨parts, c₁, hparts, h⟩ := bind_eq_ok_iff.1 h
  cases h
  have hindices : ∀ part ∈ parts, ∀ e ∈ part.1.indices, e.expr.Arithmetic :=
    fun part hpart => his part.1 (List.mem_map_of_mem hpart)
  obtain ⟨h₁, hstands⟩ :=
    (item_finds hg).joinedFrom Item.StandsAt.of_within _ _ _ c parts _ hparts hindices
  refine ⟨h₁, fun i hi => ?_⟩
  obtain ⟨part, hpart, rfl⟩ := List.mem_map.1 hi
  exact hstands part hpart

/-! ## Canonical forms -/

theorem canonicalize_of_canonical {lexemes : List Lexeme} {e : Located} {s : String}
    (h : e.canonical lexemes = .ok s) : e.expr.canonicalize = .ok s := by
  rw [Located.canonical] at h
  cases hc : e.expr.canonicalize with
  | error error => rw [hc] at h; cases h
  | ok text =>
    rw [hc] at h
    cases h
    rfl

theorem arithmetic_of_canonicalize {e : Expr} {s : String} (h : e.canonicalize = .ok s) :
    e.Arithmetic := by
  obtain ⟨p, hp, -⟩ := ok_of_bind h
  exact Expr.arithmetic_of_lowered.1 p (Expr.toPoly_of_polynomial hp)

theorem toFormat_of_ok {lexemes : List Lexeme} {i : Item} {f : Format}
    (h : i.toFormat lexemes = .ok f) :
    ∃ indices, f = .item i.name indices ∧ (∀ e ∈ i.indices, e.expr.Arithmetic) ∧
      ∀ index ∈ indices, ∃ e ∈ i.indices, e.expr.canonicalize = .ok index := by
  obtain ⟨indices, hindices, h⟩ := ok_of_bind h
  cases h
  refine ⟨indices, rfl, fun e he => ?_, fun index hindex => ?_⟩
  · obtain ⟨s, -, hs⟩ := (exists_mem_of_mapM hindices).1 e he
    exact arithmetic_of_canonicalize (canonicalize_of_canonical hs)
  · obtain ⟨e, he, hs⟩ := (exists_mem_of_mapM hindices).2 index hindex
    exact ⟨e, he, canonicalize_of_canonical hs⟩

/-! ## Statements -/

theorem toFormats_cons {lexemes : List Lexeme} {s : Statement} {ss : List Statement}
    {fs : List Format} (h : toFormats lexemes (s :: ss) = .ok fs) :
    ∃ first others, s.toFormat lexemes = .ok first ∧ toFormats lexemes ss = .ok others ∧
      fs = first :: others := by
  rw [toFormats] at h
  obtain ⟨first, hfirst, h⟩ := ok_of_bind h
  obtain ⟨others, hothers, h⟩ := ok_of_bind h
  cases h
  exact ⟨first, others, hfirst, hothers, rfl⟩

theorem toFormat_read {lexemes : List Lexeme} {is : List Item} {f : Format}
    (h : (Statement.read is).toFormat lexemes = .ok f) :
    (∀ i ∈ is, ∀ e ∈ i.indices, e.expr.Arithmetic) ∧
      (∀ s t item, (t, some item) ∈ f.parts s → item.1 ∈ is.map (·.name)) ∧
      ∀ text ∈ f.exprs, ∃ i ∈ is, ∃ e ∈ i.indices, e.expr.canonicalize = .ok text := by
  rw [Statement.toFormat] at h
  obtain ⟨formats, hformats, h⟩ := ok_of_bind h
  cases h
  refine ⟨fun i hi => ?_, fun s t item hmem => ?_, fun text htext => ?_⟩
  · obtain ⟨f, -, hif⟩ := (exists_mem_of_mapM hformats).1 i hi
    obtain ⟨-, -, harithmetic, -⟩ := toFormat_of_ok hif
    exact harithmetic
  · rcases List.mem_cons.1 hmem with heq | hmem
    · cases heq
    obtain ⟨f, hf, s', hmem⟩ := Format.mem_partsAll hmem
    rcases List.mem_append.1 hf with hf | hf
    · obtain ⟨i, hi, hif⟩ := (exists_mem_of_mapM hformats).2 f hf
      obtain ⟨indices, rfl, -⟩ := toFormat_of_ok hif
      cases List.mem_singleton.1 hmem
      exact List.mem_map_of_mem hi
    · rw [List.mem_singleton.1 hf] at hmem
      cases List.mem_singleton.1 hmem
  · obtain ⟨f, hf, htext⟩ := Format.mem_exprsAll.1 htext
    rcases List.mem_append.1 hf with hf | hf
    · obtain ⟨i, hi, hif⟩ := (exists_mem_of_mapM hformats).2 f hf
      obtain ⟨indices, rfl, -, hindices⟩ := toFormat_of_ok hif
      exact ⟨i, hi, hindices text htext⟩
    · rw [List.mem_singleton.1 hf] at htext
      cases htext

theorem toFormat_loop {lexemes : List Lexeme} {counter : String} {bound : Located}
    {body : List Statement} {f : Format}
    (h : (Statement.loop counter bound body).toFormat lexemes = .ok f) :
    ∃ size fs, bound.expr.canonicalize = .ok size ∧ toFormats lexemes body = .ok fs ∧
      f = .loop counter size (.sequence fs) := by
  rw [Statement.toFormat] at h
  obtain ⟨size, hsize, h⟩ := ok_of_bind h
  obtain ⟨fs, hfs, h⟩ := ok_of_bind h
  cases h
  exact ⟨size, fs, canonicalize_of_canonical hsize, hfs, rfl⟩

/-- What statements are read from: nothing, or a `read` or a loop and then further statements. What
stands between the parts of a statement is passed. -/
theorem statements_cases {n : Nat} {c c' : Cursor} {ss : List Statement}
    (h : statements g (n + 1) c = .ok (ss, c')) :
    (ss = [] ∧ c' = c) ∨
    (∃ is rest c₁ c₂ c₃, ss = .read is :: rest ∧ c₁.Within c ∧ items g c₁ = .ok (is, c₂) ∧
      c₃.Within c₂ ∧ statements g n c₃ = .ok (rest, c')) ∨
    (∃ counter bound body rest c₁ c₂ c₃ c₄ c₅, ss = .loop counter bound body :: rest ∧
      c₁.Within c ∧ located g false c₁ = .ok (bound, c₂) ∧ c₃.Within c₂ ∧
      statements g n c₃ = .ok (body, c₄) ∧ c₅.Within c₄ ∧
      statements g n c₅ = .ok (rest, c')) := by
  rw [statements, bind_get] at h
  rcases cond_eq_ok h with ⟨-, h⟩ | ⟨-, h⟩
  · cases h
    exact .inl ⟨rfl, rfl⟩
  have hdrop := Cursor.Within.drop 1 c
  rcases cond_eq_ok h with ⟨-, h⟩ | ⟨-, h⟩
  · obtain ⟨_, _, hpass, h⟩ := bind_eq_ok_iff.1 h
    obtain ⟨is, c₂, hitems, h⟩ := bind_eq_ok_iff.1 h
    obtain ⟨_, c₃, hsymbol, h⟩ := bind_eq_ok_iff.1 h
    obtain ⟨rest, c₄, hrest, h⟩ := bind_eq_ok_iff.1 h
    cases h
    cases hpass
    exact .inr (.inl ⟨is, rest, _, c₂, c₃, rfl, hdrop, hitems,
      Keeps.symbol ";" c₂ _ c₃ hsymbol, hrest⟩)
  rcases cond_eq_ok h with ⟨-, h⟩ | ⟨-, h⟩
  · obtain ⟨_, _, hpass, h⟩ := bind_eq_ok_iff.1 h
    obtain ⟨counter, c₁, hcounter, h⟩ := bind_eq_ok_iff.1 h
    obtain ⟨_, c₂, hupto, h⟩ := bind_eq_ok_iff.1 h
    obtain ⟨bound, c₃, hbound, h⟩ := bind_eq_ok_iff.1 h
    obtain ⟨_, c₄, henter, h⟩ := bind_eq_ok_iff.1 h
    obtain ⟨body, c₅, hbody, h⟩ := bind_eq_ok_iff.1 h
    obtain ⟨_, c₆, hleave, h⟩ := bind_eq_ok_iff.1 h
    obtain ⟨rest, c₇, hrest, h⟩ := bind_eq_ok_iff.1 h
    cases h
    cases hpass
    have hword := Keeps.anyWord _ _ _ hcounter
    obtain ⟨-, rfl⟩ := Grammar.word_of_ok hupto
    have hupto : Cursor.Within c₂ ⟨.ident "upto" :: c₂.rest, c₂.stray⟩ := .tail _ c₂
    exact .inr (.inr ⟨counter, bound, body, rest, c₂, c₃, c₄, c₅, c₆, rfl,
      (hdrop.trans hword).trans hupto, hbound, Keeps.enter .curly c₃ _ c₄ henter, hbody,
      Keeps.leave c₅ _ c₆ hleave, hrest⟩)
  · cases h

/-- The text is the canonical form of an expression whose names stand here. -/
def Holds (c : Cursor) (text : String) : Prop :=
  ∃ e : Expr, (∀ x ∈ e.names, c.HasWord x) ∧ e.canonicalize = .ok text

theorem Holds.of_within {c c' : Cursor} {text : String} (h : c'.Within c) (ht : Holds c' text) :
    Holds c text := by
  obtain ⟨e, hnames, he⟩ := ht
  exact ⟨e, fun x hx => (hnames x hx).of_within h, he⟩

/-- The variables of what is read stand in the tokens it is read from, and so do the names in the
expressions of which it has the canonical forms. -/
theorem statements_of_ok (hg : g.NamesFrom) {lexemes : List Lexeme} {n : Nat} {c c' : Cursor}
    {ss : List Statement} {fs : List Format} (h : statements g n c = .ok (ss, c'))
    (hf : toFormats lexemes ss = .ok fs) :
    c'.Within c ∧
      (∀ s t item, (t, some item) ∈ Format.partsAll fs s → Token.ident item.1 ∈ c.rest) ∧
      ∀ text ∈ Format.exprsAll fs, Holds c text := by
  induction n generalizing c c' ss fs with
  | zero => cases h
  | succ n ih =>
    rcases statements_cases h with ⟨rfl, rfl⟩ |
      ⟨is, rest, c₁, c₂, c₃, rfl, h₁, hitems, h₃, hrest⟩ |
      ⟨counter, bound, body, rest, c₁, c₂, c₃, c₄, c₅, rfl, h₁, hbound, h₃, hbody, h₅, hrest⟩
    · cases hf
      refine ⟨.refl _, fun s t item hmem => ?_, fun text htext => ?_⟩
      · cases hmem
      · cases htext
    · obtain ⟨first, others, hfirst, hothers, rfl⟩ := toFormats_cons hf
      obtain ⟨harithmetic, hnames, hexprs⟩ := toFormat_read hfirst
      obtain ⟨h₂, hstands⟩ := items_finds hg _ is c₂ hitems harithmetic
      obtain ⟨h₄, hothers, hothers'⟩ := ih hrest hothers
      have hbefore := (h₁.trans h₂).trans h₃
      refine ⟨hbefore.trans h₄, fun s t item hmem => ?_, fun text htext => ?_⟩
      · rcases List.mem_append.1 hmem with hmem | hmem
        · obtain ⟨i, hi, hname⟩ := List.mem_map.1 (hnames s t item hmem)
          rw [← hname]
          exact h₁.mem _ (hstands i hi).1
        · exact hbefore.mem _ (hothers _ t item hmem)
      · rcases List.mem_append.1 htext with htext | htext
        · obtain ⟨i, hi, e, he, hs⟩ := hexprs text htext
          exact .of_within h₁ ⟨e.expr, (hstands i hi).2 e he, hs⟩
        · exact .of_within hbefore (hothers' text htext)
    · obtain ⟨first, others, hfirst, hothers, rfl⟩ := toFormats_cons hf
      obtain ⟨size, inner, hsize, hinner, rfl⟩ := toFormat_loop hfirst
      obtain ⟨h₂, hwords⟩ :=
        located_finds hg false c₁ bound c₂ hbound (arithmetic_of_canonicalize hsize)
      obtain ⟨h₄, hnames, hexprs⟩ := ih hbody hinner
      obtain ⟨h₆, hothers, hothers'⟩ := ih hrest hothers
      have hbefore := (h₁.trans h₂).trans h₃
      have hafter := (hbefore.trans h₄).trans h₅
      refine ⟨hafter.trans h₆, fun s t item hmem => ?_, fun text htext => ?_⟩
      · rcases List.mem_append.1 hmem with hmem | hmem
        · -- the loop and the sequence in it are no items
          rcases List.mem_cons.1 hmem with heq | hmem
          · cases heq
          rcases List.mem_cons.1 hmem with heq | hmem
          · cases heq
          exact hbefore.mem _ (hnames _ t item hmem)
        · exact hafter.mem _ (hothers _ t item hmem)
      · rcases List.mem_append.1 htext with htext | htext
        · rcases List.mem_cons.1 htext with rfl | htext
          · exact .of_within h₁ ⟨bound.expr, hwords, hsize⟩
          · exact .of_within hbefore (hexprs text htext)
        · exact .of_within hafter (hothers' text htext)

theorem parse_eq_ok_iff {tokens : List Token} {ss : List Statement} :
    Description.parse tokens = .ok ss ↔
      statements (Grammar.forTokens tokens) (tokens.length + 1) ⟨tokens, none⟩ =
        .ok (ss, ⟨[], none⟩) :=
  Grammar.whole_eq_ok_iff

end Description

namespace Format

/-- A text is read as a format by reading all its tokens as statements. -/
theorem read_eq_ok_iff {source : String} {f : Format} :
    Format.read source = .ok f ↔ ∃ lexemes statements fs, Scanner.scan source = .ok lexemes ∧
      Description.statements (Grammar.forTokens (lexemes.map (·.token)))
        ((lexemes.map (·.token)).length + 1) ⟨lexemes.map (·.token), none⟩ =
          .ok (statements, ⟨[], none⟩) ∧
      Description.toFormats lexemes statements = .ok fs ∧ f = .sequence fs := by
  rw [Format.read]
  cases Scanner.scan source with
  | error p => simp
  | ok lexemes =>
    simp only [Except.ok.injEq, exists_and_left, exists_eq_left', ← Description.parse_eq_ok_iff]
    cases Description.parse (lexemes.map (·.token)) with
    | error complaint => simp
    | ok statements =>
      constructor
      · intro h
        obtain ⟨fs, hfs, h⟩ := ok_of_bind h
        cases h
        exact ⟨statements, rfl, fs, hfs, rfl⟩
      · rintro ⟨_, ⟨⟩, fs, hfs, rfl⟩
        dsimp only
        rw [hfs]
        rfl

theorem parse_eq_ok_iff {name source : String} {color : Bool} {f : Format} :
    Format.parse name source color = .ok f ↔ Format.read source = .ok f := by
  rw [Format.parse]
  cases Format.read source with
  | error problem => constructor <;> intro h <;> cases h
  | ok g => simp [Except.mapError]

/-- What a format was read from: statements that stand in the tokens of the text. -/
theorem statements_of_read {source : String} {f : Format} (h : Format.read source = .ok f) :
    ∃ lexemes fs, Scanner.scan source = .ok lexemes ∧ f = .sequence fs ∧
      (∀ s t item, (t, some item) ∈ partsAll fs s → Token.ident item.1 ∈ lexemes.map (·.token)) ∧
      ∀ text ∈ exprsAll fs, Description.Holds ⟨lexemes.map (·.token), none⟩ text := by
  obtain ⟨lexemes, statements, fs, hscan, hread, hfs, rfl⟩ := read_eq_ok_iff.1 h
  obtain ⟨-, hwords, hexprs⟩ :=
    Description.statements_of_ok (Grammar.ofDepth_namesFrom _) hread hfs
  exact ⟨lexemes, fs, hscan, rfl, hwords, hexprs⟩

/-- The variables of a format that was read from a text are words. -/
theorem word_of_read {source : String} {f : Format} (h : Format.read source = .ok f)
    {item : String × List String} (hi : item ∈ f.items) :
    Scanner.identAt item.1.toList = some item.1.toList := by
  obtain ⟨lexemes, fs, hscan, rfl, hwords, -⟩ := statements_of_read h
  obtain ⟨⟨t, _⟩, hpart, rfl⟩ := List.mem_filterMap.1 hi
  rcases List.mem_cons.1 hpart with heq | hpart
  · cases heq
  obtain ⟨l, hl, htoken⟩ := List.mem_map.1 (hwords _ t item hpart)
  exact Scanner.ident_of_scan hscan l hl item.1 htoken

/-- The sizes and indices of a format that was read from a text are canonical. -/
theorem canonicalText_of_read {source : String} {f : Format} (h : Format.read source = .ok f)
    {text : String} (ht : text ∈ f.exprs) : CanonicalText text := by
  obtain ⟨lexemes, fs, hscan, rfl, -, hexprs⟩ := statements_of_read h
  obtain ⟨e, hnames, he⟩ := hexprs text ht
  refine .inl ⟨e, fun x hx => ?_, he⟩
  obtain ⟨hmem, hsegment⟩ := hnames x hx
  obtain ⟨l, hl, htoken⟩ := List.mem_map.1 hmem
  exact Expr.parse_eq_name_iff.2 ⟨Scanner.ident_of_scan hscan l hl x htoken, hsegment⟩

end Format

end ReaderGen
