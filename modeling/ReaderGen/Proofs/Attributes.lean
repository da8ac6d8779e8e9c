import ReaderGen.Proofs.Assembly
import ReaderGen.Proofs.Balance
import ReaderGen.Proofs.Inversion

/-!
# Attributes in another place

What stands in the bracket of an attribute is a qualified name and then anything up to the end of the
bracket. How it is read does not depend on what follows the bracket, so attributes are read alike
wherever they stand.

* `Reading.Inside`: a reading within a bracket that takes no brackets and does not look beyond the end.
* `Grammar.attributes_of_ok`: attributes are self-contained, and are read as the same ones elsewhere.
-/

namespace ReaderGen

/-! ## Ends of brackets -/

namespace Token

/-- In a bracket, what comes before its end has matching brackets. -/
theorem split_of_openAfter {inside : List Bracket} {b : Bracket} {stack : List Bracket}
    {ts : List Token} (h : openAfter (inside ++ b :: stack) ts = some []) :
    ∃ inner after, ts = inner ++ closing b :: after ∧ openAfter inside inner = some [] := by
  induction ts generalizing inside with
  | nil =>
    have hnil : inside ++ b :: stack = [] := Option.some.inj h
    simp at hnil
  | cons t ts ih =>
    cases t with
    | opening b' =>
      obtain ⟨inner, after, rfl, hinner⟩ := @ih (b' :: inside) h
      exact ⟨opening b' :: inner, after, rfl, hinner⟩
    | closing b' =>
      cases inside with
      | nil =>
        rw [List.nil_append, openAfter] at h
        split at h
        · rename_i hb
          subst hb
          exact ⟨[], ts, rfl, rfl⟩
        · cases h
      | cons b'' inside =>
        rw [List.cons_append, openAfter] at h
        split at h
        · rename_i hb
          obtain ⟨inner, after, rfl, hinner⟩ := ih h
          exact ⟨closing b' :: inner, after, rfl, by rw [openAfter, if_pos hb, hinner]⟩
        · cases h
    | _ =>
      rw [openAfter_of_not_bracket rfl] at h
      obtain ⟨inner, after, rfl, hinner⟩ := ih h
      exact ⟨_ :: inner, after, rfl, by rw [openAfter_of_not_bracket rfl, hinner]⟩

/-- The end of a bracket comes after tokens with matching brackets. -/
theorem splitClosing_balanced {inside : List Bracket} {inner : List Token}
    (h : openAfter inside inner = some []) (b : Bracket) (after : List Token) :
    Cursor.splitClosing inside.length (inner ++ closing b :: after) = (inner, after) := by
  induction inner generalizing inside with
  | nil => cases h; rfl
  | cons t inner ih =>
    cases t with
    | opening b' =>
      have hrest := @ih (b' :: inside) h
      rw [List.length_cons] at hrest
      simp only [List.cons_append, Cursor.splitClosing, hrest]
    | closing b' =>
      cases inside with
      | nil => cases h
      | cons b'' inside =>
        rw [openAfter] at h
        split at h
        · simp only [List.cons_append, List.length_cons, Cursor.splitClosing, ih h]
        · cases h
    | _ =>
      rw [openAfter_of_not_bracket rfl] at h
      simp only [List.cons_append, Cursor.splitClosing, ih h]

end Token

namespace Cursor

/-- A symbol that stands before the end of a bracket has a token for each of its characters. -/
theorem puncts_of_isPrefixOf {symbol : List Char} {inner : List Token} {b : Bracket}
    {after : List Token} (h : symbol.isPrefixOf (runOf (inner ++ .closing b :: after)) = true) :
    ∃ marks left, inner = marks ++ left ∧ marks.length = symbol.length ∧
      ∀ t ∈ marks, t.isBracket = false := by
  induction symbol generalizing inner with
  | nil => exact ⟨[], inner, rfl, rfl, by simp⟩
  | cons ch symbol ih =>
    cases inner with
    | nil => cases h
    | cons t inner =>
      cases t with
      | punct ch' joint =>
        cases joint with
        | true =>
          rw [List.cons_append, runOf, List.isPrefixOf, Bool.and_eq_true] at h
          obtain ⟨marks, left, rfl, hlength, hmarks⟩ := ih h.2
          exact ⟨.punct ch' true :: marks, left, rfl, by simp [hlength],
            List.forall_mem_cons.2 ⟨rfl, hmarks⟩⟩
        | false =>
          rw [List.cons_append, runOf, List.isPrefixOf, Bool.and_eq_true] at h
          obtain rfl : symbol = [] := by
            cases symbol with
            | nil => rfl
            | cons a as => cases h.2
          exact ⟨[.punct ch' false], inner, rfl, rfl, by simp [Token.isBracket]⟩
      | _ => cases h

/-- Whether a symbol stands before the end of a bracket does not depend on what follows the end. -/
theorem startsWith_inside (s : String) (inner : List Token) (b : Bracket) (after : List Token)
    (stray : Option Complaint) :
    startsWith s ⟨inner ++ .closing b :: after, stray⟩ =
      startsWith s ⟨inner ++ [.closing b], none⟩ := by
  have hend : ∃ t ∈ inner ++ [Token.closing b], ∀ c joint, t ≠ .punct c joint :=
    ⟨.closing b, by simp, by simp⟩
  have hrun := runOf_append hend after []
  rw [List.append_assoc, List.append_nil] at hrun
  exact congrArg (s.toList.isPrefixOf ·) hrun

end Cursor

/-! ## Readings before the end of a bracket -/

namespace Reading

variable {α β : Type}

/-- Before the end of a bracket, the reading takes no brackets and does not look beyond the end. -/
def Inside (r : Reading α) : Prop :=
  ∀ ⦃inner : List Token⦄ ⦃b : Bracket⦄ ⦃after : List Token⦄ ⦃stray : Option Complaint⦄ ⦃a : α⦄
    ⦃c : Cursor⦄, r ⟨inner ++ .closing b :: after, stray⟩ = .ok (a, c) →
      ∃ taken left, inner = taken ++ left ∧ (∀ t ∈ taken, t.isBracket = false) ∧
        c = ⟨left ++ .closing b :: after, stray⟩ ∧
        ∀ after' stray', r ⟨inner ++ .closing b :: after', stray'⟩ =
          .ok (a, ⟨left ++ .closing b :: after', stray'⟩)

namespace Inside

theorem pure (a : α) : (Pure.pure a : Reading α).Inside := by
  intro inner b after stray x c h
  cases h
  exact ⟨[], inner, rfl, by simp, rfl, fun _ _ => rfl⟩

theorem fail (complaint : Cursor → Complaint) : (Reading.fail complaint : Reading α).Inside := by
  intro inner b after stray a c h
  cases h

theorem bind {r : Reading α} {f : α → Reading β} (hr : r.Inside) (hf : ∀ a, (f a).Inside) :
    (r >>= f).Inside := by
  intro inner b after stray x c h
  obtain ⟨a, c₁, hfirst, hsecond⟩ := bind_eq_ok_iff.1 h
  obtain ⟨taken, left, rfl, htaken, rfl, hreads⟩ := hr hfirst
  obtain ⟨taken', left', rfl, htaken', rfl, hreads'⟩ := hf a hsecond
  refine ⟨taken ++ taken', left', (List.append_assoc ..).symm,
    List.forall_mem_append.2 ⟨htaken, htaken'⟩, rfl, fun after' stray' => ?_⟩
  rw [bind_of_ok (hreads after' stray'), hreads']

theorem symbol (s : String) : (Reading.symbol s).Inside := by
  intro inner b after stray tokens c h
  unfold Reading.symbol at h
  split at h
  · rename_i hstarts
    cases h
    obtain ⟨marks, left, rfl, hlength, hmarks⟩ := Cursor.puncts_of_isPrefixOf hstarts
    have hdrop : ∀ after' stray', Cursor.dropSymbol s ⟨marks ++ left ++ .closing b :: after', stray'⟩ =
        ⟨left ++ .closing b :: after', stray'⟩ := by
      intro after' stray'
      have hlength' : s.length = marks.length := by rw [hlength, String.length_toList]
      simp [Cursor.dropSymbol, Cursor.drop, hlength']
    refine ⟨marks, left, rfl, hmarks, hdrop after stray, fun after' stray' => ?_⟩
    rw [Cursor.startsWith_inside] at hstarts
    rw [Reading.symbol, Cursor.startsWith_inside, hstarts, hdrop]
    rfl
  · cases h

theorem symbol? (s : String) : (Reading.symbol? s).Inside := by
  intro inner b after stray tokens c h
  rw [Reading.symbol?, given, bind_get] at h
  rcases cond_eq_ok h with ⟨hstarts, h⟩ | ⟨hstarts, h⟩
  · obtain ⟨taken, left, rfl, htaken, rfl, hreads⟩ := symbol s h
    refine ⟨taken, left, rfl, htaken, rfl, fun after' stray' => ?_⟩
    rw [Cursor.startsWith_inside] at hstarts
    rw [Reading.symbol?, given, bind_get, Cursor.startsWith_inside, hstarts]
    exact hreads after' stray'
  · cases h
    refine ⟨[], inner, rfl, by simp, rfl, fun after' stray' => symbol?_of_not ?_⟩
    rw [Cursor.startsWith_inside] at hstarts ⊢
    simpa using hstarts

/-- Words with a symbol between them, up to where a test holds, are read in as many rounds as there are
words. -/
theorem joinedFrom_anyWord {stop : Cursor → Bool} (hstop : ∀ inner b after stray,
      stop ⟨inner ++ .closing b :: after, stray⟩ = stop ⟨inner ++ [.closing b], none⟩)
    (joint : String) (n : Nat) {inner : List Token} {b : Bracket} {after : List Token}
    {stray : Option Complaint} {parts : List (String × Tokens)} {c : Cursor}
    (h : joinedFrom stop anyWord joint n ⟨inner ++ .closing b :: after, stray⟩ = .ok (parts, c)) :
    ∃ taken left, inner = taken ++ left ∧ (∀ t ∈ taken, t.isBracket = false) ∧
      c = ⟨left ++ .closing b :: after, stray⟩ ∧
      ∀ m, inner.length < m → ∀ after' stray',
        joinedFrom stop anyWord joint m ⟨inner ++ .closing b :: after', stray'⟩ =
          .ok (parts, ⟨left ++ .closing b :: after', stray'⟩) := by
  induction n generalizing inner parts with
  | zero => cases h
  | succ n ih =>
    rw [joinedFrom, bind_get] at h
    rcases cond_eq_ok h with ⟨hend, h⟩ | ⟨hend, h⟩
    · cases h
      refine ⟨[], inner, rfl, by simp, rfl, fun m hm after' stray' => ?_⟩
      obtain ⟨m, rfl⟩ : ∃ k, m = k + 1 := ⟨m - 1, by omega⟩
      rw [hstop] at hend
      rw [joinedFrom, bind_get, hstop, if_pos hend]
      rfl
    obtain ⟨w, c₁, hw, h⟩ := bind_eq_ok_iff.1 h
    -- the word is the first token, and it is not the end of the bracket
    obtain ⟨inner, rfl, rfl⟩ : ∃ inner', inner = .ident w :: inner' ∧
        c₁ = ⟨inner' ++ .closing b :: after, stray⟩ := by
      have hc := Grammar.anyWord_of_ok hw
      cases inner with
      | nil => cases hc
      | cons t inner =>
        obtain ⟨rest, stray'⟩ := c₁
        cases hc
        exact ⟨inner, rfl, rfl⟩
    have hstep : ∀ m after' stray', joinedFrom stop anyWord joint (m + 1)
        ⟨.ident w :: inner ++ .closing b :: after', stray'⟩ =
          (do if !(← get).startsWith joint then return [(w, [])]
              let s ← Reading.symbol joint
              let rest ← joinedFrom stop anyWord joint m
              return (w, s) :: rest : Reading _) ⟨inner ++ .closing b :: after', stray'⟩ := by
      intro m after' stray'
      rw [hstop] at hend
      rw [joinedFrom, bind_get, hstop, if_neg hend]
      rfl
    rw [bind_get] at h
    rcases cond_eq_ok h with ⟨hjoint, h⟩ | ⟨hjoint, h⟩
    · cases h
      refine ⟨[.ident w], inner, rfl, by simp [Token.isBracket], rfl, fun m hm after' stray' => ?_⟩
      obtain ⟨m, rfl⟩ : ∃ k, m = k + 1 := ⟨m - 1, by omega⟩
      rw [Cursor.startsWith_inside] at hjoint
      rw [hstep, bind_get, Cursor.startsWith_inside, if_pos hjoint]
      rfl
    · obtain ⟨s, c₂, hs, h⟩ := bind_eq_ok_iff.1 h
      obtain ⟨others, c₃, hothers, h⟩ := bind_eq_ok_iff.1 h
      cases h
      obtain ⟨marks, left, rfl, hmarks, rfl, hsymbol⟩ := symbol joint hs
      obtain ⟨taken, left, rfl, htaken, rfl, hreads⟩ := ih hothers
      refine ⟨.ident w :: (marks ++ taken), left, by simp, ?_, rfl, fun m hm after' stray' => ?_⟩
      · exact List.forall_mem_cons.2 ⟨rfl, List.forall_mem_append.2 ⟨hmarks, htaken⟩⟩
      obtain ⟨m, rfl⟩ : ∃ k, m = k + 1 := ⟨m - 1, by omega⟩
      rw [Cursor.startsWith_inside] at hjoint
      rw [hstep, bind_get, Cursor.startsWith_inside, if_neg hjoint, bind_of_ok (hsymbol after' stray'),
        bind_of_ok (hreads m (by simp at hm ⊢; omega) after' stray')]
      rfl

theorem joined_anyWord {stop : Cursor → Bool} (hstop : ∀ inner b after stray,
      stop ⟨inner ++ .closing b :: after, stray⟩ = stop ⟨inner ++ [.closing b], none⟩)
    (joint : String) : (joined stop anyWord joint).Inside := by
  intro inner b after stray parts c h
  obtain ⟨taken, left, hinner, htaken, hc, hreads⟩ := joinedFrom_anyWord hstop joint _ h
  exact ⟨taken, left, hinner, htaken, hc, fun after' stray' =>
    hreads _ (by rw [List.length_append]; omega) after' stray'⟩

end Inside

end Reading

/-! ## Attributes -/

namespace Grammar

open Reading

theorem plainPath_inside : plainPath.Inside := by
  refine (Inside.symbol? "::").bind fun start => Inside.bind (Inside.joined_anyWord ?_ "::") ?_
  · intro inner b after stray
    cases inner with
    | nil => rfl
    | cons t inner => cases t <;> rfl
  · intro segments
    cases segments.getLast? with
    | none => exact .fail _
    | some p =>
      obtain ⟨w, s⟩ := p
      cases s with
      | nil => exact .pure _
      | cons t ts => exact .fail _

/-- All tokens before the end of the bracket. -/
theorem remainder_inside {inner : List Token} (h : Token.openAfter [] inner = some []) (b : Bracket)
    (after : List Token) (stray : Option Complaint) :
    remainder ⟨inner ++ .closing b :: after, stray⟩ = .ok (inner, ⟨.closing b :: after, stray⟩) := by
  have hsplit : Cursor.splitClosing 0 (inner ++ .closing b :: after) = (inner, after) :=
    Token.splitClosing_balanced h b after
  simp [remainder, hsplit, Cursor.drop]

/-- The bracket of an attribute does not depend on what follows it. -/
theorem attributeBody_of_ok {c c' : Cursor} {quoted : Tokens} {stack : List Bracket}
    (h : attributeBody c = .ok (quoted, c')) (hstack : Token.openAfter stack c.rest = some []) :
    ∃ inner, c = ⟨Token.bracketed .square inner ++ c'.rest, c'.stray⟩ ∧
      Token.openAfter [] inner = some [] ∧
      ∀ rest stray, attributeBody ⟨Token.bracketed .square inner ++ rest, stray⟩ =
        .ok (quoted, ⟨rest, stray⟩) := by
  obtain ⟨_, c₁, henter, h⟩ := bind_eq_ok_iff.1 h
  obtain ⟨tokens, c₂, htokens, h⟩ := bind_eq_ok_iff.1 h
  obtain ⟨_, c₃, hleave, h⟩ := bind_eq_ok_iff.1 h
  cases h
  cases hleave
  obtain ⟨path, c₄, hpath, htokens⟩ := bind_eq_ok_iff.1 htokens
  obtain ⟨others, c₅, hothers, htokens⟩ := bind_eq_ok_iff.1 htokens
  cases htokens
  obtain ⟨more, c₆, hmore, hothers⟩ := bind_eq_ok_iff.1 hothers
  cases hothers
  obtain ⟨hopen, rfl⟩ := enter_of_ok henter
  obtain ⟨ts, hc⟩ := rest_of_opens hopen
  rw [hc] at hstack
  obtain ⟨inner, after, rfl, hinner⟩ := @Token.split_of_openAfter [] .square stack ts hstack
  obtain ⟨rest, stray⟩ := c
  subst hc
  obtain ⟨taken, left, rfl, htaken, rfl, hreads⟩ := plainPath_inside hpath
  rw [Token.openAfter_of_not_brackets htaken] at hinner
  rw [remainder_inside hinner] at hmore
  cases hmore
  have hbracketed : ∀ rest, Token.bracketed .square (taken ++ more) ++ rest =
      .opening .square :: (taken ++ more ++ .closing .square :: rest) := by
    intro rest
    simp [Token.bracketed]
  refine ⟨taken ++ more, ?_, ?_, fun rest stray => ?_⟩
  · rw [hbracketed]
    rfl
  · rw [Token.openAfter_of_not_brackets htaken, hinner]
  · have hinside : inTurn [plainPath, remainder] ⟨taken ++ more ++ .closing .square :: rest, stray⟩ =
        .ok (path ++ (more ++ []), ⟨.closing .square :: rest, stray⟩) := by
      rw [inTurn, bind_of_ok (hreads rest stray), inTurn, bind_apply,
        bind_of_ok (remainder_inside hinner .square rest stray)]
      rfl
    rw [hbracketed, attributeBody, within, bind_of_ok (enter_opening .square _ _),
      bind_of_ok hinside]
    rfl

/-- An attribute is a number sign and a bracket. -/
theorem attribute_of_ok {c c' : Cursor} {quoted : Tokens} {stack : List Bracket}
    (h : inTurn [symbol "#", attributeBody] c = .ok (quoted, c'))
    (hstack : Token.openAfter stack c.rest = some []) :
    ∃ w, c = ⟨w ++ c'.rest, c'.stray⟩ ∧ Token.SelfContained w ∧
      ∀ rest stray, Cursor.startsWith "#" ⟨w ++ rest, stray⟩ = true ∧
        inTurn [symbol "#", attributeBody] ⟨w ++ rest, stray⟩ = .ok (quoted, ⟨rest, stray⟩) := by
  obtain ⟨mark, c₁, hmark, h⟩ := bind_eq_ok_iff.1 h
  obtain ⟨others, c₂, hothers, h⟩ := bind_eq_ok_iff.1 h
  cases h
  obtain ⟨body, c₃, hbody, hothers⟩ := bind_eq_ok_iff.1 hothers
  cases hothers
  obtain ⟨joint, rfl⟩ := symbol_of_ok (by rfl) hmark
  rw [Token.openAfter_of_not_bracket rfl] at hstack
  obtain ⟨inner, rfl, hinner, hreads⟩ := attributeBody_of_ok hbody hstack
  refine ⟨.punct '#' joint :: Token.bracketed .square inner, rfl,
    .cons rfl (.bracketed (by decide) hinner), fun rest stray => ?_⟩
  have hsharp : Cursor.startsWith "#" ⟨.punct '#' joint :: (Token.bracketed .square inner ++ rest),
      stray⟩ = true := by cases joint <;> rfl
  have hsymbol : symbol "#" ⟨.punct '#' joint :: (Token.bracketed .square inner ++ rest), stray⟩ =
      .ok (mark, ⟨Token.bracketed .square inner ++ rest, stray⟩) := by
    rw [symbol_ne_nil hmark, symbol, hsharp]
    rfl
  refine ⟨hsharp, ?_⟩
  rw [List.cons_append, inTurn, bind_of_ok hsymbol, inTurn, bind_apply, bind_of_ok (hreads rest stray)]
  rfl

/-- One more attribute, if one begins here. -/
def attribute? : Reading (Option Tokens) := do
  if (← get).startsWith "#" then return some (← inTurn [symbol "#", attributeBody]) else return none

/-- Attributes are self-contained, and are read alike before whatever has none. -/
theorem manyFrom_attribute_of_ok {n : Nat} {c c' : Cursor} {parts : List Tokens}
    {stack : List Bracket} (h : manyFrom attribute? n c = .ok (parts, c'))
    (hstack : Token.openAfter stack c.rest = some []) :
    ∃ w, c = ⟨w ++ c'.rest, c'.stray⟩ ∧ Token.SelfContained w ∧
      ∀ m, w.length < m → ∀ rest stray, Unattributed rest →
        manyFrom attribute? m ⟨w ++ rest, stray⟩ = .ok (parts, ⟨rest, stray⟩) := by
  induction n generalizing c parts with
  | zero => cases h
  | succ n ih =>
    rw [manyFrom_succ] at h
    split at h
    · rename_i c₁ hstep
      cases h
      rw [attribute?, bind_get] at hstep
      rcases cond_eq_ok hstep with ⟨-, hstep⟩ | ⟨-, hstep⟩
      · obtain ⟨_, c₂, -, hstep⟩ := bind_eq_ok_iff.1 hstep
        cases hstep
      cases hstep
      refine ⟨[], rfl, .nil, fun m hm rest stray hrest => ?_⟩
      obtain ⟨m, rfl⟩ : ∃ k, m = k + 1 := ⟨m - 1, by omega⟩
      have hnone : attribute? ⟨rest, stray⟩ = .ok (none, ⟨rest, stray⟩) := by
        rw [attribute?, bind_get, show Cursor.startsWith "#" ⟨rest, stray⟩ = false from hrest]
        rfl
      rw [List.nil_append, manyFrom_succ, hnone]
    · rename_i quoted c₁ hstep
      obtain ⟨others, c₂, hothers, h⟩ := bind_eq_ok_iff.1 h
      cases h
      rw [attribute?, bind_get] at hstep
      rcases cond_eq_ok hstep with ⟨hsharp, hstep⟩ | ⟨-, hstep⟩
      · obtain ⟨quoted, c₃, hattribute, hstep⟩ := bind_eq_ok_iff.1 hstep
        cases hstep
        obtain ⟨w, rfl, hw, hreads⟩ := attribute_of_ok hattribute hstack
        rw [Token.openAfter_balanced hw.balanced] at hstack
        obtain ⟨w', rfl, hw', hreads'⟩ := ih hothers hstack
        refine ⟨w ++ w', by rw [List.append_assoc], hw.append hw', fun m hm rest stray hrest => ?_⟩
        obtain ⟨m, rfl⟩ : ∃ k, m = k + 1 := ⟨m - 1, by omega⟩
        obtain ⟨hsharp', hattribute'⟩ := hreads (w' ++ rest) stray
        have hsome : attribute? ⟨w ++ (w' ++ rest), stray⟩ =
            .ok (some quoted, ⟨w' ++ rest, stray⟩) := by
          rw [attribute?, bind_get, hsharp']
          exact bind_of_ok hattribute'
        have hlength : w'.length < m := by
          cases w with
          | nil => cases (hreads [] none).1
          | cons t w => simp at hm; omega
        rw [List.append_assoc, manyFrom_succ, hsome]
        exact bind_of_ok (hreads' m hlength rest stray hrest)
      · cases hstep
    · cases h

theorem attributes_of_ok {c c' : Cursor} {start : Tokens} {stack : List Bracket}
    (h : attributes c = .ok (start, c')) (hstack : Token.openAfter stack c.rest = some []) :
    ∃ w, c = ⟨w ++ c'.rest, c'.stray⟩ ∧ Token.SelfContained w ∧
      ReadsAs (fun _ => attributes) Unattributed start w := by
  obtain ⟨parts, c₁, hparts, h⟩ := bind_eq_ok_iff.1 h
  cases h
  obtain ⟨w, hc, hw, hreads⟩ := manyFrom_attribute_of_ok hparts hstack
  refine ⟨w, hc, hw, fun _ rest stray hrest _ => ?_⟩
  exact bind_of_ok (hreads ((w ++ rest).length + 1) (by rw [List.length_append]; omega) rest stray hrest)

end Grammar

end ReaderGen
