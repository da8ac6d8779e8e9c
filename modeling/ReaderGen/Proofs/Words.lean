import ReaderGen.Proofs.Reading
import ReaderGen.Token.Scanner

/-!
# Words of a text

A word that the scanner finds in a text is one word, also when it stands alone.

* `Scanner.identAt_self`: a word at the beginning of a text is a word by itself.
* `Scanner.ident_of_munch`, `Scanner.ident_of_scanFrom`, `Scanner.ident_of_scan`: so is every word
  found on the way.
-/

namespace ReaderGen

open Text

namespace Scanner

theorem identifierAt_self {cs w : List Char} (h : identifierAt cs = some w) :
    identifierAt w = some w ∧ ∃ rest, cs = w ++ rest := by
  cases cs with
  | nil => cases h
  | cons c cs =>
    rw [identifierAt] at h
    split at h
    · rename_i hc
      obtain rfl := Option.some.inj h
      refine ⟨?_, cs.dropWhile isIdentifierPart, ?_⟩
      · have hall : ∀ a ∈ cs.takeWhile isIdentifierPart, isIdentifierPart a = true :=
          List.all_eq_true.1 List.all_takeWhile
        rw [identifierAt, if_pos hc, ← List.append_nil (cs.takeWhile _),
          List.takeWhile_append_of_pos hall]
        rfl
      · rw [List.cons_append, List.takeWhile_append_dropWhile]
    · cases h

theorem nameAt_self {cs w : List Char} (h : nameAt cs = some w) :
    nameAt w = some w ∧ ∃ rest, cs = w ++ rest := by
  unfold nameAt at h
  split at h
  · split at h
    · rename_i name hname
      split at h
      · cases h
      · rename_i hraw
        obtain rfl := Option.some.inj h
        obtain ⟨hself, rest, rfl⟩ := identifierAt_self hname
        refine ⟨?_, rest, rfl⟩
        rw [nameAt, hself]
        dsimp only
        rw [if_neg hraw]
    · cases h
  · obtain ⟨hself, hrest⟩ := identifierAt_self h
    refine ⟨?_, hrest⟩
    -- a sign is no part of an identifier, so the word is not raw
    have hraw : ∀ cs, w ≠ 'r' :: '#' :: cs := by
      rintro cs rfl
      have hr : isIdentifierStart 'r' = true := by decide
      have hsign : isIdentifierPart '#' = false := by decide
      rw [identifierAt, if_pos hr, List.takeWhile_cons, hsign] at hself
      cases hself
    rw [nameAt.eq_2 _ hraw]
    exact hself

/-- A word at the beginning of a text is a word by itself. -/
theorem identAt_self {cs w : List Char} (h : identAt cs = some w) : identAt w = some w := by
  rw [identAt] at h
  split at h
  · cases h
  · rename_i hmarks
    obtain ⟨hself, rest, rfl⟩ := nameAt_self h
    rw [identAt, if_neg, hself]
    intro hany
    obtain ⟨mark, hmem, hp⟩ := List.any_eq_true.1 hany
    refine hmarks (List.any_eq_true.2 ⟨mark, hmem, ?_⟩)
    rw [List.isPrefixOf_iff_prefix] at hp ⊢
    exact hp.trans (List.prefix_append w rest)

theorem part_of_identifierAt {cs w : List Char} (h : identifierAt cs = some w) :
    ∀ c ∈ w, isIdentifierPart c = true := by
  cases cs with
  | nil => cases h
  | cons d ds =>
    rw [identifierAt] at h
    split at h
    · rename_i hd
      obtain rfl := Option.some.inj h
      intro c hc
      rcases List.mem_cons.1 hc with rfl | hc
      · exact isIdentifierPart_of_start hd
      · exact List.all_eq_true.1 List.all_takeWhile c hc
    · cases h

/-- A word consists of parts of identifiers and, if it is a raw one, a number sign. -/
theorem part_of_identAt {cs w : List Char} (h : identAt cs = some w) :
    ∀ c ∈ w, isIdentifierPart c = true ∨ c = '#' := by
  have hraw : isIdentifierPart 'r' = true := by decide
  rw [identAt] at h
  split at h
  · cases h
  · unfold nameAt at h
    split at h
    · split at h
      · rename_i name hname
        split at h
        · cases h
        · obtain rfl := Option.some.inj h
          intro c hc
          rcases List.mem_cons.1 hc with rfl | hc
          · exact .inl hraw
          · rcases List.mem_cons.1 hc with rfl | hc
            · exact .inr rfl
            · exact .inl (part_of_identifierAt hname c hc)
      · cases h
    · exact fun c hc => .inl (part_of_identifierAt h c hc)

theorem ident_of_commentAt {cs : List Char} {tokens : List Token} {n : Nat}
    (h : commentAt cs = some (tokens, n)) : ∀ w, .ident w ∈ tokens → w = "doc" := by
  have hdoc : ∀ {inner tail length cs}, documenting inner tail length cs = some (tokens, n) →
      ∀ w, Token.ident w ∈ tokens → w = "doc" := by
    intro inner tail length cs h w hw
    unfold documenting at h
    split at h
    · cases h
    · dsimp only at h
      split at h
      · cases h
        cases inner <;> simpa [docTokens, Token.bracketed] using hw
      · cases h
  have hnone : ∀ {length : Option Nat}, length.map (([] : List Token), ·) = some (tokens, n) →
      ∀ w, Token.ident w ∈ tokens → w = "doc" := by
    intro length h w hw
    obtain ⟨k, -, hk⟩ := Option.map_eq_some_iff.1 h
    cases hk
    cases hw
  unfold commentAt at h
  split at h
  · exact hdoc h
  · cases h; intro w hw; cases hw
  · exact hdoc h
  · cases h; intro w hw; cases hw
  · cases h; intro w hw; cases hw
  · exact hdoc h
  · exact hnone h
  · exact hdoc h
  · exact hnone h
  · cases h

theorem ident_of_literal {cs : List Char} {tokens : List Token} {n : Nat}
    (h : munch.literal cs = some (tokens, n)) {w : String} : ¬.ident w ∈ tokens := by
  intro hw
  unfold munch.literal at h
  split at h
  · cases h
    simp at hw
  · obtain ⟨⟨value, k⟩, -, hk⟩ := Option.map_eq_some_iff.1 h
    cases hk
    simp at hw

theorem ident_of_punctAt {cs : List Char} {t : Token} (h : punctAt cs = some t) {w : String} :
    t ≠ .ident w := by
  rintro rfl
  unfold punctAt at h
  split at h
  · cases h
  · split at h
    · cases h
    · split at h
      · split at h
        · split at h
          · cases h
          · split at h <;> cases h
          · cases h
        · cases h
      · cases h

theorem ident_of_munch {cs : List Char} {tokens : List Token} {n : Nat}
    (h : munch cs = some (tokens, n)) {w : String} (hw : .ident w ∈ tokens) :
    identAt w.toList = some w.toList := by
  cases cs with
  | nil => cases h
  | cons c cs =>
    rw [munch] at h
    split at h
    · cases h; cases hw
    · cases hcomment : commentAt (c :: cs) with
      | some p =>
        rw [hcomment] at h
        obtain rfl := Option.some.inj h
        -- a comment that documents something is an attribute, whose one word is `doc`
        obtain rfl := ident_of_commentAt hcomment w hw
        decide
      | none =>
        cases hliteral : munch.literal (c :: cs) with
        | some p =>
          rw [hcomment, hliteral] at h
          obtain rfl := Option.some.inj h
          exact absurd hw (ident_of_literal hliteral)
        | none =>
          cases hpunct : punctAt (c :: cs) with
          | some t =>
            rw [hcomment, hliteral, hpunct] at h
            obtain rfl : [t] = tokens := congrArg Prod.fst (Option.some.inj h)
            exact absurd (List.mem_singleton.1 hw).symm (ident_of_punctAt hpunct)
          | none =>
            rw [hcomment, hliteral, hpunct] at h
            obtain ⟨name, hname, hfound⟩ := Option.map_eq_some_iff.1 h
            cases hfound
            obtain rfl : w = String.ofList name := by simpa using hw
            rw [String.toList_ofList]
            exact identAt_self hname

/-- Every word found by the scanner is a word by itself. -/
theorem ident_of_scanFrom {skip pos : Nat} {stack : List (Bracket × Nat)} {cs : List Char}
    {lexemes : List Lexeme} (h : scanFrom skip pos stack cs = .ok lexemes) :
    ∀ l ∈ lexemes, ∀ w, l.token = .ident w → identAt w.toList = some w.toList := by
  induction cs generalizing skip pos stack lexemes with
  | nil =>
    unfold scanFrom at h
    split at h
    · cases h
      intro l hl
      cases hl
    · cases h
  | cons c cs ih =>
    unfold scanFrom at h
    split at h
    · exact ih h
    · split at h
      · rename_i b hb
        obtain ⟨rest, hrest, h⟩ := ok_of_bind h
        cases h
        intro l hl w hw
        rcases List.mem_cons.1 hl with rfl | hl
        · cases hw
        · exact ih hrest l hl w hw
      · split at h
        · split at h
          · cases h
          · split at h
            · obtain ⟨rest, hrest, h⟩ := ok_of_bind h
              cases h
              intro l hl w hw
              rcases List.mem_cons.1 hl with rfl | hl
              · cases hw
              · exact ih hrest l hl w hw
            · cases h
        · split at h
          · cases h
          · rename_i tokens n hmunch
            obtain ⟨rest, hrest, h⟩ := ok_of_bind h
            cases h
            intro l hl w hw
            rcases List.mem_append.1 hl with hl | hl
            · obtain ⟨t, ht, rfl⟩ := List.mem_map.1 hl
              obtain rfl : t = .ident w := hw
              exact ident_of_munch hmunch ht
            · exact ih hrest l hl w hw

theorem ident_of_scan {text : String} {lexemes : List Lexeme} (h : scan text = .ok lexemes) :
    ∀ l ∈ lexemes, ∀ w, l.token = .ident w → identAt w.toList = some w.toList := by
  unfold scan at h
  split at h
  · exact ident_of_scanFrom h
  · exact ident_of_scanFrom h

end Scanner

end ReaderGen
