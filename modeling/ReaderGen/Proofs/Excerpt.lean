import ReaderGen.Proofs.Balance
import ReaderGen.Proofs.Literals
import ReaderGen.Proofs.Words

/-!
# A text inside a longer one

The scanner looks ahead, but not far: a text that is followed by a blank or a bracket is split into the
tokens it has by itself, and brackets that are open around it do not matter. The text has to be free of
comments, as a comment that ends with its line would go on into what follows.

* `Scanner.commentFree`: no comment begins anywhere in a text.
* `Scanner.munch_append`: a token ends where it did.
* `Scanner.scans_append`: the tokens of a text inside a longer one.
* `Scanner.openAfter_of_scanFrom`: the brackets of a text match.
-/

namespace ReaderGen

open Text Scanner

/-! ## Tokens -/

namespace Scanner

variable {rest : List Char}

/-- Whether a comment begins here. -/
def opensComment : List Char → Bool
  | '/' :: '/' :: _ => true
  | '/' :: '*' :: _ => true
  | _ => false

/-- No comment begins at any place where the scanner looks for a token, once it has passed over `skip`
characters. -/
def commentFree : Nat → List Char → Bool
  | _, [] => true
  | k + 1, _ :: cs => commentFree k cs
  | 0, c :: cs =>
    !opensComment (c :: cs) && commentFree ((munch (c :: cs)).elim 0 (·.2 - 1)) cs

theorem commentAt_of_opensComment {cs : List Char} (h : opensComment cs = false) :
    commentAt cs = none := by
  unfold commentAt
  split <;> first | rfl | cases h

theorem opensComment_cons_cons (c d : Char) (cs : List Char) :
    opensComment (c :: d :: cs) = (decide (c = '/') && (decide (d = '/') || decide (d = '*'))) := by
  by_cases hc : c = '/'
  · subst hc
    by_cases hd : d = '/'
    · subst hd; rfl
    · by_cases hs : d = '*'
      · subst hs; rfl
      · simp [opensComment, hd, hs]
  · simp [opensComment, hc]

theorem opensComment_append (h : Apart rest) {cs : List Char} (hcs : cs ≠ []) :
    opensComment (cs ++ rest) = opensComment cs := by
  have hends : ∀ c ∈ wordEnds, c ≠ '/' ∧ c ≠ '*' := forall_mem_of_all (by decide)
  match cs with
  | [] => exact absurd rfl hcs
  | [c] =>
    cases rest with
    | nil => rfl
    | cons d rest => simp [opensComment, hends d h]
  | c :: d :: cs =>
    rw [List.cons_append, List.cons_append, opensComment_cons_cons, opensComment_cons_cons]

theorem beginsPunct_cons (c : Char) (cs : List Char) :
    beginsPunct (c :: cs) = (!opensComment (c :: cs) && punctuation.contains c) := by
  cases cs with
  | nil => simp [beginsPunct, opensComment]
  | cons d cs =>
    rw [opensComment_cons_cons]
    by_cases hc : c = '/'
    · subst hc
      by_cases hd : d = '/'
      · subst hd; rfl
      · by_cases hs : d = '*'
        · subst hs; rfl
        · simp [beginsPunct, hd, hs]
    · simp [beginsPunct, hc]

theorem beginsPunct_append (h : Apart rest) {cs : List Char} (hcs : cs ≠ []) :
    beginsPunct (cs ++ rest) = beginsPunct cs := by
  obtain ⟨c, cs, rfl⟩ := List.exists_cons_of_ne_nil hcs
  rw [List.cons_append, beginsPunct_cons, ← List.cons_append, opensComment_append h hcs,
    beginsPunct_cons]

theorem punctAt_append (h : Apart rest) (hp : beginsPunct rest = false) {cs : List Char}
    (hcs : cs ≠ []) : punctAt (cs ++ rest) = punctAt cs := by
  obtain ⟨c, cs, rfl⟩ := List.exists_cons_of_ne_nil hcs
  have hnext : beginsPunct (cs ++ rest) = beginsPunct cs := by
    by_cases hnil : cs = []
    · subst hnil
      exact hp
    · exact beginsPunct_append h hnil
  have hpunct := beginsPunct_append h hcs
  rw [List.cons_append] at hpunct ⊢
  unfold punctAt
  dsimp only
  have hraw : ['r', '#'].isPrefixOf (cs ++ rest) = ['r', '#'].isPrefixOf cs := by
    rw [Bool.eq_iff_iff]
    refine ⟨isPrefixOf_apart (forall_mem_of_all (by decide)) h, fun hp => ?_⟩
    rw [List.isPrefixOf_iff_prefix] at hp ⊢
    exact hp.trans (List.prefix_append cs rest)
  rw [hpunct, hnext, nameAt_append h, hraw]
  cases hname : nameAt cs with
  | none => rfl
  | some name =>
    obtain ⟨-, tail, rfl⟩ := nameAt_self hname
    dsimp only
    rw [List.append_assoc, List.drop_left, List.drop_left]
    cases tail with
    | cons d tail =>
      by_cases hquote : d = '\''
      · subst hquote; rfl
      · by_cases hsign : d = '#'
        · subst hsign; rfl
        · simp [hquote, hsign]
    | nil =>
      cases rest with
      | nil => rfl
      | cons d rest =>
        have hends : ∀ c ∈ wordEnds, c ≠ '\'' ∧ c ≠ '#' := forall_mem_of_all (by decide)
        simp [hends d h]

theorem digit_of_number {c : Char} {cs : List Char}
    (h : (Literal.floatAt (c :: cs)).isSome ∨ (Literal.intAt (c :: cs)).isSome) : c.isDigit = true := by
  cases hc : c.isDigit with
  | true => rfl
  | false =>
    rw [floatAt_of_not_digit hc, intAt_of_not_digit hc] at h
    simp at h

theorem charBody_cons {c : Char} (h : c ≠ '\\') (cs : List Char) :
    Literal.charBody .text (c :: cs) = if cs.head? = some '\'' then some 2 else none := by
  cases cs with
  | nil => simp [Literal.charBody, h]
  | cons d cs =>
    by_cases hd : d = '\''
    · subst hd; simp [Literal.charBody, Literal.Content.admits]
    · simp [Literal.charBody, h, hd]

/-- A single quote before a name begins no character, whatever follows. -/
theorem quotedAt_of_punctAt {c : Char} {cs : List Char} {t : Token} (h : Apart rest)
    (hq : Literal.quotedAt (c :: cs) = none) (ht : punctAt (c :: cs) = some t) :
    Literal.quotedAt (c :: (cs ++ rest)) = none := by
  have hpunct : c ∈ punctuation := by
    unfold punctAt at ht
    dsimp only at ht
    split at ht
    · cases ht
    · rename_i hb
      rw [beginsPunct_cons] at hb
      simp at hb
      exact hb.2
  by_cases hquote : c = '\''
  · subst hquote
    have hname : ∃ name, nameAt cs = some name := by
      unfold punctAt at ht
      dsimp only at ht
      split at ht
      · cases ht
      · rw [if_pos rfl] at ht
        split at ht
        · rename_i name hname
          exact ⟨name, hname⟩
        · cases ht
    obtain ⟨name, hname⟩ := hname
    cases cs with
    | nil => cases hname
    | cons a cs =>
      have ha : a ≠ '\\' := start_ne (start_of_nameAt hname) (by decide)
      have hbody : Literal.charBody .text (a :: cs) = none := by
        simpa [Literal.quotedAt] using hq
      have hlong : Literal.charBody .text (a :: (cs ++ rest)) = none := by
        rw [charBody_cons ha] at hbody ⊢
        cases cs with
        | cons d cs => exact hbody
        | nil =>
          cases rest with
          | nil => exact hbody
          | cons d rest =>
            have hends : ∀ c ∈ wordEnds, c ≠ '\'' := forall_mem_of_all (by decide)
            simp [hends d h]
      simp [Literal.quotedAt, hlong]
  · refine quotedAt_of_ne (fun q hmem => ?_) _
    rintro rfl
    have hothers : ∀ q ∈ ['"', 'r', 'b', 'c', '\''], q ∈ punctuation → q = '\'' :=
      forall_mem_of_all (by decide)
    exact hquote (hothers c hmem hpunct)

theorem prefix_of_identAt {cs w : List Char} (h : identAt cs = some w) : ∃ tail, cs = w ++ tail := by
  rw [identAt] at h
  split at h
  · cases h
  · exact (nameAt_self h).2

/-- What begins a text that is followed by something else is what the text begins with. -/
theorem munch_append (h : Apart rest) (hp : beginsPunct rest = false) {cs : List Char}
    {tokens : List Token} {n : Nat} (hc : opensComment cs = false)
    (hm : munch cs = some (tokens, n)) :
    n ≤ cs.length ∧ munch (cs ++ rest) = some (tokens, n) := by
  cases cs with
  | nil => cases hm
  | cons c cs =>
    have hne : c :: cs ≠ [] := List.cons_ne_nil c cs
    have hcomment := commentAt_of_opensComment hc
    have hcomment' := commentAt_of_opensComment ((opensComment_append h hne).trans hc)
    have hfloat := Literal.floatAt_append h (c :: cs)
    have hint := Literal.intAt_append h (c :: cs)
    have hpunct := punctAt_append h hp hne
    have hident := identAt_append h (c :: cs)
    have htake : ∀ {m : Nat}, m ≤ (c :: cs).length →
        (c :: (cs ++ rest)).take m = (c :: cs).take m := by
      intro m hle
      rw [← List.cons_append, List.take_append_of_le_length hle]
    have hdigit : (Literal.floatAt (c :: cs)).isSome ∨ (Literal.intAt (c :: cs)).isSome →
        c.isDigit = true := digit_of_number
    rw [List.cons_append] at hcomment' hfloat hint hpunct hident ⊢
    rw [munch, hcomment, munch.literal] at hm
    rw [munch, hcomment', munch.literal]
    by_cases hblank : isBlank c = true
    · rw [if_pos hblank] at hm ⊢
      cases hm
      exact ⟨by simp, rfl⟩
    rw [if_neg hblank] at hm ⊢
    cases hq : Literal.quotedAt (c :: cs) with
    | some m =>
      obtain ⟨hle, hall⟩ := Literal.quotedAt_append hq
      have hq' := hall h
      rw [List.cons_append] at hq'
      rw [hq] at hm
      rw [hq']
      cases hm
      refine ⟨hle, ?_⟩
      simp [htake hle]
    | none =>
      rw [hq] at hm
      rw [hfloat, hint, hpunct, hident]
      cases hf : Literal.floatAt (c :: cs) with
      | some m =>
        rw [hf] at hm
        cases hm
        have hle := Literal.le_of_floatAt hf
        rw [quotedAt_digit (hdigit (.inl (by rw [hf]; rfl)))]
        refine ⟨hle, ?_⟩
        simp [htake hle]
      | none =>
        rw [hf] at hm
        cases hi : Literal.intAt (c :: cs) with
        | some found =>
          obtain ⟨value, m⟩ := found
          rw [hi] at hm
          cases hm
          have hle := Literal.le_of_intAt hi
          rw [quotedAt_digit (hdigit (.inr (by rw [hi]; rfl)))]
          refine ⟨hle, ?_⟩
          simp [htake hle]
        | none =>
          rw [hi] at hm
          cases ht : punctAt (c :: cs) with
          | some t =>
            rw [ht] at hm
            cases hm
            rw [quotedAt_of_punctAt h hq ht]
            exact ⟨by simp, rfl⟩
          | none =>
            rw [ht] at hm
            obtain ⟨name, hname, hfound⟩ := Option.map_eq_some_iff.1 hm
            cases hfound
            have hmarks := literalMarks_append h (c :: cs)
            rw [literalMarks_of_identAt hname, List.cons_append] at hmarks
            rw [quotedAt_of_start (start_of_identAt hname) hmarks, hname]
            obtain ⟨tail, htail⟩ := prefix_of_identAt hname
            exact ⟨by rw [htail]; simp, rfl⟩

theorem punct_of_punctAt {cs : List Char} {t : Token} (h : punctAt cs = some t) :
    ∃ c joint, t = .punct c joint := by
  unfold punctAt at h
  split at h
  · cases h
  · split at h
    · cases h
    · split at h
      · split at h
        · split at h
          · cases h
          · split at h
            · cases h; exact ⟨_, _, rfl⟩
            · cases h
          · cases h; exact ⟨_, _, rfl⟩
        · cases h
      · cases h; exact ⟨_, _, rfl⟩

theorem tokens_of_munch {cs : List Char} {tokens : List Token} {n : Nat}
    (hc : opensComment cs = false) (hm : munch cs = some (tokens, n)) :
    ∀ t ∈ tokens, t.isBracket = false := by
  cases cs with
  | nil => cases hm
  | cons c cs =>
    have hone : ∀ {t : Token}, t.isBracket = false → ∀ u ∈ [t], u.isBracket = false := by
      intro t ht u hu
      rwa [List.mem_singleton.1 hu]
    rw [munch, commentAt_of_opensComment hc] at hm
    split at hm
    · cases hm
      intro t ht
      cases ht
    · cases hl : munch.literal (c :: cs) with
      | some found =>
        rw [hl] at hm
        cases hm
        unfold munch.literal at hl
        split at hl
        · cases hl; exact hone rfl
        · obtain ⟨⟨value, k⟩, -, hk⟩ := Option.map_eq_some_iff.1 hl
          cases hk
          exact hone rfl
      | none =>
        cases ht : punctAt (c :: cs) with
        | some t =>
          rw [hl, ht] at hm
          cases hm
          obtain ⟨d, joint, rfl⟩ := punct_of_punctAt ht
          exact hone rfl
        | none =>
          rw [hl, ht] at hm
          obtain ⟨name, -, hname⟩ := Option.map_eq_some_iff.1 hm
          cases hname
          exact hone rfl

/-! ## Texts -/

theorem munch_bracket {c : Char} {b : Bracket}
    (h : Bracket.ofOpening? c = some b ∨ Bracket.ofClosing? c = some b) (cs : List Char) :
    munch (c :: cs) = none ∧ opensComment (c :: cs) = false := by
  have hc : c ∈ "()[]\x7b\x7d".toList := by
    by_cases hmem : c ∈ "()[]\x7b\x7d".toList
    · exact hmem
    · obtain ⟨ho, hb⟩ := Scans.not_bracket (c := c) fun b hb heq => hmem (heq ▸ hb)
      rw [ho, hb] at h
      simp at h
  have hc' : c = '(' ∨ c = ')' ∨ c = '[' ∨ c = ']' ∨ c = '\x7b' ∨ c = '\x7d' := by simpa using hc
  rcases hc' with rfl | rfl | rfl | rfl | rfl | rfl <;> exact ⟨rfl, rfl⟩

/-- What the scanner does at a place: it opens a bracket, closes the innermost one, or takes what stands
here and passes over the rest of it. -/
theorem scanFrom_cases {pos : Nat} {stack : List (Bracket × Nat)} {c : Char} {cs : List Char}
    {lexemes : List Lexeme} (h : scanFrom 0 pos stack (c :: cs) = .ok lexemes) :
    (∃ b ls, Bracket.ofOpening? c = some b ∧ scanFrom 0 (pos + 1) ((b, pos) :: stack) cs = .ok ls ∧
      lexemes.map (·.token) = .opening b :: ls.map (·.token)) ∨
    (∃ b start outer ls, Bracket.ofOpening? c = none ∧ Bracket.ofClosing? c = some b ∧
      stack = (b, start) :: outer ∧ scanFrom 0 (pos + 1) outer cs = .ok ls ∧
      lexemes.map (·.token) = .closing b :: ls.map (·.token)) ∨
    ∃ tokens n ls, Bracket.ofOpening? c = none ∧ Bracket.ofClosing? c = none ∧
      munch (c :: cs) = some (tokens, n) ∧ scanFrom (n - 1) (pos + 1) stack cs = .ok ls ∧
      lexemes.map (·.token) = tokens ++ ls.map (·.token) := by
  unfold scanFrom at h
  dsimp only at h
  split at h
  · rename_i b hb
    obtain ⟨ls, hls, h⟩ := ok_of_bind h
    cases h
    exact .inl ⟨b, ls, hb, hls, rfl⟩
  · rename_i hopen
    split at h
    · rename_i b hb
      split at h
      · cases h
      · rename_i top start outer
        split at h
        · rename_i htop
          obtain ⟨ls, hls, h⟩ := ok_of_bind h
          cases h
          exact .inr (.inl ⟨b, start, outer, ls, hopen, hb, by rw [htop], hls, rfl⟩)
        · cases h
    · rename_i hclose
      split at h
      · cases h
      · rename_i tokens n hm
        obtain ⟨ls, hls, h⟩ := ok_of_bind h
        cases h
        exact .inr (.inr ⟨tokens, n, ls, hopen, hclose, hm, hls, by simp [Function.comp_def]⟩)

/-- The tokens of a text inside a longer one are those it has by itself. -/
theorem scans_append (h : Apart rest) (hp : beginsPunct rest = false) {outer : List Bracket}
    {after : List Token}
    (hrest : ∀ p (stack : List (Bracket × Nat)), stack.map (·.1) = outer → Scans 0 p stack rest after)
    {skip pos : Nat} {stack : List (Bracket × Nat)} {cs : List Char} {lexemes : List Lexeme}
    (hs : scanFrom skip pos stack cs = .ok lexemes) (hskip : skip ≤ cs.length)
    (hc : commentFree skip cs = true) (pos' : Nat) {stack' : List (Bracket × Nat)}
    (hstack : stack'.map (·.1) = stack.map (·.1) ++ outer) :
    Scans skip pos' stack' (cs ++ rest) (lexemes.map (·.token) ++ after) := by
  induction cs generalizing skip pos stack lexemes pos' stack' with
  | nil =>
    obtain rfl : skip = 0 := by simpa using hskip
    unfold scanFrom at hs
    split at hs
    · cases hs
      exact hrest pos' stack' hstack
    · cases hs
  | cons c cs ih =>
    cases skip with
    | succ k => exact ih hs (by simpa using hskip) hc _ hstack
    | zero =>
      rw [commentFree, Bool.and_eq_true, Bool.not_eq_true'] at hc
      obtain ⟨hopens, hc⟩ := hc
      rcases scanFrom_cases hs with ⟨b, ls, hb, hls, htokens⟩ |
        ⟨b, start, stack, ls, hno, hb, rfl, hls, htokens⟩ | ⟨tokens, n, ls, hno, hb, hm, hls, htokens⟩
      · rw [(munch_bracket (.inl hb) cs).1] at hc
        rw [htokens]
        exact Scans.opening hb (ih hls (Nat.zero_le _) hc _ (by simp [hstack]))
      · rw [(munch_bracket (.inr hb) cs).1] at hc
        obtain ⟨⟨b', start'⟩, stack', rfl⟩ : ∃ top stack'', stack' = top :: stack'' := by
          cases stack' with
          | nil => cases hstack
          | cons top stack'' => exact ⟨top, stack'', rfl⟩
        obtain ⟨rfl, hstack'⟩ : b' = b ∧ stack'.map (·.1) = stack.map (·.1) ++ outer := by
          simpa using hstack
        rw [htokens]
        exact Scans.closing hno hb (ih hls (Nat.zero_le _) hc _ hstack')
      · rw [hm] at hc
        obtain ⟨hle, hlong⟩ := munch_append h hp hopens hm
        rw [htokens, List.append_assoc]
        rw [List.length_cons] at hle
        exact Scans.taken hno hb hlong (ih hls (by omega) hc _ hstack)

/-- The brackets of a text are closed in order. -/
theorem openAfter_of_scanFrom {skip pos : Nat} {stack : List (Bracket × Nat)} {cs : List Char}
    {lexemes : List Lexeme} (hs : scanFrom skip pos stack cs = .ok lexemes)
    (hc : commentFree skip cs = true) :
    Token.openAfter (stack.map (·.1)) (lexemes.map (·.token)) = some [] := by
  induction cs generalizing skip pos stack lexemes with
  | nil =>
    unfold scanFrom at hs
    split at hs
    · cases hs
      rfl
    · cases hs
  | cons c cs ih =>
    cases skip with
    | succ k => exact ih hs hc
    | zero =>
      rw [commentFree, Bool.and_eq_true, Bool.not_eq_true'] at hc
      obtain ⟨hopens, hc⟩ := hc
      rcases scanFrom_cases hs with ⟨b, ls, hb, hls, htokens⟩ |
        ⟨b, start, stack, ls, -, hb, rfl, hls, htokens⟩ | ⟨tokens, n, ls, -, -, hm, hls, htokens⟩
      · rw [(munch_bracket (.inl hb) cs).1] at hc
        rw [htokens]
        exact ih hls hc
      · rw [(munch_bracket (.inr hb) cs).1] at hc
        rw [htokens, List.map_cons, Token.openAfter, if_pos rfl]
        exact ih hls hc
      · rw [hm] at hc
        rw [htokens, Token.openAfter_of_not_brackets (tokens_of_munch hopens hm)]
        exact ih hls hc

end Scanner

end ReaderGen
