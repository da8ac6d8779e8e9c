import ReaderGen.Proofs.Spelling

/-!
# Where literals end

A literal ends where it did if a blank or a bracket follows it: what the scanner looks for beyond a
number or a quoted text is never one of these.

* `Literal.intAt_append`, `Literal.floatAt_append`, `Literal.quotedAt_append`: the literal at the
  beginning of a text, with more after the text.
* `Literal.le_of_intAt`, `Literal.le_of_floatAt`: it ends within the text.
-/

namespace ReaderGen

open Text Scanner

/-! ## Numbers -/

namespace Literal

variable {rest : List Char}

theorem suffixLength_append (h : Apart rest) (cs : List Char) :
    suffixLength (cs ++ rest) = suffixLength cs := by
  rw [suffixLength, suffixLength, identifierAt_append h]

theorem suffixLength_le (cs : List Char) : suffixLength cs ≤ cs.length := by
  cases cs with
  | nil => exact Nat.le_refl 0
  | cons c cs =>
    by_cases hc : isIdentifierStart c = true
    · rw [suffixLength, identifierAt, if_pos hc]
      exact Nat.succ_le_succ (List.takeWhile_prefix _).length_le
    · rw [suffixLength, identifierAt, if_neg hc]
      exact Nat.zero_le _

theorem digitsAt_append (h : Apart rest) (base : Nat) (value : Option Nat) (n : Nat)
    (cs : List Char) : digitsAt base value n (cs ++ rest) = digitsAt base value n cs := by
  induction cs generalizing value n with
  | nil =>
    have hends : ∀ c ∈ wordEnds, c ≠ '_' ∧ digitValue? c = none := forall_mem_of_all (by decide)
    cases rest with
    | nil => rfl
    | cons c rest =>
      obtain ⟨hc, hv⟩ := hends c h
      rw [List.nil_append, digitsAt, digitsAt, if_neg hc, hv]
  | cons c cs ih => simp only [List.cons_append, digitsAt, ih]

theorem le_of_digitsAt {base : Nat} {value : Option Nat} {n v m : Nat} {cs : List Char}
    (h : digitsAt base value n cs = some (v, m)) : m ≤ n + cs.length := by
  induction cs generalizing value n with
  | nil =>
    obtain ⟨w, -, hw⟩ := Option.map_eq_some_iff.1 h
    cases hw
    exact Nat.le_refl _
  | cons c cs ih =>
    have hstop : ∀ {value : Option Nat}, value.map (·, n) = some (v, m) → m ≤ n + (c :: cs).length := by
      intro value h
      obtain ⟨w, -, hw⟩ := Option.map_eq_some_iff.1 h
      cases hw
      exact Nat.le_add_right _ _
    have hgo : ∀ {value : Option Nat}, digitsAt base value (n + 1) cs = some (v, m) →
        m ≤ n + (c :: cs).length := by
      intro value h
      have := ih h
      rw [List.length_cons]
      omega
    rw [digitsAt] at h
    split at h
    · split at h
      · cases h
      · exact hgo h
    · split at h
      · exact hstop h
      · split at h
        · exact hgo h
        · split at h
          · cases h
          · exact hstop h

theorem baseAt_cons_cons (d e : Char) (cs cs' : List Char) :
    baseAt (d :: e :: cs) = baseAt (d :: e :: cs') := by
  by_cases hd : d = '0'
  · subst hd
    by_cases hx : e = 'x'
    · subst hx; rfl
    · by_cases ho : e = 'o'
      · subst ho; rfl
      · by_cases hb : e = 'b'
        · subst hb; rfl
        · simp [baseAt, hx, ho, hb]
  · simp [baseAt, hd]

theorem baseAt_append (h : Apart rest) (cs : List Char) : baseAt (cs ++ rest) = baseAt cs := by
  have hends : ∀ c ∈ wordEnds, c ≠ '0' ∧ c ≠ 'x' ∧ c ≠ 'o' ∧ c ≠ 'b' := forall_mem_of_all (by decide)
  cases rest with
  | nil => rw [List.append_nil]
  | cons c rest =>
    obtain ⟨h0, hx, ho, hb⟩ := hends c h
    match cs with
    | [] => simp [baseAt, h0]
    | [d] => simp [baseAt, hx, ho, hb]
    | d :: e :: cs => exact baseAt_cons_cons d e _ _

theorem announced_le (cs : List Char) : (baseAt cs).2 ≤ cs.length := by
  unfold baseAt
  split <;> simp

theorem withSuffix_append (h : Apart rest) {n : Nat} {cs : List Char} (hn : n ≤ cs.length) :
    withSuffix n (cs ++ rest) = withSuffix n cs := by
  have hle := suffixLength_le (cs.drop n)
  rw [List.length_drop] at hle
  rw [withSuffix, withSuffix, List.drop_append_of_le_length hn, suffixLength_append h,
    List.drop_append_of_le_length (by omega)]
  cases cs.drop (n + suffixLength (cs.drop n)) with
  | cons d ds => rfl
  | nil =>
    cases rest with
    | nil => rfl
    | cons c rest => simp [not_part_of_end c h]

theorem eq_of_withSuffix {n m : Nat} {cs : List Char} (h : withSuffix n cs = some m) :
    m = n + suffixLength (cs.drop n) := by
  unfold withSuffix at h
  dsimp only at h
  split at h
  · exact (Option.some.inj h).symm
  · split at h
    · cases h
    · exact (Option.some.inj h).symm

theorem le_of_withSuffix {n m : Nat} {cs : List Char} (hn : n ≤ cs.length)
    (h : withSuffix n cs = some m) : m ≤ cs.length := by
  have hle := suffixLength_le (cs.drop n)
  rw [List.length_drop] at hle
  have hm := eq_of_withSuffix h
  omega

theorem intAt_append (h : Apart rest) (cs : List Char) : intAt (cs ++ rest) = intAt cs := by
  have hle := announced_le cs
  unfold intAt
  rw [baseAt_append h]
  generalize baseAt cs = announced at hle ⊢
  obtain ⟨base, k⟩ := announced
  dsimp only at hle ⊢
  rw [List.drop_append_of_le_length hle, digitsAt_append h]
  cases hd : digitsAt base none 0 (cs.drop k) with
  | none => rfl
  | some found =>
    obtain ⟨value, n⟩ := found
    have hn := le_of_digitsAt hd
    rw [List.length_drop] at hn
    dsimp only
    rw [withSuffix_append h (by omega)]

theorem le_of_intAt {cs : List Char} {value n : Nat} (h : intAt cs = some (value, n)) :
    n ≤ cs.length := by
  have hle := announced_le cs
  unfold intAt at h
  generalize baseAt cs = announced at hle h
  obtain ⟨base, k⟩ := announced
  dsimp only at hle h
  split at h
  · cases h
  · rename_i v m hd
    have hm := le_of_digitsAt hd
    rw [List.length_drop] at hm
    obtain ⟨total, htotal, heq⟩ := Option.map_eq_some_iff.1 h
    cases heq
    exact le_of_withSuffix (by omega) htotal

theorem exponentAt_append (h : Apart rest) (signed valued : Bool) (n : Nat) (cs : List Char) :
    exponentAt signed valued n (cs ++ rest) = exponentAt signed valued n cs := by
  induction cs generalizing signed valued n with
  | nil =>
    have hends : ∀ c ∈ wordEnds, c ≠ '+' ∧ c ≠ '-' ∧ c.isDigit = false ∧ c ≠ '_' :=
      forall_mem_of_all (by decide)
    cases rest with
    | nil => rfl
    | cons c rest =>
      obtain ⟨hplus, hminus, hdigit, hscore⟩ := hends c h
      simp [exponentAt, hplus, hminus, hdigit, hscore]
  | cons c cs ih => simp only [List.cons_append, exponentAt, ih]

theorem le_of_exponentAt {signed valued : Bool} {n m : Nat} {cs : List Char}
    (h : exponentAt signed valued n cs = some m) : m ≤ n + cs.length := by
  induction cs generalizing signed valued n with
  | nil =>
    rw [exponentAt] at h
    split at h
    · cases h; exact Nat.le_refl _
    · cases h
  | cons c cs ih =>
    rw [List.length_cons]
    rw [exponentAt] at h
    split at h
    · split at h
      · cases h; omega
      · split at h
        · cases h
        · have := ih h; omega
    · split at h
      · have := ih h; omega
      · split at h
        · have := ih h; omega
        · split at h
          · cases h; omega
          · cases h

theorem isDigitOrUnderscore_of_end : ∀ c ∈ wordEnds, isDigitOrUnderscore c = false :=
  forall_mem_of_all (by decide)

theorem fraction_append (h : Apart rest) (whole : Nat) (after : List Char) :
    fractionAt.fraction whole (after ++ rest) = fractionAt.fraction whole after := by
  have hends : ∀ c ∈ wordEnds, c ≠ 'e' ∧ c ≠ 'E' := forall_mem_of_all (by decide)
  unfold fractionAt.fraction
  rw [h.takeWhile_append isDigitOrUnderscore_of_end]
  dsimp only
  rw [List.drop_append_of_le_length (List.takeWhile_prefix _).length_le]
  cases after.drop (after.takeWhile isDigitOrUnderscore).length with
  | cons d ds =>
    rw [List.cons_append]
    dsimp only
    rw [exponentAt_append h]
  | nil =>
    cases rest with
    | nil => rfl
    | cons c rest => simp [hends c h]

theorem fraction_le (whole : Nat) (after : List Char) :
    fractionAt.fraction whole after ≤ whole + 1 + after.length := by
  have hle := (List.takeWhile_prefix (l := after) isDigitOrUnderscore).length_le
  have hlen := List.length_drop (i := (after.takeWhile isDigitOrUnderscore).length) (l := after)
  unfold fractionAt.fraction
  dsimp only
  split
  · rename_i d ds hd
    rw [hd, List.length_cons] at hlen
    split
    · split
      · rename_i n hn
        have := le_of_exponentAt hn
        omega
      · omega
    · omega
  · omega

theorem one_add_takeWhile_le (c : Char) (cs : List Char) :
    1 + (cs.takeWhile isDigitOrUnderscore).length ≤ (c :: cs).length := by
  have := (List.takeWhile_prefix (l := cs) isDigitOrUnderscore).length_le
  rw [List.length_cons]
  omega

theorem fractionAt_append (h : Apart rest) (cs : List Char) :
    fractionAt (cs ++ rest) = fractionAt cs := by
  have hends : ∀ c ∈ wordEnds, c.isDigit = false ∧ c ≠ '.' ∧ isIdentifierStart c = false ∧ c ≠ 'e' ∧
      c ≠ 'E' := forall_mem_of_all (by decide)
  cases cs with
  | nil =>
    cases rest with
    | nil => rfl
    | cons c rest => simp [fractionAt, hends c h]
  | cons c cs =>
    have hle := one_add_takeWhile_le c cs
    rw [List.cons_append, fractionAt, fractionAt, h.takeWhile_append isDigitOrUnderscore_of_end]
    dsimp only
    rw [← List.cons_append, List.drop_append_of_le_length hle]
    by_cases hc : (!c.isDigit) = true
    · rw [if_pos hc, if_pos hc]
    rw [if_neg hc, if_neg hc]
    cases (c :: cs).drop (1 + (cs.takeWhile isDigitOrUnderscore).length) with
    | nil =>
      cases rest with
      | nil => rfl
      | cons d rest => simp [hends d h]
    | cons d after =>
      by_cases hd : d = '.'
      · subst hd
        cases after with
        | nil =>
          cases rest with
          | nil => rfl
          | cons d rest => simp [hends d h, fractionAt.fraction, isDigitOrUnderscore_of_end d h]
        | cons e after => simp [← fraction_append h _ (e :: after)]
      · simp [exponentAt_append h]

theorem le_of_fractionAt {cs : List Char} {n : Nat} (h : fractionAt cs = some n) :
    n ≤ cs.length := by
  cases cs with
  | nil => cases h
  | cons c cs =>
    have hle := one_add_takeWhile_le c cs
    have hlen := List.length_drop (i := 1 + (cs.takeWhile isDigitOrUnderscore).length) (l := c :: cs)
    rw [fractionAt] at h
    split at h
    · cases h
    dsimp only at h
    split at h
    · rename_i after hafter
      rw [hafter, List.length_cons] at hlen
      split at h
      · rename_i d after
        split at h
        · cases h
        · cases h
          have := fraction_le (1 + (cs.takeWhile isDigitOrUnderscore).length) (d :: after)
          rw [List.length_cons] at this hlen
          omega
      · cases h
        omega
    · rename_i d after hafter
      rw [hafter, List.length_cons] at hlen
      split at h
      · obtain ⟨k, hk, rfl⟩ := Option.map_eq_some_iff.1 h
        have := le_of_exponentAt hk
        omega
      · cases h
    · cases h

theorem floatAt_append (h : Apart rest) (cs : List Char) : floatAt (cs ++ rest) = floatAt cs := by
  rw [floatAt, floatAt, fractionAt_append h]
  cases hf : fractionAt cs with
  | none => rfl
  | some n => exact withSuffix_append h (le_of_fractionAt hf)

theorem le_of_floatAt {cs : List Char} {n : Nat} (h : floatAt cs = some n) : n ≤ cs.length := by
  obtain ⟨m, hm, h⟩ := Option.bind_eq_some_iff.1 h
  exact le_of_withSuffix (le_of_fractionAt hm) h

/-! ## Characters and strings -/

theorem codePointAt_append {value digits n v m : Nat} {cs : List Char}
    (h : codePointAt value digits n cs = some (v, m)) (rest : List Char) :
    codePointAt value digits n (cs ++ rest) = some (v, m) := by
  induction cs generalizing value digits n with
  | nil => cases h
  | cons c cs ih =>
    rw [codePointAt] at h
    rw [List.cons_append, codePointAt]
    split at h
    · split at h
      · cases h
      · rename_i hdigits
        rw [if_neg hdigits]
        exact ih h
    · split at h
      · cases h
      · rename_i hdigits
        rw [if_neg hdigits]
        split at h
        · rename_i hc
          rw [if_pos hc]
          exact ih h
        · rename_i hc
          rw [if_neg hc]
          exact h

theorem escapeAt_append {content : Content} {n : Nat} {cs : List Char}
    (h : escapeAt content cs = some n) (rest : List Char) :
    escapeAt content (cs ++ rest) = some n := by
  unfold escapeAt at h
  split at h
  · exact h
  · rename_i cs
    cases hcode : codePointAt 0 0 0 cs with
    | none =>
      rw [hcode] at h
      cases content <;> cases h
    | some found =>
      obtain ⟨v, m⟩ := found
      rw [hcode] at h
      cases content with
      | bytes => cases h
      | text => simpa [escapeAt, codePointAt_append hcode] using h
      | ended =>
        cases v with
        | zero => cases h
        | succ v => simpa [escapeAt, codePointAt_append hcode] using h
  · exact h
  · rename_i c cs hx hu h0
    split at h
    · rename_i hc
      have hc' : c = 'n' ∨ c = 'r' ∨ c = 't' ∨ c = '\\' ∨ c = '\'' ∨ c = '"' := by simpa using hc
      rcases hc' with rfl | rfl | rfl | rfl | rfl | rfl <;> exact h
    · cases h
  · cases h

theorem head_of_escapeAt {content : Content} {n : Nat} {cs : List Char}
    (h : escapeAt content cs = some n) : ∃ e es, cs = e :: es ∧ e ≠ '\n' ∧ e ≠ '\r' := by
  cases cs with
  | nil => cases h
  | cons e es =>
    refine ⟨e, es, rfl, ?_, ?_⟩
    · rintro rfl; cases h
    · rintro rfl; cases h

theorem stringBody_append {content : Content} {skip n m : Nat} {cs : List Char}
    (h : stringBody content skip n cs = some m) :
    m ≤ n + cs.length ∧ ∀ rest, stringBody content skip n (cs ++ rest) = some m := by
  induction cs generalizing skip n with
  | nil => cases h
  | cons c cs ih =>
    have hgo : ∀ {k : Nat}, stringBody content k (n + 1) cs = some m → m ≤ n + (c :: cs).length ∧
        ∀ rest, stringBody content k (n + 1) (cs ++ rest) = some m := by
      intro k hk
      obtain ⟨hle, hall⟩ := ih hk
      exact ⟨by rw [List.length_cons]; omega, hall⟩
    cases skip with
    | succ k => exact hgo h
    | zero =>
      unfold stringBody at h ⊢
      dsimp only [List.cons_append] at h ⊢
      by_cases hquote : c = '"'
      · rw [if_pos hquote] at h
        cases h
        exact ⟨by rw [List.length_cons]; omega, fun rest => if_pos hquote⟩
      simp only [if_neg hquote] at h ⊢
      by_cases hreturn : c = '\r'
      · simp only [if_pos hreturn] at h ⊢
        split at h
        · rename_i hhead
          obtain ⟨tail, rfl⟩ := List.head?_eq_some_iff.1 hhead
          simpa using hgo h
        · cases h
      simp only [if_neg hreturn] at h ⊢
      by_cases hescape : c = '\\'
      · simp only [if_pos hescape] at h ⊢
        split at h
        · exact hgo h
        · exact hgo h
        · split at h
          · rename_i k hk
            obtain ⟨hle, hall⟩ := hgo h
            obtain ⟨e, es, rfl, hfeed, hret⟩ := head_of_escapeAt hk
            refine ⟨hle, fun rest => ?_⟩
            have hlong := escapeAt_append hk rest
            rw [List.cons_append] at hlong ⊢
            simpa [hfeed, hret, hlong] using hall rest
          · cases h
      simp only [if_neg hescape] at h ⊢
      split at h
      · rename_i hadmits
        simpa only [if_pos hadmits] using hgo h
      · cases h

theorem rawBody_append {content : Content} {signs n m : Nat} {cs : List Char}
    (h : rawBody content signs n cs = some m) :
    m ≤ n + cs.length ∧ ∀ {rest : List Char}, Apart rest →
      rawBody content signs n (cs ++ rest) = some m := by
  induction cs generalizing n with
  | nil => cases h
  | cons c cs ih =>
    rw [List.length_cons]
    rw [rawBody] at h
    split at h
    · rename_i hend
      cases h
      simp only [Bool.and_eq_true, decide_eq_true_eq, List.all_eq_true] at hend
      obtain ⟨⟨hquote, hlen⟩, hsigns⟩ := hend
      rw [List.length_take] at hlen
      have hle : signs ≤ cs.length := by omega
      refine ⟨by omega, fun hrest => ?_⟩
      rw [List.cons_append, rawBody, List.take_append_of_le_length hle, if_pos]
      simpa [hquote, hle] using hsigns
    · rename_i hend
      split at h
      · cases h
      · rename_i hreturn
        split at h
        · rename_i hadmits
          obtain ⟨hle, hall⟩ := ih h
          refine ⟨by omega, fun {rest} hrest => ?_⟩
          -- a quote that ends nothing does not end anything with what follows: that begins with no `#`
          have hend' : ¬(decide (c = '"') && decide (((cs ++ rest).take signs).length = signs) &&
              ((cs ++ rest).take signs).all (· = '#')) = true := by
            intro htrue
            by_cases hshort : signs ≤ cs.length
            · rw [List.take_append_of_le_length hshort] at htrue
              exact hend htrue
            · simp only [Bool.and_eq_true, decide_eq_true_eq, List.all_eq_true] at htrue
              obtain ⟨⟨-, hlen⟩, hsigns⟩ := htrue
              cases rest with
              | nil =>
                rw [List.append_nil, List.length_take] at hlen
                omega
              | cons r rest =>
                have hr : r = '#' := hsigns r (by
                  rw [List.take_append, List.mem_append]
                  obtain ⟨k, hk⟩ : ∃ k, signs - cs.length = k + 1 := ⟨signs - cs.length - 1, by omega⟩
                  rw [hk, List.take_succ_cons]
                  exact .inr (.head _))
                have hmem : r ∈ wordEnds := hrest
                rw [hr] at hmem
                exact absurd hmem (by decide)
          have hreturn' : ¬(decide (c = '\r') && decide ((cs ++ rest).head? ≠ some '\n')) = true := by
            cases cs with
            | nil => cases h
            | cons d ds => exact hreturn
          rw [List.cons_append, rawBody, if_neg hend', if_neg hreturn', if_pos hadmits]
          exact hall hrest
        · cases h

theorem rawAt_append {content : Content} {n : Nat} {cs : List Char} (h : rawAt content cs = some n) :
    n ≤ cs.length ∧ ∀ {rest : List Char}, Apart rest → rawAt content (cs ++ rest) = some n := by
  have hends : ∀ c ∈ wordEnds, decide (c = '#') = false := forall_mem_of_all (by decide)
  have hle := (List.takeWhile_prefix (l := cs) (· = '#')).length_le
  have hlen := List.length_drop (i := (cs.takeWhile (· = '#')).length) (l := cs)
  unfold rawAt at h
  dsimp only at h
  split at h
  · rename_i body hbody
    rw [hbody, List.length_cons] at hlen
    split at h
    · cases h
    · rename_i hsigns
      obtain ⟨m, hm, rfl⟩ := Option.map_eq_some_iff.1 h
      obtain ⟨hbound, hall⟩ := rawBody_append hm
      refine ⟨by omega, fun {rest} hrest => ?_⟩
      unfold rawAt
      rw [hrest.takeWhile_append hends]
      dsimp only
      rw [List.drop_append_of_le_length hle, hbody, List.cons_append]
      refine (if_neg hsigns).trans ?_
      rw [hall hrest]
      rfl
  · cases h

theorem charBody_append {content : Content} {n : Nat} {cs : List Char}
    (h : charBody content cs = some n) :
    n ≤ cs.length ∧ ∀ rest, charBody content (cs ++ rest) = some n := by
  unfold charBody at h
  split at h
  · rename_i cs
    split at h
    · rename_i k hk
      split at h
      · rename_i hquote
        cases h
        have hlt : k < cs.length := by
          rw [List.head?_drop] at hquote
          exact (List.getElem?_eq_some_iff.1 hquote).1
        refine ⟨by rw [List.length_cons]; omega, fun rest => ?_⟩
        rw [List.cons_append, charBody, escapeAt_append hk]
        dsimp only
        rw [List.drop_append_of_le_length (Nat.le_of_lt hlt), if_pos]
        rw [List.head?_append, hquote]
        rfl
      · cases h
    · cases h
  · split at h
    · rename_i hadmits
      cases h
      exact ⟨by simp, fun rest => by simp [charBody, hadmits]⟩
    · cases h
  · cases h

/-- A quoted literal ends where it did. -/
theorem quotedAt_append {n : Nat} {cs : List Char} (h : quotedAt cs = some n) :
    n ≤ cs.length ∧ ∀ {rest : List Char}, Apart rest → quotedAt (cs ++ rest) = some n := by
  -- what follows the literal does not change its suffix either
  have hsuffix : ∀ {m k : Nat} (front body : List Char), cs = front ++ body →
      m = front.length + k → k ≤ body.length →
      (∀ {rest : List Char}, Apart rest → quotedAt (front ++ (body ++ rest)) =
        some (front.length + k + suffixLength ((cs ++ rest).drop (front.length + k)))) →
      m + suffixLength (cs.drop m) ≤ cs.length ∧ ∀ {rest : List Char}, Apart rest →
        quotedAt (cs ++ rest) = some (m + suffixLength (cs.drop m)) := by
    rintro m k front body rfl rfl hk hread
    have hle := suffixLength_le ((front ++ body).drop (front.length + k))
    rw [List.length_drop, List.length_append] at hle
    refine ⟨by rw [List.length_append]; omega, fun {rest} hrest => ?_⟩
    rw [List.append_assoc, hread hrest,
      List.drop_append_of_le_length (by rw [List.length_append]; omega), suffixLength_append hrest]
  unfold quotedAt at h
  dsimp only at h
  obtain ⟨m, hm, rfl⟩ := Option.map_eq_some_iff.1 h
  split at hm
  · obtain ⟨k, hk, rfl⟩ := Option.map_eq_some_iff.1 hm
    obtain ⟨hle, hall⟩ := stringBody_append hk
    exact hsuffix ['"'] _ rfl rfl (by omega) fun hrest => by simp [quotedAt, hall]
  · obtain ⟨k, hk, rfl⟩ := Option.map_eq_some_iff.1 hm
    obtain ⟨hle, hall⟩ := rawAt_append hk
    exact hsuffix ['r'] _ rfl rfl hle fun hrest => by simp [quotedAt, hall hrest]
  · obtain ⟨k, hk, rfl⟩ := Option.map_eq_some_iff.1 hm
    obtain ⟨hle, hall⟩ := stringBody_append hk
    exact hsuffix ['b', '"'] _ rfl rfl (by omega) fun hrest => by simp [quotedAt, hall]
  · obtain ⟨k, hk, rfl⟩ := Option.map_eq_some_iff.1 hm
    obtain ⟨hle, hall⟩ := rawAt_append hk
    exact hsuffix ['b', 'r'] _ rfl rfl hle fun hrest => by simp [quotedAt, hall hrest]
  · obtain ⟨k, hk, rfl⟩ := Option.map_eq_some_iff.1 hm
    obtain ⟨hle, hall⟩ := charBody_append hk
    exact hsuffix ['b', '\''] _ rfl rfl hle fun hrest => by simp [quotedAt, hall]
  · obtain ⟨k, hk, rfl⟩ := Option.map_eq_some_iff.1 hm
    obtain ⟨hle, hall⟩ := stringBody_append hk
    exact hsuffix ['c', '"'] _ rfl rfl (by omega) fun hrest => by simp [quotedAt, hall]
  · obtain ⟨k, hk, rfl⟩ := Option.map_eq_some_iff.1 hm
    obtain ⟨hle, hall⟩ := rawAt_append hk
    exact hsuffix ['c', 'r'] _ rfl rfl hle fun hrest => by simp [quotedAt, hall hrest]
  · obtain ⟨k, hk, rfl⟩ := Option.map_eq_some_iff.1 hm
    obtain ⟨hle, hall⟩ := charBody_append hk
    exact hsuffix ['\''] _ rfl rfl hle fun hrest => by simp [quotedAt, hall]
  · cases hm

end Literal

end ReaderGen
