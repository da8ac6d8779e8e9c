import ReaderGen.Proofs.Excerpt
import ReaderGen.Proofs.Offsets

/-!
# Where tokens end

A carriage return at the end of a line is not part of the line, so a place directly after one is shown
too early. No token ends there: numbers and names hold no carriage return, what is quoted ends with its
quote or number signs, and a comment that documents something must not have a carriage return left over.

* `ReturnFree`, `EndsIn`, `EndsShown`: what the first characters of a text are like.
* `Literal.returnFree_of_intAt`, `Literal.returnFree_of_floatAt`, `Literal.endsShown_of_quotedAt`,
  `Scanner.endsShown_of_commentAt`: how each kind of token ends.
* `Scanner.endsShown_of_munch`: no token ends in a carriage return.
* `Scanner.visible_of_scan`: the places that the scanner finds have the offsets they should.
-/

namespace ReaderGen

open Text Source

/-! ## The first characters of a text -/

/-- The first `n` characters hold no carriage return. -/
def ReturnFree (cs : List Char) (n : Nat) : Prop := '\r' ∉ cs.take n

/-- The last of the first `n` characters. -/
def EndsIn (d : Char) (cs : List Char) (n : Nat) : Prop := (cs.take n).getLast? = some d

/-- The first `n` characters do not end in a carriage return. -/
def EndsShown (cs : List Char) (n : Nat) : Prop := (cs.take n).getLast? ≠ some '\r'

namespace ReturnFree

theorem zero (cs : List Char) : ReturnFree cs 0 := by simp [ReturnFree]

theorem succ {c : Char} {cs : List Char} {n : Nat} (hc : c ≠ '\r') (h : ReturnFree cs n) :
    ReturnFree (c :: cs) (n + 1) := by
  simp only [ReturnFree, List.take_succ_cons, List.mem_cons, not_or]
  exact ⟨Ne.symm hc, h⟩

theorem add {cs : List Char} {m n : Nat} (hm : ReturnFree cs m) (hn : ReturnFree (cs.drop m) n) :
    ReturnFree cs (m + n) := by
  simp only [ReturnFree, List.take_add, List.mem_append, not_or]
  exact ⟨hm, hn⟩

/-- One more character. -/
theorem next {c : Char} {cs rest : List Char} {n : Nat} (h : ReturnFree cs n)
    (hrest : cs.drop n = c :: rest) (hc : c ≠ '\r') :
    ReturnFree cs (n + 1) ∧ cs.drop (n + 1) = rest := by
  constructor
  · refine h.add ?_
    rw [hrest]
    exact succ hc (zero rest)
  · rw [← List.drop_drop, hrest]
    rfl

theorem takeWhile {p : Char → Bool} (hp : p '\r' = false) (cs : List Char) :
    ReturnFree cs (cs.takeWhile p).length := by
  induction cs with
  | nil => simp [ReturnFree]
  | cons c cs ih =>
    rw [List.takeWhile_cons]
    split
    · rename_i hc
      refine succ ?_ ih
      rintro rfl
      rw [hp] at hc
      cases hc
    · exact zero _

theorem endsShown {cs : List Char} {n : Nat} (h : ReturnFree cs n) : EndsShown cs n :=
  fun hlast => h (List.mem_of_getLast? hlast)

end ReturnFree

namespace EndsIn

theorem succ {d : Char} {cs : List Char} {n : Nat} (h : EndsIn d cs n) (c : Char) :
    EndsIn d (c :: cs) (n + 1) := by
  unfold EndsIn at h ⊢
  rw [List.take_succ_cons, List.getLast?_cons, h]
  rfl

theorem of_drop {d : Char} {cs : List Char} {m n : Nat} (h : EndsIn d (cs.drop m) n) :
    EndsIn d cs (m + n) := by
  unfold EndsIn at h ⊢
  rw [List.take_add, List.getLast?_append, h]
  rfl

theorem endsShown {d : Char} {cs : List Char} {n : Nat} (h : EndsIn d cs n) (hd : d ≠ '\r') :
    EndsShown cs n := by
  unfold EndsIn at h
  rw [EndsShown, h]
  simpa using hd

end EndsIn

theorem EndsShown.add {cs : List Char} {m n : Nat} (hm : EndsShown cs m)
    (hn : EndsShown (cs.drop m) n) : EndsShown cs (m + n) := by
  unfold EndsShown at hm hn ⊢
  rw [List.take_add, List.getLast?_append]
  cases hlast : ((cs.drop m).take n).getLast? with
  | none => exact hm
  | some d =>
    rw [hlast] at hn
    exact hn

/-! ## Numbers -/

namespace Literal

theorem returnFree_suffix (cs : List Char) : ReturnFree cs (suffixLength cs) := by
  have hreturn : isIdentifierStart '\r' = false ∧ isIdentifierPart '\r' = false := by decide
  rw [suffixLength]
  cases cs with
  | nil => exact ReturnFree.zero _
  | cons c cs =>
    rw [identifierAt]
    by_cases hc : isIdentifierStart c = true
    · rw [if_pos hc]
      refine ReturnFree.succ ?_ (ReturnFree.takeWhile hreturn.2 cs)
      rintro rfl
      rw [hreturn.1] at hc
      cases hc
    · rw [if_neg hc]
      exact ReturnFree.zero _

theorem returnFree_of_withSuffix {n m : Nat} {cs : List Char} (hn : ReturnFree cs n)
    (h : withSuffix n cs = some m) : ReturnFree cs m := by
  rw [eq_of_withSuffix h]
  exact hn.add (returnFree_suffix _)

theorem returnFree_of_digitsAt {base : Nat} {value : Option Nat} {k v m : Nat} {cs : List Char}
    (h : digitsAt base value k cs = some (v, m)) : ∃ n, m = k + n ∧ ReturnFree cs n := by
  induction cs generalizing value k with
  | nil =>
    obtain ⟨w, -, hw⟩ := Option.map_eq_some_iff.1 h
    cases hw
    exact ⟨0, rfl, ReturnFree.zero _⟩
  | cons c cs ih =>
    have hstop : ∀ {value : Option Nat}, value.map (·, k) = some (v, m) →
        ∃ n, m = k + n ∧ ReturnFree (c :: cs) n := by
      intro value h
      obtain ⟨w, -, hw⟩ := Option.map_eq_some_iff.1 h
      cases hw
      exact ⟨0, rfl, ReturnFree.zero _⟩
    have hgo : ∀ {value : Option Nat}, c ≠ '\r' → digitsAt base value (k + 1) cs = some (v, m) →
        ∃ n, m = k + n ∧ ReturnFree (c :: cs) n := by
      intro value hc h
      obtain ⟨n, hm, hn⟩ := ih h
      exact ⟨n + 1, by omega, hn.succ hc⟩
    have hreturn : digitValue? '\r' = none := by decide
    rw [digitsAt] at h
    split at h
    · rename_i hc
      split at h
      · cases h
      · exact hgo (by rw [hc]; decide) h
    · split at h
      · exact hstop h
      · rename_i d hd
        split at h
        · refine hgo ?_ h
          rintro rfl
          rw [hreturn] at hd
          cases hd
        · split at h
          · cases h
          · exact hstop h

theorem returnFree_of_exponentAt {signed valued : Bool} {k m : Nat} {cs : List Char}
    (h : exponentAt signed valued k cs = some m) : ∃ n, m = k + n ∧ ReturnFree cs n := by
  induction cs generalizing signed valued k with
  | nil =>
    rw [exponentAt] at h
    split at h
    · cases h; exact ⟨0, rfl, ReturnFree.zero _⟩
    · cases h
  | cons c cs ih =>
    have hgo : ∀ {signed valued : Bool}, c ≠ '\r' → exponentAt signed valued (k + 1) cs = some m →
        ∃ n, m = k + n ∧ ReturnFree (c :: cs) n := by
      intro signed valued hc h
      obtain ⟨n, hm, hn⟩ := ih h
      exact ⟨n + 1, by omega, hn.succ hc⟩
    have hstop : some k = some m → ∃ n, m = k + n ∧ ReturnFree (c :: cs) n := by
      intro h
      cases h
      exact ⟨0, rfl, ReturnFree.zero _⟩
    -- a carriage return is no sign, no digit and no underscore
    by_cases hc : c = '\r'
    · subst hc
      rw [exponentAt, if_neg (by decide), if_neg (by decide), if_neg (by decide)] at h
      split at h
      · exact hstop h
      · cases h
    · rw [exponentAt] at h
      split at h
      · split at h
        · exact hstop h
        · split at h
          · cases h
          · exact hgo hc h
      · split at h
        · exact hgo hc h
        · split at h
          · exact hgo hc h
          · split at h
            · exact hstop h
            · cases h

theorem returnFree_of_intAt {cs : List Char} {value n : Nat} (h : intAt cs = some (value, n)) :
    ReturnFree cs n := by
  have hbase : ReturnFree cs (baseAt cs).2 := by
    unfold baseAt
    split <;> simp [ReturnFree]
  unfold intAt at h
  generalize baseAt cs = announced at hbase h
  obtain ⟨base, k⟩ := announced
  dsimp only at hbase h
  split at h
  · cases h
  · rename_i v m hd
    obtain ⟨j, rfl, hj⟩ := returnFree_of_digitsAt hd
    obtain ⟨total, htotal, heq⟩ := Option.map_eq_some_iff.1 h
    cases heq
    rw [Nat.zero_add] at htotal
    exact returnFree_of_withSuffix (hbase.add hj) htotal

theorem returnFree_fraction {cs after : List Char} {whole : Nat} (hwhole : ReturnFree cs whole)
    (hafter : cs.drop whole = '.' :: after) : ReturnFree cs (fractionAt.fraction whole after) := by
  obtain ⟨hpoint, hdrop⟩ := hwhole.next hafter (by decide)
  have hlength : ReturnFree cs (whole + 1 + (after.takeWhile isDigitOrUnderscore).length) := by
    refine hpoint.add ?_
    rw [hdrop]
    exact ReturnFree.takeWhile (by decide) after
  unfold fractionAt.fraction
  dsimp only
  split
  · rename_i d rest hrest
    split
    · rename_i hd
      split
      · rename_i n hn
        obtain ⟨j, rfl, hj⟩ := returnFree_of_exponentAt hn
        have hreturn : d ≠ '\r' := by
          rintro rfl
          exact absurd hd (by decide)
        obtain ⟨hletter, hdrop'⟩ := hlength.next (by rw [← List.drop_drop, hdrop, hrest]) hreturn
        rw [Nat.zero_add]
        refine hletter.add ?_
        rw [hdrop']
        exact hj
      · exact hlength
    · exact hlength
  · exact hlength

theorem returnFree_of_fractionAt {cs : List Char} {n : Nat} (h : fractionAt cs = some n) :
    ReturnFree cs n := by
  cases cs with
  | nil => cases h
  | cons c cs =>
    rw [fractionAt] at h
    split at h
    · cases h
    rename_i hdigit
    have hc : c ≠ '\r' := by
      rintro rfl
      exact hdigit (by decide)
    have hwhole : ReturnFree (c :: cs) (1 + (cs.takeWhile isDigitOrUnderscore).length) := by
      rw [Nat.add_comm]
      exact (ReturnFree.takeWhile (by decide) cs).succ hc
    dsimp only at h
    split at h
    · rename_i after hafter
      split at h
      · split at h
        · cases h
        · cases h
          exact returnFree_fraction hwhole hafter
      · cases h
        exact (hwhole.next hafter (by decide)).1
    · rename_i d after _ hafter
      split at h
      · rename_i hd
        have hreturn : d ≠ '\r' := by
          rintro rfl
          exact absurd hd (by decide)
        obtain ⟨k, hk, rfl⟩ := Option.map_eq_some_iff.1 h
        obtain ⟨j, rfl, hj⟩ := returnFree_of_exponentAt hk
        obtain ⟨hletter, hdrop⟩ := hwhole.next hafter hreturn
        rw [Nat.zero_add]
        refine hletter.add ?_
        rw [hdrop]
        exact hj
      · cases h
    · cases h

theorem returnFree_of_floatAt {cs : List Char} {n : Nat} (h : floatAt cs = some n) :
    ReturnFree cs n := by
  obtain ⟨m, hm, h⟩ := Option.bind_eq_some_iff.1 h
  exact returnFree_of_withSuffix (returnFree_of_fractionAt hm) h

/-! ## Characters and strings -/

theorem endsIn_of_stringBody {content : Content} {skip k m : Nat} {cs : List Char}
    (h : stringBody content skip k cs = some m) : ∃ n, m = k + n ∧ EndsIn '"' cs n := by
  induction cs generalizing skip k with
  | nil => cases h
  | cons c cs ih =>
    have hgo : ∀ {skip : Nat}, stringBody content skip (k + 1) cs = some m →
        ∃ n, m = k + n ∧ EndsIn '"' (c :: cs) n := by
      intro skip h
      obtain ⟨n, hm, hn⟩ := ih h
      exact ⟨n + 1, by omega, hn.succ c⟩
    cases skip with
    | succ skip => exact hgo h
    | zero =>
      unfold stringBody at h
      dsimp only at h
      split at h
      · rename_i hquote
        cases h
        exact ⟨1, rfl, by simp [EndsIn, hquote]⟩
      · split at h
        · split at h
          · exact hgo h
          · cases h
        · split at h
          · split at h
            · exact hgo h
            · exact hgo h
            · split at h
              · exact hgo h
              · cases h
          · split at h
            · exact hgo h
            · cases h

theorem endsIn_of_rawBody {content : Content} {signs k m : Nat} {cs : List Char}
    (h : rawBody content signs k cs = some m) :
    ∃ n, m = k + n ∧ ∃ d, d ≠ '\r' ∧ EndsIn d cs n := by
  induction cs generalizing k with
  | nil => cases h
  | cons c cs ih =>
    rw [rawBody] at h
    split at h
    · rename_i hquote
      cases h
      simp only [Bool.and_eq_true, decide_eq_true_eq, List.all_eq_true] at hquote
      obtain ⟨⟨rfl, -⟩, hsigns⟩ := hquote
      refine ⟨signs + 1, by omega, ?_⟩
      -- without number signs the quote itself comes last
      cases hlast : (cs.take signs).getLast? with
      | none => exact ⟨'"', by decide, by simp [EndsIn, List.getLast?_cons, hlast]⟩
      | some d =>
        obtain rfl := hsigns d (List.mem_of_getLast? hlast)
        exact ⟨'#', by decide, EndsIn.succ hlast '"'⟩
    · split at h
      · cases h
      · split at h
        · obtain ⟨n, hm, d, hd, hn⟩ := ih h
          exact ⟨n + 1, by omega, d, hd, hn.succ c⟩
        · cases h

theorem endsIn_of_rawAt {content : Content} {n : Nat} {cs : List Char}
    (h : rawAt content cs = some n) : ∃ d, d ≠ '\r' ∧ EndsIn d cs n := by
  unfold rawAt at h
  dsimp only at h
  split at h
  · rename_i body hbody
    split at h
    · cases h
    · obtain ⟨m, hm, rfl⟩ := Option.map_eq_some_iff.1 h
      obtain ⟨j, rfl, d, hd, hj⟩ := endsIn_of_rawBody hm
      refine ⟨d, hd, ?_⟩
      rw [Nat.zero_add, Nat.add_assoc _ 1 j]
      apply EndsIn.of_drop
      rw [hbody, Nat.add_comm]
      exact hj.succ '"'
  · cases h

theorem endsIn_of_charBody {content : Content} {n : Nat} {cs : List Char}
    (h : charBody content cs = some n) : EndsIn '\'' cs n := by
  unfold charBody at h
  split at h
  · rename_i cs
    split at h
    · rename_i m hm
      split at h
      · rename_i hquote
        cases h
        refine EndsIn.succ (n := m + 1) (EndsIn.of_drop ?_) '\\'
        obtain ⟨tail, htail⟩ := List.head?_eq_some_iff.1 hquote
        rw [htail]
        rfl
      · cases h
    · cases h
  · split at h
    · cases h
      rfl
    · cases h
  · cases h

theorem endsShown_of_quotedAt {n : Nat} {cs : List Char} (h : quotedAt cs = some n) :
    EndsShown cs n := by
  unfold quotedAt at h
  dsimp only at h
  obtain ⟨m, hm, rfl⟩ := Option.map_eq_some_iff.1 h
  refine EndsShown.add ?_ (returnFree_suffix _).endsShown
  have hstring : ∀ {content : Content} {front : Nat} {body : List Char}, cs.drop front = body →
      (stringBody content 0 0 body).map (front + ·) = some m → EndsShown cs m := by
    rintro content front body rfl hm
    obtain ⟨k, hk, rfl⟩ := Option.map_eq_some_iff.1 hm
    obtain ⟨j, rfl, hj⟩ := endsIn_of_stringBody hk
    rw [Nat.zero_add]
    exact hj.of_drop.endsShown (by decide)
  have hraw : ∀ {content : Content} {front : Nat} {body : List Char}, cs.drop front = body →
      (rawAt content body).map (front + ·) = some m → EndsShown cs m := by
    rintro content front body rfl hm
    obtain ⟨k, hk, rfl⟩ := Option.map_eq_some_iff.1 hm
    obtain ⟨d, hd, hj⟩ := endsIn_of_rawAt hk
    exact hj.of_drop.endsShown hd
  have hchar : ∀ {content : Content} {front : Nat} {body : List Char}, cs.drop front = body →
      (charBody content body).map (front + ·) = some m → EndsShown cs m := by
    rintro content front body rfl hm
    obtain ⟨k, hk, rfl⟩ := Option.map_eq_some_iff.1 hm
    exact (endsIn_of_charBody hk).of_drop.endsShown (by decide)
  split at hm
  · exact hstring rfl hm
  · exact hraw rfl hm
  · exact hstring rfl hm
  · exact hraw rfl hm
  · exact hchar rfl hm
  · exact hstring rfl hm
  · exact hraw rfl hm
  · exact hchar rfl hm
  · cases hm

end Literal

/-! ## Comments -/

namespace Scanner

theorem endsIn_of_commentBody {depth k m : Nat} {skip : Bool} {cs : List Char}
    (h : commentBody depth k skip cs = some m) : ∃ n, m = k + n ∧ EndsIn '/' cs n := by
  induction cs generalizing depth k skip with
  | nil => cases h
  | cons c cs ih =>
    have hgo : ∀ {depth : Nat} {skip : Bool}, commentBody depth (k + 1) skip cs = some m →
        ∃ n, m = k + n ∧ EndsIn '/' (c :: cs) n := by
      intro depth skip h
      obtain ⟨n, hm, hn⟩ := ih h
      exact ⟨n + 1, by omega, hn.succ c⟩
    rw [commentBody] at h
    split at h
    · exact hgo h
    · split at h
      · exact hgo h
      · split at h
        · rename_i hmark
          split at h
          · cases h
            simp only [Bool.and_eq_true, decide_eq_true_eq] at hmark
            obtain ⟨tail, rfl⟩ := List.head?_eq_some_iff.1 hmark.2
            exact ⟨2, rfl, rfl⟩
          · exact hgo h
        · exact hgo h

theorem getLast?_of_returnsPaired {cs : List Char} (h : returnsPaired cs = true) :
    cs.getLast? ≠ some '\r' := by
  induction cs with
  | nil => simp
  | cons c cs ih =>
    rw [returnsPaired, Bool.and_eq_true] at h
    cases cs with
    | nil => simpa using h.1
    | cons d ds =>
      rw [List.getLast?_cons_cons]
      exact ih h.2

theorem of_documenting {inner : Bool} {tail n : Nat} {length : Option Nat} {cs : List Char}
    {tokens : List Token} (h : documenting inner tail length cs = some (tokens, n)) :
    length = some n ∧ returnsPaired ((cs.drop 3).take (n - 3 - tail)) = true := by
  unfold documenting at h
  split at h
  · cases h
  · dsimp only at h
    split at h
    · rename_i hpaired
      cases h
      exact ⟨rfl, hpaired⟩
    · cases h

/-- A comment that stands for tokens does not end in a carriage return. -/
theorem endsShown_of_commentAt {cs : List Char} {tokens : List Token} {n : Nat}
    (h : commentAt cs = some (tokens, n)) (ht : tokens ≠ []) : EndsShown cs n := by
  have hline : ∀ {inner : Bool} {k : Nat}, EndsShown cs 3 →
      documenting inner 0 (some (3 + k)) cs = some (tokens, n) → EndsShown cs n := by
    intro inner k hmark h
    obtain ⟨hn, hpaired⟩ := of_documenting h
    cases hn
    refine hmark.add ?_
    rw [Nat.sub_zero, Nat.add_sub_cancel_left] at hpaired
    exact getLast?_of_returnsPaired hpaired
  have hblock : ∀ {inner : Bool}, documenting inner 2 (commentBody 0 0 false cs) cs = some (tokens, n) →
      EndsShown cs n := by
    intro inner h
    obtain ⟨j, rfl, hj⟩ := endsIn_of_commentBody (of_documenting h).1
    rw [Nat.zero_add]
    exact hj.endsShown (by decide)
  have hskip : ∀ {length : Option Nat}, length.map (([] : List Token), ·) = some (tokens, n) →
      EndsShown cs n := by
    intro length h
    obtain ⟨k, -, hk⟩ := Option.map_eq_some_iff.1 h
    exact absurd (Prod.mk.inj hk).1.symm ht
  unfold commentAt at h
  split at h
  · exact hline (by simp [EndsShown]) h
  · cases h; exact absurd rfl ht
  · exact hline (by simp [EndsShown]) h
  · cases h; exact absurd rfl ht
  · cases h; exact absurd rfl ht
  · exact hblock h
  · exact hskip h
  · exact hblock h
  · exact hskip h
  · cases h

/-! ## Tokens -/

/-- No token ends in a carriage return. -/
theorem endsShown_of_munch {c : Char} {cs : List Char} {tokens : List Token} {n : Nat}
    (h : munch (c :: cs) = some (tokens, n)) (ht : tokens ≠ []) :
    isBlank c = false ∧ EndsShown (c :: cs) n := by
  have hreturn : isBlank '\r' = true := by decide
  rw [munch] at h
  by_cases hblank : isBlank c = true
  · rw [if_pos hblank] at h
    cases h
    exact absurd rfl ht
  rw [if_neg hblank] at h
  refine ⟨by simpa using hblank, ?_⟩
  cases hc : commentAt (c :: cs) with
  | some found =>
    rw [hc] at h
    cases h
    exact endsShown_of_commentAt hc ht
  | none =>
    rw [hc] at h
    cases hl : munch.literal (c :: cs) with
    | some found =>
      rw [hl] at h
      cases h
      unfold munch.literal at hl
      split at hl
      · rename_i m hm
        cases hl
        cases hq : Literal.quotedAt (c :: cs) with
        | some k =>
          rw [hq] at hm
          cases hm
          exact Literal.endsShown_of_quotedAt hq
        | none =>
          rw [hq] at hm
          exact (Literal.returnFree_of_floatAt hm).endsShown
      · obtain ⟨⟨value, k⟩, hk, heq⟩ := Option.map_eq_some_iff.1 hl
        cases heq
        exact (Literal.returnFree_of_intAt hk).endsShown
    | none =>
      rw [hl] at h
      cases hp : punctAt (c :: cs) with
      | some t =>
        rw [hp] at h
        cases h
        refine ReturnFree.endsShown ((ReturnFree.zero cs).succ ?_)
        rintro rfl
        exact hblank hreturn
      | none =>
        rw [hp] at h
        obtain ⟨name, hname, heq⟩ := Option.map_eq_some_iff.1 h
        cases heq
        obtain ⟨tail, htail⟩ := prefix_of_identAt hname
        have hparts := part_of_identAt hname
        have hfree : ReturnFree (c :: cs) name.length := by
          rw [htail, ReturnFree, List.take_left]
          exact fun hmem => absurd (hparts '\r' hmem) (by decide)
        exact hfree.endsShown

/-! ## Places -/

theorem visible_zero (text : List Char) : Visible text 0 := .inl (by simp)

/-- The end of something that begins with a shown character and does not end in a carriage return. -/
theorem visible_add {text cs : List Char} {pos n : Nat} {c : Char} (hdrop : text.drop pos = c :: cs)
    (hcr : c ≠ '\r') (hlf : c ≠ '\n') (h : EndsShown (c :: cs) n) : Visible text (pos + n) := by
  cases n with
  | zero => exact .inr ⟨c, by rw [Nat.add_zero, hdrop]; rfl, hcr, hlf⟩
  | succ n =>
    refine .inl ?_
    rw [List.take_add, hdrop, List.getLast?_append]
    unfold EndsShown at h
    cases hlast : ((c :: cs).take (n + 1)).getLast? with
    | none => simp at hlast
    | some d =>
      rw [hlast] at h
      exact h

/-- The places of a result of the scanner: where its lexemes end, or what it could not read. -/
def AllVisible (text : List Char) : Except Nat (List Lexeme) → Prop
  | .ok lexemes => ∀ l ∈ lexemes, Visible text l.stop
  | .error p => Visible text p

theorem AllVisible.bind {text : List Char} {r : Except Nat (List Lexeme)} (h : AllVisible text r)
    {first : List Lexeme} (hfirst : ∀ l ∈ first, Visible text l.stop) :
    AllVisible text (r >>= fun rest => .ok (first ++ rest)) := by
  cases r with
  | error p => exact h
  | ok rest =>
    intro l hl
    rcases List.mem_append.1 hl with hl | hl
    · exact hfirst l hl
    · exact h l hl

theorem shown_of_not_blank {c : Char} (h : isBlank c = false) : c ≠ '\r' ∧ c ≠ '\n' := by
  have hblank : isBlank '\r' = true ∧ isBlank '\n' = true := by decide
  constructor
  · rintro rfl
    rw [hblank.1] at h
    cases h
  · rintro rfl
    rw [hblank.2] at h
    cases h

theorem shown_of_bracket {c : Char} {b : Bracket}
    (h : Bracket.ofOpening? c = some b ∨ Bracket.ofClosing? c = some b) : c ≠ '\r' ∧ c ≠ '\n' := by
  constructor
  · rintro rfl
    rcases h with h | h <;> cases h
  · rintro rfl
    rcases h with h | h <;> cases h

theorem visible_of_scanFrom {text : List Char} : ∀ {cs : List Char} {skip pos : Nat}
    {stack : List (Bracket × Nat)}, text.drop pos = cs → (∀ e ∈ stack, Visible text e.2) →
    AllVisible text (scanFrom skip pos stack cs) := by
  intro cs
  induction cs with
  | nil =>
    intro skip pos stack _ hstack
    unfold scanFrom
    cases stack with
    | nil => intro l hl; cases hl
    | cons e stack => exact hstack e (.head _)
  | cons c cs ih =>
    intro skip pos stack hdrop hstack
    have hnext : text.drop (pos + 1) = cs := by rw [← List.drop_drop, hdrop]; rfl
    have hone : ∀ {token : Token}, c ≠ '\r' ∧ c ≠ '\n' →
        ∀ l ∈ [(⟨token, pos, pos + 1⟩ : Lexeme)], Visible text l.stop := by
      intro token hc l hl
      rw [List.mem_singleton.1 hl]
      exact visible_add hdrop hc.1 hc.2 ((ReturnFree.zero cs).succ hc.1).endsShown
    have hhere : c ≠ '\r' ∧ c ≠ '\n' → Visible text pos :=
      fun hc => .inr ⟨c, by rw [hdrop]; rfl, hc⟩
    cases skip with
    | succ k => exact ih hnext hstack
    | zero =>
      unfold scanFrom
      dsimp only
      cases hopen : Bracket.ofOpening? c with
      | some b =>
        have hc := shown_of_bracket (.inl hopen)
        exact (ih hnext (List.forall_mem_cons.2 ⟨hhere hc, hstack⟩)).bind (hone hc)
      | none =>
        cases hclose : Bracket.ofClosing? c with
        | some b =>
          have hc := shown_of_bracket (.inr hclose)
          dsimp only
          cases stack with
          | nil => exact hhere hc
          | cons top outer =>
            dsimp only
            split
            · exact (ih hnext fun e he => hstack e (.tail _ he)).bind (hone hc)
            · exact hhere hc
        | none =>
          dsimp only
          cases hm : munch (c :: cs) with
          | none =>
            cases hblank : isBlank c with
            | false => exact hhere (shown_of_not_blank hblank)
            | true =>
              rw [munch, if_pos hblank] at hm
              cases hm
          | some found =>
            obtain ⟨tokens, n⟩ := found
            refine (ih hnext hstack).bind ?_
            intro l hl
            obtain ⟨t, ht, rfl⟩ := List.mem_map.1 hl
            obtain ⟨hblank, hends⟩ := endsShown_of_munch hm (List.ne_nil_of_mem ht)
            obtain ⟨hcr, hlf⟩ := shown_of_not_blank hblank
            exact visible_add hdrop hcr hlf hends

theorem visible_of_scan (source : String) : AllVisible source.toList (scan source) := by
  rw [scan]
  split
  · rename_i cs hcs
    rw [hcs]
    exact visible_of_scanFrom rfl (by simp)
  · exact visible_of_scanFrom rfl (by simp)

end Scanner

end ReaderGen
