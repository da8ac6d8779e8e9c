import ReaderGen.Proofs.Bracketing

/-!
# Writing an expression so that it is read back

`Expr.spelled` writes a tree as text: a space on either side of an operator between two operands, none
elsewhere. The scanner splits that text into the tokens of the tree, so a tree that has its brackets
is read back from its spelling.

* `Scanner.munch_word`, `Scanner.munch_int`: a word or a number is one token when something stands
  after it that cannot belong to it.
* `Scanner.scans_spelled`: the scanner finds the tokens of the tree.
* `Expr.parse_spelled`: the text is read as the tree.
-/

namespace ReaderGen

open Text

/-! ## Characters -/

namespace Scanner

theorem start_ne {c m : Char} (h : isIdentifierStart c = true) (hm : isIdentifierStart m = false) :
    c ≠ m := by
  rintro rfl
  rw [hm] at h
  cases h

theorem code_of_start {c : Char} (h : isIdentifierStart c = true) :
    ¬(0x09 ≤ c.toNat ∧ c.toNat ≤ 0x0d) ∧ ¬(0x30 ≤ c.toNat ∧ c.toNat ≤ 0x39) := by
  by_cases hc : c.toNat < 0x80
  · have hletter : (decide (c.val ≥ 65 ∧ c.val ≤ 90) ||
        (decide (c.val ≥ 97) && decide (c.val ≤ 122)) || decide (c = '_')) = true := by
      rw [isIdentifierStart, if_pos hc] at h
      exact h
    simp only [Bool.or_eq_true, Bool.and_eq_true, decide_eq_true_eq, ge_iff_le,
      UInt32.le_iff_toNat_le] at hletter
    rcases hletter with (hletter | hletter) | rfl
    · change 65 ≤ c.toNat ∧ c.toNat ≤ 90 at hletter
      omega
    · change 97 ≤ c.toNat ∧ c.toNat ≤ 122 at hletter
      omega
    · decide
  · omega

theorem isBlank_of_start {c : Char} (h : isIdentifierStart c = true) : isBlank c = false := by
  have hcodes : ∀ code ∈ blankCodes, 128 ≤ code ∧ inRanges identifierStartRanges code = false := by
    decide +kernel
  have hspace : c ≠ ' ' := start_ne h (by decide)
  have hcontrol := (code_of_start h).1
  have hcode : c.toNat ∉ blankCodes := by
    intro hmem
    obtain ⟨h128, hr⟩ := hcodes _ hmem
    rw [isIdentifierStart, if_neg (by omega), hr] at h
    cases h
  simp only [isBlank, Bool.or_eq_false_iff, Bool.and_eq_false_iff, decide_eq_false_iff_not,
    List.contains_eq_mem]
  refine ⟨⟨hspace, ?_⟩, hcode⟩
  omega

theorem isDigit_iff {c : Char} : c.isDigit = true ↔ 0x30 ≤ c.toNat ∧ c.toNat ≤ 0x39 := by
  simp only [Char.isDigit, Bool.and_eq_true, decide_eq_true_eq, ge_iff_le, UInt32.le_iff_toNat_le]
  rfl

theorem isDigit_of_start {c : Char} (h : isIdentifierStart c = true) : c.isDigit = false := by
  rw [Bool.eq_false_iff, Ne, isDigit_iff]
  exact (code_of_start h).2

/-! ## Words -/

/-- Characters that end a word and a number. -/
def wordEnds : List Char := [' ', ')', ']', '[', ',', ';']

/-- Nothing stands here, or a character that ends a word and a number. -/
def Apart : List Char → Prop
  | [] => True
  | c :: _ => c ∈ wordEnds

theorem not_part_of_end : ∀ c ∈ wordEnds, isIdentifierPart c = false :=
  forall_mem_of_all (by decide)

/-- What ends at such a character at the latest ends where it would at the end of the text. -/
theorem Apart.takeWhile_append {p : Char → Bool} (hp : ∀ c ∈ wordEnds, p c = false)
    {rest : List Char} (h : Apart rest) (cs : List Char) :
    (cs ++ rest).takeWhile p = cs.takeWhile p := by
  induction cs with
  | nil =>
    cases rest with
    | nil => rfl
    | cons c rest => rw [List.nil_append, List.takeWhile_cons, hp c h]; rfl
  | cons c cs ih => rw [List.cons_append, List.takeWhile_cons, List.takeWhile_cons, ih]

theorem Apart.identifierAt {rest : List Char} (h : Apart rest) : identifierAt rest = none := by
  cases rest with
  | nil => rfl
  | cons c cs =>
    have hstart : ¬isIdentifierStart c = true := fun hc => by
      have hpart := isIdentifierPart_of_start hc
      rw [not_part_of_end c h] at hpart
      cases hpart
    rw [Text.identifierAt, if_neg hstart]

/-- A mark without brackets and blanks that begins a text with an end in it lies before that end. -/
theorem isPrefixOf_apart {mark w rest : List Char} (hm : ∀ c ∈ wordEnds, c ∉ mark)
    (h : Apart rest) (hp : mark.isPrefixOf (w ++ rest) = true) : mark.isPrefixOf w = true := by
  induction w generalizing mark with
  | nil =>
    cases mark with
    | nil => rfl
    | cons m mark =>
      cases rest with
      | nil => simp at hp
      | cons c rest =>
        simp only [List.nil_append, List.isPrefixOf, Bool.and_eq_true, beq_iff_eq] at hp
        exact absurd (hp.1 ▸ List.mem_cons_self) (hm c h)
  | cons a w ih =>
    cases mark with
    | nil => rfl
    | cons m mark =>
      simp only [List.cons_append, List.isPrefixOf, Bool.and_eq_true, beq_iff_eq] at hp ⊢
      exact ⟨hp.1, ih (fun c hc hmem => hm c hc (.tail _ hmem)) hp.2⟩

theorem identifierAt_append {rest : List Char} (h : Apart rest) (cs : List Char) :
    identifierAt (cs ++ rest) = identifierAt cs := by
  cases cs with
  | nil => exact h.identifierAt
  | cons c cs =>
    rw [List.cons_append, identifierAt, identifierAt, h.takeWhile_append not_part_of_end]

theorem nameAt_append {rest : List Char} (h : Apart rest) (cs : List Char) :
    nameAt (cs ++ rest) = nameAt cs := by
  by_cases hraw : ∃ ds, cs = 'r' :: '#' :: ds
  · obtain ⟨ds, rfl⟩ := hraw
    rw [List.cons_append, List.cons_append, nameAt, nameAt, identifierAt_append h]
  · -- what follows does not make a raw name of a plain one, as it does not begin with `#`
    have hlong : ∀ ds, cs ++ rest ≠ 'r' :: '#' :: ds := by
      intro ds hds
      match cs with
      | [] =>
        obtain rfl : rest = 'r' :: '#' :: ds := hds
        have hc : 'r' ∈ wordEnds := h
        exact absurd hc (by decide)
      | [a] =>
        obtain ⟨rfl, rfl⟩ : a = 'r' ∧ rest = '#' :: ds := by simpa using hds
        have hc : '#' ∈ wordEnds := h
        exact absurd hc (by decide)
      | a :: b :: cs =>
        obtain ⟨rfl, rfl, -⟩ : a = 'r' ∧ b = '#' ∧ cs ++ rest = ds := by simpa using hds
        exact hraw ⟨cs, rfl⟩
    rw [nameAt.eq_2 _ hlong, nameAt.eq_2 _ fun ds hds => hraw ⟨ds, hds⟩, identifierAt_append h]

theorem literalMarks_append {rest : List Char} (h : Apart rest) (cs : List Char) :
    literalMarks.any (fun mark => mark.toList.isPrefixOf (cs ++ rest)) =
      literalMarks.any (fun mark => mark.toList.isPrefixOf cs) := by
  have hplain : ∀ mark ∈ literalMarks, wordEnds.all (· ∉ mark.toList) = true := by decide
  rw [Bool.eq_iff_iff, List.any_eq_true, List.any_eq_true]
  refine exists_congr fun mark => and_congr_right fun hmem =>
    ⟨isPrefixOf_apart (forall_mem_of_all (hplain mark hmem)) h, fun hp => ?_⟩
  rw [List.isPrefixOf_iff_prefix] at hp ⊢
  exact hp.trans (List.prefix_append cs rest)

theorem identAt_append {rest : List Char} (h : Apart rest) (cs : List Char) :
    identAt (cs ++ rest) = identAt cs := by
  rw [identAt, identAt, literalMarks_append h, nameAt_append h]

theorem literalMarks_of_identAt {cs w : List Char} (h : identAt cs = some w) :
    literalMarks.any (fun mark => mark.toList.isPrefixOf cs) = false := by
  rw [Bool.eq_false_iff]
  intro hm
  rw [identAt, if_pos hm] at h
  cases h

theorem start_of_nameAt {c : Char} {cs w : List Char} (h : nameAt (c :: cs) = some w) :
    isIdentifierStart c = true := by
  unfold nameAt at h
  split at h
  · rename_i heq
    obtain ⟨rfl, -⟩ : c = 'r' ∧ _ := by simpa using heq
    decide
  · rw [identifierAt] at h
    split at h
    · assumption
    · cases h

/-- A word begins with a character that begins an identifier, also if it is a raw one. -/
theorem start_of_identAt {c : Char} {cs w : List Char} (h : identAt (c :: cs) = some w) :
    isIdentifierStart c = true := by
  unfold identAt at h
  split at h
  · cases h
  · exact start_of_nameAt h

/-- No raw string begins where neither a quote nor two signs do. -/
theorem rawAt_eq_none {content : Literal.Content} {cs : List Char}
    (h : ['"'].isPrefixOf cs = false) (h1 : ['#', '"'].isPrefixOf cs = false)
    (h2 : ['#', '#'].isPrefixOf cs = false) : Literal.rawAt content cs = none := by
  cases cs with
  | nil => rfl
  | cons c cs =>
    by_cases hc : c = '#'
    · subst hc
      cases cs with
      | nil => rfl
      | cons d cs =>
        have hd : d ≠ '#' ∧ d ≠ '"' := by
          constructor
          · rintro rfl; simp at h2
          · rintro rfl; simp at h1
        simp [Literal.rawAt, hd]
    · have hq : c ≠ '"' := by rintro rfl; simp at h
      simp [Literal.rawAt, hc, hq]

theorem rawAt_of_signs {content : Literal.Content} {cs : List Char}
    (h : ['"'].isPrefixOf cs = false) (h1 : ['#'].isPrefixOf cs = false) :
    Literal.rawAt content cs = none := by
  have hlonger : ∀ d, ['#', d].isPrefixOf cs = false := by
    intro d
    cases cs with
    | nil => rfl
    | cons c cs => simp_all [List.isPrefixOf]
  exact rawAt_eq_none h (hlonger _) (hlonger _)

/-- What begins like an identifier, and not like a literal, is no string and no character. -/
theorem quotedAt_of_start {c : Char} {cs : List Char} (hc : isIdentifierStart c = true)
    (hm : literalMarks.any (fun mark => mark.toList.isPrefixOf (c :: cs)) = false) :
    Literal.quotedAt (c :: cs) = none := by
  have hmark : ∀ mark ∈ literalMarks, mark.toList.isPrefixOf (c :: cs) = false := by
    simpa only [List.any_eq_false, Bool.not_eq_true] using hm
  -- each way to begin a quoted literal is a mark, or a quote that begins no identifier
  unfold Literal.quotedAt
  split
  · rename_i heq
    obtain ⟨rfl, -⟩ : c = '"' ∧ _ := by simpa using heq
    exact absurd hc (by decide)
  · rename_i rest heq
    obtain ⟨rfl, rfl⟩ : c = 'r' ∧ cs = rest := by simpa using heq
    have h0 := hmark "r\"" (by decide)
    have h1 := hmark "r#\"" (by decide)
    have h2 := hmark "r##" (by decide)
    rw [rawAt_eq_none h0 h1 h2]
    rfl
  · rename_i heq
    obtain ⟨rfl, rfl⟩ : c = 'b' ∧ cs = _ := by simpa using heq
    exact absurd (hmark "b\"" (by decide)) (by simp)
  · rename_i rest heq
    obtain ⟨rfl, rfl⟩ : c = 'b' ∧ cs = 'r' :: rest := by simpa using heq
    have h0 := hmark "br\"" (by decide)
    have h1 := hmark "br#" (by decide)
    rw [rawAt_of_signs h0 h1]
    rfl
  · rename_i heq
    obtain ⟨rfl, rfl⟩ : c = 'b' ∧ cs = _ := by simpa using heq
    exact absurd (hmark "b'" (by decide)) (by simp)
  · rename_i heq
    obtain ⟨rfl, rfl⟩ : c = 'c' ∧ cs = _ := by simpa using heq
    exact absurd (hmark "c\"" (by decide)) (by simp)
  · rename_i rest heq
    obtain ⟨rfl, rfl⟩ : c = 'c' ∧ cs = 'r' :: rest := by simpa using heq
    have h0 := hmark "cr\"" (by decide)
    have h1 := hmark "cr#" (by decide)
    rw [rawAt_of_signs h0 h1]
    rfl
  · rename_i heq
    obtain ⟨rfl, -⟩ : c = '\'' ∧ _ := by simpa using heq
    exact absurd hc (by decide)
  · rfl

theorem commentAt_of_ne {c : Char} (h : c ≠ '/') (cs : List Char) : commentAt (c :: cs) = none := by
  unfold commentAt
  split <;> first | rfl | (rename_i heq; simp only [List.cons.injEq] at heq; exact absurd heq.1 h)

theorem floatAt_of_not_digit {c : Char} (h : c.isDigit = false) (cs : List Char) :
    Literal.floatAt (c :: cs) = none := by
  simp [Literal.floatAt, Literal.fractionAt, h]

theorem digitValue?_of_isDigit {c : Char} (h : c.isDigit = true) :
    Literal.digitValue? c = some (c.toNat - '0'.toNat) := by
  have hc := isDigit_iff.1 h
  rw [Literal.digitValue?, if_pos]
  simp only [Char.le_def, UInt32.le_iff_toNat_le]
  exact hc

theorem ten_le_digitValue {c : Char} {d : Nat} (h : c.isDigit = false)
    (hd : Literal.digitValue? c = some d) : 10 ≤ d := by
  have hc : ¬('0' ≤ c ∧ c ≤ '9') := by
    simp only [Char.le_def, UInt32.le_iff_toNat_le]
    intro hc
    exact absurd (isDigit_iff.2 hc) (by rw [h]; exact Bool.false_ne_true)
  rw [Literal.digitValue?, if_neg hc] at hd
  split at hd
  · obtain rfl := Option.some.inj hd; omega
  · split at hd
    · obtain rfl := Option.some.inj hd; omega
    · cases hd

theorem intAt_of_not_digit {c : Char} (h : c.isDigit = false) (cs : List Char) :
    Literal.intAt (c :: cs) = none := by
  have hzero : c ≠ '0' := by
    rintro rfl
    cases h
  have hbase : Literal.baseAt (c :: cs) = (10, 0) := by
    unfold Literal.baseAt
    split <;> first
      | rfl
      | (rename_i heq; simp only [List.cons.injEq] at heq; exact absurd heq.1 hzero)
  have hdigits : Literal.digitsAt 10 none 0 (c :: cs) = none := by
    rw [Literal.digitsAt]
    split
    · rfl
    · split
      · rfl
      · rename_i d hd
        have := ten_le_digitValue h hd
        rw [if_neg (by omega), h]
        rfl
  simp [Literal.intAt, hbase, hdigits]

theorem beginsPunct_of_not_mem {c : Char} (h : c ∉ punctuation) (cs : List Char) :
    beginsPunct (c :: cs) = false := by
  unfold beginsPunct
  split
  · rfl
  · rfl
  · rename_i heq
    obtain ⟨rfl, -⟩ : c = _ ∧ _ := by simpa using heq
    simpa using h
  · rfl

theorem punctAt_of_start {c : Char} (h : isIdentifierStart c = true) (cs : List Char) :
    beginsPunct (c :: cs) = false ∧ punctAt (c :: cs) = none := by
  have hstarts : ∀ p ∈ punctuation, isIdentifierStart p = false := forall_mem_of_all (by decide)
  have hp := beginsPunct_of_not_mem (fun hmem => start_ne h (hstarts c hmem) rfl) cs
  exact ⟨hp, by rw [punctAt, hp]; rfl⟩

/-- A word is one token. -/
theorem munch_word {w rest : List Char} (hw : identAt w = some w) (h : Apart rest) :
    ∃ c cs, w = c :: cs ∧ isIdentifierStart c = true ∧
      munch (w ++ rest) = some ([.ident (String.ofList w)], w.length) := by
  cases w with
  | nil => cases hw
  | cons c cs =>
    have hc := start_of_identAt hw
    have hident := (identAt_append h (c :: cs)).trans hw
    have hmarks := literalMarks_of_identAt hident
    refine ⟨c, cs, rfl, hc, ?_⟩
    rw [List.cons_append] at hident hmarks ⊢
    have hslash : c ≠ '/' := start_ne hc (by decide)
    rw [munch, if_neg (by rw [isBlank_of_start hc]; exact Bool.false_ne_true),
      commentAt_of_ne hslash, munch.literal, quotedAt_of_start hc hmarks,
      floatAt_of_not_digit (isDigit_of_start hc), intAt_of_not_digit (isDigit_of_start hc),
      (punctAt_of_start hc _).2, hident]
    rfl

/-! ## Numbers -/

theorem digits_of_nat (n : Nat) : ∃ d ds, (toString n).toList = d :: ds ∧
    (∀ c ∈ d :: ds, c.isDigit = true) ∧ Nat.ofDigitChars 10 (d :: ds) 0 = n := by
  have htext : (toString n).toList = Nat.toDigits 10 n := Nat.toList_repr
  cases hds : Nat.toDigits 10 n with
  | nil => exact absurd hds Nat.toDigits_ne_nil
  | cons d ds =>
    refine ⟨d, ds, htext.trans hds, fun c hc => ?_, ?_⟩
    · rw [← hds] at hc
      exact Nat.isDigit_of_mem_toDigits (by omega) (by omega) hc
    · rw [← hds]
      exact Nat.ofDigitChars_ten_toDigits

theorem digit_ne {c m : Char} (h : c.isDigit = true) (hm : m.isDigit = false) : c ≠ m := by
  rintro rfl
  rw [hm] at h
  cases h

theorem digit_lt_ten {d : Char} (h : d.isDigit = true) : d.toNat - '0'.toNat < 10 := by
  have hnum := isDigit_iff.1 h
  have hzero : '0'.toNat = 48 := rfl
  omega

theorem digitsAt_digits {ds rest : List Char} (hds : ∀ c ∈ ds, c.isDigit = true) (h : Apart rest)
    (value n : Nat) : Literal.digitsAt 10 (some value) n (ds ++ rest) =
      some (Nat.ofDigitChars 10 ds value, n + ds.length) := by
  induction ds generalizing value n with
  | nil =>
    have hends : ∀ c ∈ wordEnds, c ≠ '_' ∧ Literal.digitValue? c = none :=
      forall_mem_of_all (by decide)
    cases rest with
    | nil => rfl
    | cons c rest =>
      obtain ⟨hc, hv⟩ := hends c h
      rw [List.nil_append, Literal.digitsAt, if_neg hc, hv]
      rfl
  | cons d ds ih =>
    have hd := hds d (.head _)
    have hscore : d ≠ '_' := digit_ne hd (by decide)
    rw [List.cons_append, Literal.digitsAt, if_neg hscore, digitValue?_of_isDigit hd]
    dsimp only
    rw [if_pos (digit_lt_ten hd), ih (fun c hc => hds c (.tail _ hc))]
    rw [Nat.ofDigitChars_cons, Option.getD_some, Nat.mul_comm, List.length_cons,
      show n + 1 + ds.length = n + (ds.length + 1) by omega]

theorem baseAt_digits {d : Char} {ds rest : List Char} (hds : ∀ c ∈ ds, c.isDigit = true)
    (h : Apart rest) : Literal.baseAt (d :: (ds ++ rest)) = (10, 0) := by
  have hsecond : ∀ b ∈ ['x', 'o', 'b'], ∀ cs, ds ++ rest ≠ b :: cs := by
    intro b hb cs heq
    cases ds with
    | nil =>
      rw [List.nil_append] at heq
      subst heq
      have hends : ∀ b ∈ ['x', 'o', 'b'], b ∉ wordEnds := forall_mem_of_all (by decide)
      exact hends b hb h
    | cons c ds =>
      obtain ⟨rfl, -⟩ : c = b ∧ _ := by simpa using heq
      have hletters : ∀ b ∈ ['x', 'o', 'b'], b.isDigit = false := forall_mem_of_all (by decide)
      exact digit_ne (hds c (.head _)) (hletters c hb) rfl
  unfold Literal.baseAt
  split
  · rename_i heq
    exact absurd (List.cons.inj heq).2 (hsecond 'x' (by decide) _)
  · rename_i heq
    exact absurd (List.cons.inj heq).2 (hsecond 'o' (by decide) _)
  · rename_i heq
    exact absurd (List.cons.inj heq).2 (hsecond 'b' (by decide) _)
  · rfl

theorem fractionAt_digits {d : Char} {ds rest : List Char} (hd : d.isDigit = true)
    (hds : ∀ c ∈ ds, c.isDigit = true) (h : Apart rest) :
    Literal.fractionAt (d :: (ds ++ rest)) = none := by
  have hends : ∀ c ∈ wordEnds, Literal.isDigitOrUnderscore c = false ∧ c ≠ '.' ∧
      c ≠ 'e' ∧ c ≠ 'E' := forall_mem_of_all (by decide)
  have hrun : (ds ++ rest).takeWhile Literal.isDigitOrUnderscore = ds := by
    rw [List.takeWhile_append_of_pos fun c hc => by simp [Literal.isDigitOrUnderscore, hds c hc]]
    cases rest with
    | nil => simp
    | cons c rest => simp [(hends c h).1]
  have hdrop : (d :: (ds ++ rest)).drop (1 + ds.length) = rest := by
    rw [Nat.add_comm, List.drop_succ_cons, List.drop_left]
  rw [Literal.fractionAt, hd, hrun]
  dsimp only
  rw [hdrop, if_neg (by simp)]
  cases rest with
  | nil => rfl
  | cons c rest =>
    obtain ⟨-, hp, he, hE⟩ := hends c h
    split
    · rename_i heq
      exact absurd (List.cons.inj heq).1 hp
    · rename_i heq
      obtain ⟨rfl, rfl⟩ := List.cons.inj heq
      simp [he, hE]
    · rfl

theorem withSuffix_apart (ds : List Char) {rest : List Char} (h : Apart rest) :
    Literal.withSuffix ds.length (ds ++ rest) = some ds.length := by
  rw [Literal.withSuffix, List.drop_left, Literal.suffixLength, h.identifierAt]
  dsimp only [Nat.add_zero]
  rw [List.drop_left]
  cases rest with
  | nil => rfl
  | cons c rest => simp [not_part_of_end c h]

theorem isBlank_digit {d : Char} (h : d.isDigit = true) : isBlank d = false := by
  have hnum := isDigit_iff.1 h
  have hcodes : ∀ code ∈ blankCodes, 128 ≤ code := by decide
  have hcode : d.toNat ∉ blankCodes := fun hmem => by
    have := hcodes _ hmem
    omega
  simp only [isBlank, Bool.or_eq_false_iff, Bool.and_eq_false_iff, decide_eq_false_iff_not,
    List.contains_eq_mem]
  refine ⟨⟨digit_ne h (by decide), ?_⟩, hcode⟩
  omega

theorem quotedAt_of_ne {c : Char} (h : ∀ q ∈ ['"', 'r', 'b', 'c', '\''], c ≠ q) (cs : List Char) :
    Literal.quotedAt (c :: cs) = none := by
  unfold Literal.quotedAt
  split <;> first
    | rfl
    | (rename_i heq; exact absurd (List.cons.inj heq).1 (h _ (by decide)))

theorem quotedAt_digit {d : Char} (h : d.isDigit = true) (cs : List Char) :
    Literal.quotedAt (d :: cs) = none := by
  have hquotes : ∀ q ∈ ['"', 'r', 'b', 'c', '\''], q.isDigit = false := forall_mem_of_all (by decide)
  exact quotedAt_of_ne (fun q hq => digit_ne h (hquotes q hq)) cs

theorem intAt_digits {d : Char} {ds rest : List Char} (hds : ∀ c ∈ d :: ds, c.isDigit = true)
    (h : Apart rest) : Literal.intAt (d :: (ds ++ rest)) =
      some (Nat.ofDigitChars 10 (d :: ds) 0, (d :: ds).length) := by
  have hd := hds d (.head _)
  have hscore : d ≠ '_' := digit_ne hd (by decide)
  have hfirst : Literal.digitsAt 10 none 0 (d :: (ds ++ rest)) =
      Literal.digitsAt 10 (some 0) 0 (d :: ds ++ rest) := by
    rw [List.cons_append, Literal.digitsAt, Literal.digitsAt, if_neg hscore, if_neg hscore,
      digitValue?_of_isDigit hd]
    dsimp only
    rw [if_pos (digit_lt_ten hd), if_pos (digit_lt_ten hd)]
    rfl
  have hread := digitsAt_digits hds h 0 0
  have hsuffix := withSuffix_apart (d :: ds) h
  rw [Nat.zero_add] at hread
  rw [Literal.intAt, baseAt_digits (fun c hc => hds c (.tail _ hc)) h]
  dsimp only
  rw [List.drop_zero, hfirst, hread]
  dsimp only
  rw [Nat.zero_add, ← List.cons_append, hsuffix]
  rfl

theorem beginsPunct_digit {d : Char} (h : d.isDigit = true) (cs : List Char) :
    beginsPunct (d :: cs) = false := by
  have hdigits : ∀ p ∈ punctuation, p.isDigit = false := forall_mem_of_all (by decide)
  exact beginsPunct_of_not_mem (fun hmem => digit_ne h (hdigits d hmem) rfl) cs

/-- A number in decimal is one token. -/
theorem munch_int (n : Nat) {rest : List Char} (h : Apart rest) :
    ∃ d ds, (toString n).toList = d :: ds ∧ d.isDigit = true ∧
      munch ((toString n).toList ++ rest) =
        some ([.int n (toString n)], (toString n).toList.length) := by
  obtain ⟨d, ds, htext, hdigits, hvalue⟩ := digits_of_nat n
  have hd := hdigits d (.head _)
  refine ⟨d, ds, htext, hd, ?_⟩
  have hfloat : Literal.floatAt (d :: (ds ++ rest)) = none := by
    rw [Literal.floatAt, fractionAt_digits hd (fun c hc => hdigits c (.tail _ hc)) h]
    rfl
  have htake : String.ofList ((d :: (ds ++ rest)).take (d :: ds).length) = toString n := by
    rw [← List.cons_append, List.take_left, ← htext, String.ofList_toList]
  rw [htext, List.cons_append, munch, if_neg (by rw [isBlank_digit hd]; exact Bool.false_ne_true),
    commentAt_of_ne (digit_ne hd (by decide)), munch.literal, quotedAt_digit hd, hfloat,
    intAt_digits hdigits h, hvalue]
  show some ([Token.int n (String.ofList _)], _) = _
  rw [htake]

/-! ## Scanning -/

/-- Scanning finds these tokens. -/
def Scans (skip pos : Nat) (stack : List (Bracket × Nat)) (cs : List Char) (tokens : List Token) :
    Prop :=
  ∃ lexemes, scanFrom skip pos stack cs = .ok lexemes ∧ lexemes.map (·.token) = tokens

namespace Scans

variable {pos : Nat} {stack : List (Bracket × Nat)} {cs : List Char} {tokens : List Token}

theorem nil : Scans 0 pos [] [] [] := ⟨[], rfl, rfl⟩

theorem opening {c : Char} {b : Bracket} (hc : Bracket.ofOpening? c = some b)
    (h : Scans 0 (pos + 1) ((b, pos) :: stack) cs tokens) :
    Scans 0 pos stack (c :: cs) (.opening b :: tokens) := by
  obtain ⟨lexemes, hs, rfl⟩ := h
  exact ⟨_, by rw [scanFrom, hc]; dsimp only; rw [hs]; rfl, rfl⟩

theorem closing {c : Char} {b : Bracket} {start : Nat} (hc : Bracket.ofOpening? c = none)
    (hb : Bracket.ofClosing? c = some b) (h : Scans 0 (pos + 1) stack cs tokens) :
    Scans 0 pos ((b, start) :: stack) (c :: cs) (.closing b :: tokens) := by
  obtain ⟨lexemes, hs, rfl⟩ := h
  exact ⟨_, by rw [scanFrom, hc]; dsimp only; rw [hb]; dsimp only; rw [if_pos rfl, hs]; rfl, rfl⟩

theorem skip {k : Nat} {ds : List Char} (hk : ds.length = k)
    (h : Scans 0 (pos + k) stack cs tokens) :
    Scans k pos stack (ds ++ cs) tokens := by
  induction ds generalizing k pos with
  | nil => subst hk; exact h
  | cons d ds ih =>
    subst hk
    have hnext : Scans 0 (pos + 1 + ds.length) stack cs tokens := by
      rw [Nat.add_assoc, Nat.add_comm 1]
      exact h
    obtain ⟨lexemes, hs, ht⟩ := ih rfl hnext
    exact ⟨lexemes, by rw [List.cons_append, List.length_cons, scanFrom]; exact hs, ht⟩

/-- What stands here, and what is scanned once the rest of it has been passed. -/
theorem taken {c : Char} {n : Nat} {found : List Token} (hc : Bracket.ofOpening? c = none)
    (hb : Bracket.ofClosing? c = none) (hm : munch (c :: cs) = some (found, n))
    (h : Scans (n - 1) (pos + 1) stack cs tokens) :
    Scans 0 pos stack (c :: cs) (found ++ tokens) := by
  obtain ⟨lexemes, hs, rfl⟩ := h
  refine ⟨found.map (⟨·, pos, pos + n⟩) ++ lexemes, ?_, ?_⟩
  · rw [scanFrom, hc]
    dsimp only
    rw [hb]
    dsimp only
    rw [hm]
    dsimp only
    rw [hs]
    rfl
  · simp [Function.comp_def]

/-- A token or a blank, and what is scanned after it. -/
theorem munched {c : Char} {ds : List Char} {found : List Token}
    (hc : Bracket.ofOpening? c = none) (hb : Bracket.ofClosing? c = none)
    (hm : munch (c :: (ds ++ cs)) = some (found, (c :: ds).length))
    (h : Scans 0 (pos + (c :: ds).length) stack cs tokens) :
    Scans 0 pos stack (c :: (ds ++ cs)) (found ++ tokens) :=
  taken hc hb hm (skip rfl (by rw [Nat.add_assoc, Nat.add_comm 1]; exact h))

theorem single {c : Char} {found : List Token} (hc : Bracket.ofOpening? c = none)
    (hb : Bracket.ofClosing? c = none) (hm : munch (c :: cs) = some (found, 1))
    (h : Scans 0 (pos + 1) stack cs tokens) : Scans 0 pos stack (c :: cs) (found ++ tokens) :=
  @munched pos stack cs tokens c [] found hc hb hm h

theorem not_bracket {c : Char} (h : ∀ b ∈ "()[]\x7b\x7d".toList, c ≠ b) :
    Bracket.ofOpening? c = none ∧ Bracket.ofClosing? c = none := by
  have hne : c ≠ '(' ∧ c ≠ ')' ∧ c ≠ '[' ∧ c ≠ ']' ∧ c ≠ '\x7b' ∧ c ≠ '\x7d' := by simpa using h
  obtain ⟨h1, h2, h3, h4, h5, h6⟩ := hne
  rw [Bracket.ofOpening?, if_neg h1, if_neg h3, if_neg h5, Bracket.ofClosing?, if_neg h2, if_neg h4,
    if_neg h6]
  exact ⟨rfl, rfl⟩

theorem word {w : String} (hw : identAt w.toList = some w.toList) (ha : Apart cs)
    (h : ∀ p, Scans 0 p stack cs tokens) :
    Scans 0 pos stack (w.toList ++ cs) (.ident w :: tokens) := by
  obtain ⟨c, ds, hcs, hc, hm⟩ := munch_word hw ha
  have hstarts : ∀ b ∈ "()[]\x7b\x7d".toList, isIdentifierStart b = false :=
    forall_mem_of_all (by decide)
  obtain ⟨ho, hb⟩ := not_bracket fun b hb => start_ne hc (hstarts b hb)
  rw [String.ofList_toList] at hm
  rw [hcs] at hm ⊢
  exact munched ho hb hm (h _)

theorem int (n : Nat) (ha : Apart cs) (h : ∀ p, Scans 0 p stack cs tokens) :
    Scans 0 pos stack ((toString n).toList ++ cs) (.int n (toString n) :: tokens) := by
  obtain ⟨d, ds, hcs, hd, hm⟩ := munch_int n ha
  have hdigits : ∀ b ∈ "()[]\x7b\x7d".toList, b.isDigit = false := forall_mem_of_all (by decide)
  obtain ⟨ho, hb⟩ := not_bracket fun b hb => digit_ne hd (hdigits b hb)
  rw [hcs] at hm ⊢
  exact munched ho hb hm (h _)

theorem space (h : ∀ p, Scans 0 p stack cs tokens) : Scans 0 pos stack (' ' :: cs) tokens :=
  @single pos stack cs tokens ' ' [] rfl rfl rfl (h _)

/-- An operator with a space on either side. -/
theorem operator (pos : Nat) {op : BinaryOp} (hop : op.level ≤ 3)
    (h : ∀ p, Scans 0 p stack cs tokens) :
    Scans 0 pos stack (' ' :: (op.symbol.toList ++ ' ' :: cs))
      (Token.symbol op.symbol ++ tokens) := by
  refine space fun p => ?_
  have hafter : ∀ p, Scans 0 p stack (' ' :: cs) tokens := fun p => space h
  cases op with
  | add => exact single rfl rfl rfl (hafter _)
  | sub => exact single rfl rfl rfl (hafter _)
  | mul => exact single rfl rfl rfl (hafter _)
  | div => exact single rfl rfl rfl (hafter _)
  | rem => exact single rfl rfl rfl (hafter _)
  | other s => simp [BinaryOp.level] at hop

/-- A minus sign before what is not punctuation. -/
theorem minus (pos : Nat) (hcs : beginsPunct cs = false) (h : ∀ p, Scans 0 p stack cs tokens) :
    Scans 0 pos stack ('-' :: cs) (.punct '-' false :: tokens) := by
  have hm : munch ('-' :: cs) = some ([.punct '-' (beginsPunct cs)], 1) := rfl
  rw [hcs] at hm
  exact single rfl rfl hm (h _)

end Scans

end Scanner

/-! ## Spelled expressions -/

namespace Expr

/-- The text of an arithmetic expression. -/
def spelled : Expr → String
  | int _ text => text
  | name id => id
  | index array subscript => array.spelled ++ "[" ++ subscript.spelled ++ "]"
  | paren inner => "(" ++ inner.spelled ++ ")"
  | unary op operand => op.symbol ++ operand.spelled
  | binary op left right => left.spelled ++ " " ++ op.symbol ++ " " ++ right.spelled
  | _ => ""

/-- An expression begins with a number, a word, a bracket or, if there is an operator in it, a minus
sign. -/
theorem head_spelled {e : Expr} (h : e.WellBracketed) : ∃ c cs, e.spelled.toList = c :: cs ∧
    (c.isDigit = true ∨ isIdentifierStart c = true ∨ c = '(' ∨ c = '-' ∧ e.level ≠ 0) := by
  induction e with
  | int n text =>
    obtain rfl : text = toString n := h
    obtain ⟨d, ds, htext, hd, -⟩ := Scanner.digits_of_nat n
    exact ⟨d, ds, htext, .inl (hd d (.head _))⟩
  | name w =>
    have hw := h.1
    cases hcs : w.toList with
    | nil => rw [hcs] at hw; cases hw
    | cons c cs =>
      rw [hcs] at hw
      exact ⟨c, cs, hcs, .inr (.inl (Scanner.start_of_identAt hw))⟩
  | paren inner => exact ⟨'(', _, by simp [spelled]; rfl, .inr (.inr (.inl rfl))⟩
  | index array subscript ih _ =>
    obtain ⟨c, cs, hcs, hc⟩ := ih h.1
    refine ⟨c, cs ++ '[' :: (subscript.spelled.toList ++ [']']), by simp [spelled, hcs], ?_⟩
    rcases hc with hc | hc | hc | ⟨-, hl⟩
    · exact .inl hc
    · exact .inr (.inl hc)
    · exact .inr (.inr (.inl hc))
    · exact absurd h.2.1 hl
  | unary op operand =>
    obtain ⟨rfl, -, -⟩ := h
    exact ⟨'-', operand.spelled.toList, by simp [spelled, UnaryOp.symbol],
      .inr (.inr (.inr ⟨rfl, Nat.one_ne_zero⟩))⟩
  | binary op left right ih _ =>
    obtain ⟨c, cs, hcs, hc⟩ := ih h.1
    refine ⟨c, cs ++ ' ' :: (op.symbol.toList ++ ' ' :: right.spelled.toList),
      by simp [spelled, hcs], ?_⟩
    have hl : op.level ≠ 0 := by cases op <;> simp [BinaryOp.level]
    rcases hc with hc | hc | hc | ⟨hc, -⟩
    · exact .inl hc
    · exact .inr (.inl hc)
    · exact .inr (.inr (.inl hc))
    · exact .inr (.inr (.inr ⟨hc, hl⟩))
  | _ => exact h.elim

/-- What holds together without an operator begins with no punctuation. -/
theorem beginsPunct_spelled {e : Expr} (h : e.WellBracketed) (hl : e.level = 0) (cs : List Char) :
    Scanner.beginsPunct (e.spelled.toList ++ cs) = false := by
  obtain ⟨c, ds, hcs, hc⟩ := head_spelled h
  rw [hcs, List.cons_append]
  rcases hc with hc | hc | rfl | ⟨-, hne⟩
  · exact Scanner.beginsPunct_digit hc _
  · exact (Scanner.punctAt_of_start hc _).1
  · rfl
  · exact absurd hl hne

end Expr

namespace Scanner

/-- The scanner finds the tokens of an expression in its spelling. -/
theorem scans_spelled {e : Expr} (he : e.WellBracketed) {stack : List (Bracket × Nat)}
    {cs : List Char} {tokens : List Token} (ha : Apart cs) (h : ∀ p, Scans 0 p stack cs tokens)
    (pos : Nat) : Scans 0 pos stack (e.spelled.toList ++ cs) (e.tokens ++ tokens) := by
  -- for anything that may follow: each case puts the scans together from the back
  induction e generalizing stack cs tokens pos with
  | int n text =>
    obtain rfl : text = toString n := he
    exact Scans.int n ha h
  | name w => exact Scans.word he.1 ha h
  | paren inner ih =>
    have hclose : ∀ start p, Scans 0 p ((.round, start) :: stack) (')' :: cs)
        (.closing .round :: tokens) := fun start p => Scans.closing rfl rfl (h _)
    have hopen : Scans 0 pos stack ('(' :: (inner.spelled.toList ++ ')' :: cs))
        (.opening .round :: (inner.tokens ++ .closing .round :: tokens)) :=
      Scans.opening rfl (ih he (by simp [Apart, wordEnds]) (hclose pos) (pos + 1))
    simpa [Expr.spelled, Expr.tokens, Token.bracketed] using hopen
  | index array subscript iha ihi =>
    obtain ⟨hwa, -, hwi⟩ := he
    have hclose : ∀ start p, Scans 0 p ((.square, start) :: stack) (']' :: cs)
        (.closing .square :: tokens) := fun start p => Scans.closing rfl rfl (h _)
    have hopen : ∀ p, Scans 0 p stack ('[' :: (subscript.spelled.toList ++ ']' :: cs))
        (.opening .square :: (subscript.tokens ++ .closing .square :: tokens)) := fun p =>
      Scans.opening rfl (ihi hwi (by simp [Apart, wordEnds]) (hclose p) (p + 1))
    have harray := iha hwa (by simp [Apart, wordEnds]) hopen pos
    simpa [Expr.spelled, Expr.tokens, Token.bracketed] using harray
  | unary op operand ih =>
    obtain ⟨rfl, hw, hl⟩ := he
    have hminus := Scans.minus pos (operand.beginsPunct_spelled hw hl cs) (ih hw ha h)
    simpa [Expr.spelled, Expr.tokens, UnaryOp.symbol, Token.symbol, Token.symbolOfChars] using hminus
  | binary op left right ihl ihr =>
    obtain ⟨hwl, hwr, -, -, hop⟩ := he
    have hright := ihr hwr ha h
    have hop' := fun p => Scans.operator p hop hright
    have hleft := ihl hwl (by simp [Apart, wordEnds]) hop' pos
    simpa [Expr.spelled, Expr.tokens] using hleft
  | _ => exact he.elim

end Scanner

namespace Expr

theorem scan_spelled {e : Expr} (h : e.WellBracketed) :
    ∃ lexemes, Scanner.scan e.spelled = .ok lexemes ∧ lexemes.map (·.token) = e.tokens := by
  obtain ⟨lexemes, hs, ht⟩ := @Scanner.scans_spelled e h [] [] [] trivial (fun _ => .nil) 0
  rw [List.append_nil] at hs ht
  refine ⟨lexemes, ?_, ht⟩
  obtain ⟨c, cs, hcs, hc⟩ := head_spelled h
  have hmark : c ≠ '\ufeff' := by
    rintro rfl
    rcases hc with hc | hc | hc | ⟨hc, -⟩
    · exact absurd hc (by decide)
    · exact absurd hc (by decide +kernel)
    · exact absurd hc (by decide)
    · exact absurd hc (by decide)
  rw [Scanner.scan]
  split
  · rename_i heq
    rw [hcs] at heq
    exact absurd (List.cons.inj heq).1 hmark
  · exact hs

/-- An expression with its brackets is read back from its spelling. -/
theorem parse_spelled {e : Expr} (h : e.WellBracketed) : Expr.parse e.spelled = .ok e := by
  obtain ⟨lexemes, hs, ht⟩ := scan_spelled h
  rw [Expr.parse, hs]
  dsimp only
  rw [ht, Grammar.whole_reads h]

end Expr

end ReaderGen
