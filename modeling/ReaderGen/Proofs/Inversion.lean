import ReaderGen.Proofs.LoweringSteps

/-!
# What an arithmetic expression was read from

The rules of the grammar read much that is foreign to arithmetic. A result that is arithmetic tells
which of the alternatives was taken, and what stood where: each rule is taken apart once here.

* `Expr.Arithmetic`: nothing in a tree is foreign to arithmetic.
* `Chain.resolve_iff`: a tree is arithmetic just if all operators and operands of its chain are.
* `Grammar.atom_of_ok`, `Grammar.trailer_of_ok`, `Grammar.bareOperand_of_ok`,
  `Grammar.anyOperand_of_ok`, `Grammar.anyExpression_of_ok`: what each rule read.
-/

namespace ReaderGen

/-- The operator is one of integer arithmetic. -/
def BinaryOp.IsArithmetic : BinaryOp → Prop
  | other _ => False
  | _ => True

/-- Nothing in the tree is foreign to arithmetic. -/
def Expr.Arithmetic : Expr → Prop
  | int _ _ => True
  | name _ => True
  | index array subscript => array.Arithmetic ∧ subscript.Arithmetic
  | paren inner => inner.Arithmetic
  | group inner => inner.Arithmetic
  | unary op operand => op = .neg ∧ operand.Arithmetic
  | binary op left right => op.IsArithmetic ∧ left.Arithmetic ∧ right.Arithmetic
  | attributed _ inner => inner.Arithmetic
  | literal _ | path _ | foreign _ _ => False

theorem Expr.arithmetic_of_lowered {e : Expr} :
    (∀ p, e.toPoly = .ok p → e.Arithmetic) ∧ (∀ a, e.toAtom = .ok a → e.Arithmetic) := by
  have hsteps : Stepwise (fun _ => True) (fun e _ => e.Arithmetic) (fun e _ => e.Arithmetic) := {
    int := fun _ _ _ _ => trivial
    name := fun _ => ⟨trivial, trivial⟩
    index := fun _ _ _ _ ha hi => ⟨⟨ha, hi⟩, ⟨ha, hi⟩⟩
    paren := fun _ => ⟨fun _ => id, fun _ => id⟩
    group := fun _ _ => id
    neg := fun _ _ _ hoperand _ => ⟨rfl, hoperand⟩
    binary := by
      intro left right op p q r hleft hright h
      refine ⟨?_, hleft, hright⟩
      cases op with
      | other symbol => cases h
      | _ => trivial
    attributed := fun _ _ => ⟨fun _ => id, fun _ => id⟩ }
  exact hsteps.of_lowering fun _ _ => trivial

/-! ## Chains -/

namespace Chain

/-- A property of all operators and one of all operands of a chain. -/
def All (Q : BinaryOp → Prop) (P : Expr → Prop) (chain : Expr × List (BinaryOp × Expr)) : Prop :=
  P chain.1 ∧ ∀ l ∈ chain.2, Q l.1 ∧ P l.2

/-- One level of operators, on a chain. -/
def merged (chain : Expr × List (BinaryOp × Expr)) (level : List String) :
    Expr × List (BinaryOp × Expr) := mergeLevel level chain.1 chain.2

variable {Q : BinaryOp → Prop} {P : Expr → Prop}

theorem all_mergeLevel (hP : ∀ op l r, P (.binary op l r) ↔ Q op ∧ P l ∧ P r)
    (level : List String) (e : Expr) (rest : List (BinaryOp × Expr)) :
    All Q P (mergeLevel level e rest) ↔ All Q P (e, rest) := by
  induction rest generalizing e with
  | nil => rfl
  | cons l rest ih =>
    obtain ⟨op, x⟩ := l
    rw [mergeLevel]
    split
    · rw [ih]
      simp only [All, hP, List.mem_cons, forall_eq_or_imp, and_assoc, and_left_comm]
    · have hx := ih x
      simp only [All, List.mem_cons, forall_eq_or_imp, and_assoc] at hx ⊢
      rw [hx]

/-- The operators that are left are not of the level. -/
theorem left_mergeLevel (level : List String) (e : Expr) (rest : List (BinaryOp × Expr)) :
    ∀ l ∈ (mergeLevel level e rest).2,
      level.contains l.1.symbol = false ∧ ∃ m ∈ rest, m.1 = l.1 := by
  induction rest generalizing e with
  | nil => intro l hl; cases hl
  | cons m rest ih =>
    obtain ⟨op, x⟩ := m
    rw [mergeLevel]
    split
    · intro l hl
      obtain ⟨hc, m, hm, ho⟩ := ih _ l hl
      exact ⟨hc, m, .tail _ hm, ho⟩
    · rename_i hop
      intro l hl
      rcases List.mem_cons.1 hl with rfl | hl
      · exact ⟨by simpa using hop, _, .head _, rfl⟩
      · obtain ⟨hc, m, hm, ho⟩ := ih x l hl
        exact ⟨hc, m, .tail _ hm, ho⟩

theorem all_foldl (hP : ∀ op l r, P (.binary op l r) ↔ Q op ∧ P l ∧ P r)
    (levels : List (List String)) (chain : Expr × List (BinaryOp × Expr)) :
    All Q P (levels.foldl merged chain) ↔ All Q P chain := by
  induction levels generalizing chain with
  | nil => rfl
  | cons level levels ih => rw [List.foldl_cons, ih, merged, all_mergeLevel hP]

theorem left_foldl (levels : List (List String)) (chain : Expr × List (BinaryOp × Expr)) :
    ∀ l ∈ (levels.foldl merged chain).2,
      (∀ level ∈ levels, level.contains l.1.symbol = false) ∧ ∃ m ∈ chain.2, m.1 = l.1 := by
  induction levels generalizing chain with
  | nil =>
    intro l hl
    refine ⟨?_, l, hl, rfl⟩
    intro level h
    cases h
  | cons level levels ih =>
    intro l hl
    obtain ⟨hrest, m, hm, hml⟩ := ih (merged chain level) l hl
    obtain ⟨hc, k, hk, hkm⟩ := left_mergeLevel level chain.1 chain.2 m hm
    refine ⟨?_, k, hk, hkm.trans hml⟩
    intro level' h
    rcases List.mem_cons.1 h with rfl | h
    · rw [← hml]; exact hc
    · exact hrest level' h

/-- A property that is one of all operators and operands holds of the tree of a chain if it holds of all
of them: no operand is lost as long as each operator has a level. -/
theorem resolve_iff (hP : ∀ op l r, P (.binary op l r) ↔ Q op ∧ P l ∧ P r) (first : Expr)
    {rest : List (BinaryOp × Expr)}
    (hops : ∀ l ∈ rest, ∃ level ∈ BinaryOp.levels, level.contains l.1.symbol = true) :
    P (resolve first rest) ↔ P first ∧ ∀ l ∈ rest, Q l.1 ∧ P l.2 := by
  have hall := all_foldl hP BinaryOp.levels (first, rest)
  have hnone : (BinaryOp.levels.foldl merged (first, rest)).2 = [] := by
    rw [List.eq_nil_iff_forall_not_mem]
    intro l hl
    obtain ⟨hno, m, hm, hml⟩ := left_foldl BinaryOp.levels (first, rest) l hl
    obtain ⟨level, hlevel, hc⟩ := hops m hm
    rw [hml, hno level hlevel] at hc
    cases hc
  rw [All, hnone] at hall
  exact ⟨fun h => hall.1 ⟨h, fun l hl => by cases hl⟩, fun h => (hall.2 h).1⟩

theorem mapM_binary? {links : List Link} {rest : List (BinaryOp × Expr)} :
    links.mapM Link.binary? = some rest ↔ links = rest.map fun l => .binary l.1 l.2 := by
  constructor
  · intro h
    induction links generalizing rest with
    | nil => cases h; rfl
    | cons l links ih =>
      rw [List.mapM_cons] at h
      obtain ⟨m, hm, h⟩ := Option.bind_eq_some_iff.1 h
      obtain ⟨others, hothers, h⟩ := Option.bind_eq_some_iff.1 h
      cases h
      cases l with
      | loose s operand => cases hm
      | binary op e =>
        cases hm
        rw [List.map_cons, ← ih hothers]
  · rintro rfl
    induction rest with
    | nil => rfl
    | cons l rest ih =>
      rw [List.map_cons, List.mapM_cons, ih]
      rfl

end Chain

namespace Grammar

open Reading

variable {g : Grammar}

/-! ## Words and qualified names -/

theorem name_of_ok {c c' : Cursor} {tokens : Tokens} (h : name c = .ok (tokens, c')) :
    ∃ w, tokens = [.ident w] ∧ c = ⟨.ident w :: c'.rest, c'.stray⟩ ∧ Word.isSegment w = true := by
  obtain ⟨ts, stray⟩ := c
  unfold name at h
  split at h
  · rename_i w rest hc
    split at h
    · rename_i hw
      cases h
      exact ⟨w, rfl, congrArg (Cursor.mk · stray) hc, Word.isSegment_of_isName hw⟩
    · cases h
  · cases h

theorem word_of_ok {w : String} {c c' : Cursor} {tokens : Tokens} (h : word w c = .ok (tokens, c')) :
    tokens = [.ident w] ∧ c = ⟨.ident w :: c'.rest, c'.stray⟩ := by
  obtain ⟨ts, stray⟩ := c
  unfold word at h
  split at h
  · rename_i hw
    cases h
    unfold Cursor.isWord at hw
    split at hw
    · rename_i name rest hc
      obtain rfl := of_decide_eq_true hw
      obtain rfl : ts = .ident name :: rest := hc
      exact ⟨rfl, rfl⟩
    · cases hw
  · cases h

theorem anyWord_of_ok {w : String} {c c' : Cursor} (h : anyWord c = .ok (w, c')) :
    c = ⟨.ident w :: c'.rest, c'.stray⟩ := by
  obtain ⟨ts, stray⟩ := c
  unfold anyWord at h
  split at h
  · rename_i w' rest hc
    cases h
    exact congrArg (Cursor.mk · stray) hc
  · cases h

theorem symbol_ne_nil {s : String} {c c' : Cursor} {tokens : Tokens}
    (h : symbol s c = .ok (tokens, c')) : tokens = Token.symbol s := by
  unfold symbol at h
  split at h
  · cases h; rfl
  · cases h

theorem symbol_of_ok {s : String} {ch : Char} (hs : s.toList = [ch]) {c c' : Cursor}
    {tokens : Tokens} (h : symbol s c = .ok (tokens, c')) :
    ∃ joint, c = ⟨.punct ch joint :: c'.rest, c'.stray⟩ := by
  obtain ⟨ts, stray⟩ := c
  unfold symbol at h
  split at h
  · rename_i hstarts
    cases h
    have hlength : s.length = 1 := by rw [← String.length_toList, hs]; rfl
    rw [Cursor.startsWith, hs] at hstarts
    rw [Cursor.dropSymbol, hlength]
    cases ts with
    | nil => cases hstarts
    | cons t ts =>
      cases t with
      | punct ch' joint =>
        obtain rfl : ch = ch' := by
          cases joint <;> simpa [Cursor.runOf, List.isPrefixOf] using hstarts
        exact ⟨joint, rfl⟩
      | _ => cases hstarts
  · cases h

/-- Arguments are never nothing. -/
theorem arguments_ne_nil {c c' : Cursor} {tokens : Tokens}
    (h : g.arguments c = .ok (tokens, c')) : tokens ≠ [] := by
  obtain ⟨start, c₁, -, h⟩ := bind_eq_ok_iff.1 h
  obtain ⟨parts, c₂, -, h⟩ := bind_eq_ok_iff.1 h
  obtain ⟨stop, c₃, hstop, h⟩ := bind_eq_ok_iff.1 h
  cases h
  rw [symbol_ne_nil hstop]
  exact List.append_ne_nil_of_right_ne_nil _ (by decide)

/-- A segment begins with a word. If it is that word alone, the word stands here and nothing else has
been passed over. -/
theorem segment_of_ok {style : PathStyle} {c c' : Cursor} {tokens : Tokens} {flag : Bool}
    (h : g.segment style c = .ok ((tokens, flag), c')) :
    ∃ w more, tokens = .ident w :: more ∧
      (more = [] → c = ⟨.ident w :: c'.rest, c'.stray⟩ ∧ Word.isSegment w = true) := by
  have hafter : ∀ {w c₁}, c = ⟨.ident w :: c₁.rest, c₁.stray⟩ → Word.isSegment w = true →
      (do if argumentsFollow style (← get) then
            let rest ← g.arguments
            return ([.ident w] ++ rest, true)
          else return ([.ident w], false) : Reading (Tokens × Bool)) c₁ = .ok ((tokens, flag), c') →
      ∃ w more, tokens = .ident w :: more ∧
        (more = [] → c = ⟨.ident w :: c'.rest, c'.stray⟩ ∧ Word.isSegment w = true) := by
    intro w c₁ hc hw h
    rw [bind_get] at h
    rcases cond_eq_ok h with ⟨-, h⟩ | ⟨-, h⟩
    · obtain ⟨rest, c₂, hrest, h⟩ := bind_eq_ok_iff.1 h
      cases h
      exact ⟨w, rest, rfl, fun hnil => absurd hnil (arguments_ne_nil hrest)⟩
    · cases h
      exact ⟨w, [], rfl, fun _ => ⟨hc, hw⟩⟩
  rw [segment, bind_get] at h
  rcases cond_eq_ok h with ⟨hbare, h⟩ | ⟨-, h⟩
  · obtain ⟨w, c₁, hw, h⟩ := bind_eq_ok_iff.1 h
    cases h
    have hc := anyWord_of_ok hw
    refine ⟨w, [], rfl, fun _ => ⟨hc, ?_⟩⟩
    have hsegments : ∀ b ∈ bareSegments, Word.isSegment b = true := by decide
    obtain ⟨b, hb, hwb⟩ := List.any_eq_true.1 hbare
    obtain rfl : w = b := by simpa [Cursor.isWord, hc] using hwb
    exact hsegments w hb
  · rcases cond_eq_ok h with ⟨-, h⟩ | ⟨-, h⟩
    · obtain ⟨first, c₁, hfirst, h⟩ := bind_eq_ok_iff.1 h
      obtain ⟨rfl, hc⟩ := word_of_ok hfirst
      exact hafter hc (by decide) h
    · obtain ⟨first, c₁, hfirst, h⟩ := bind_eq_ok_iff.1 h
      obtain ⟨w, rfl, hc, hw⟩ := name_of_ok hfirst
      exact hafter hc hw h

/-- More segments are never nothing, unless there are none. -/
theorem moreSegments_of_nil {style : PathStyle} {test : Cursor → Bool} {c c' : Cursor}
    {more : List (Tokens × Bool)} (h : g.moreSegments style test c = .ok (more, c'))
    (hnil : more.flatMap (·.1) = []) : more = [] ∧ c' = c := by
  unfold moreSegments many at h
  rw [manyFrom_succ] at h
  split at h
  · rename_i c₁ hstep
    cases h
    refine ⟨rfl, ?_⟩
    rw [bind_get] at hstep
    rcases cond_eq_ok hstep with ⟨-, hstep⟩ | ⟨-, hstep⟩
    · cases hstep; rfl
    · obtain ⟨colons, c₂, -, hstep⟩ := bind_eq_ok_iff.1 hstep
      obtain ⟨segment, c₃, -, hstep⟩ := bind_eq_ok_iff.1 hstep
      cases hstep
  · rename_i a c₁ hstep
    obtain ⟨rest, c₂, -, h⟩ := bind_eq_ok_iff.1 h
    cases h
    rw [bind_get] at hstep
    rcases cond_eq_ok hstep with ⟨-, hstep⟩ | ⟨-, hstep⟩
    · cases hstep
    · obtain ⟨colons, c₂, hcolons, hstep⟩ := bind_eq_ok_iff.1 hstep
      obtain ⟨segment, c₃, -, hstep⟩ := bind_eq_ok_iff.1 hstep
      cases hstep
      rw [symbol_ne_nil hcolons] at hnil
      cases hnil
  · cases h

theorem symbol?_of_nil {s : String} {c c' : Cursor} (h : symbol? s c = .ok ([], c'))
    (hs : Token.symbol s ≠ []) : c' = c := by
  rw [symbol?, given, bind_get] at h
  rcases cond_eq_ok h with ⟨-, h⟩ | ⟨-, h⟩
  · exact absurd (symbol_ne_nil h).symm hs
  · cases h
    rfl

/-- A qualified name that is one word stands here, and nothing else has been passed over. -/
theorem anyPath_of_ok {c c' : Cursor} {p : Path} {w : String}
    (h : g.anyPath .expression c = .ok (p, c')) (hp : p.tokens = [.ident w]) :
    c = ⟨.ident w :: c'.rest, c'.stray⟩ ∧ Word.isSegment w = true := by
  have hsplit : ∀ {start first : Tokens} {more : List (Tokens × Bool)} {t : Token} {ts : Tokens},
      first = t :: ts → start ++ first ++ more.flatMap (·.1) = [.ident w] →
        start = [] ∧ t = .ident w ∧ ts = [] ∧ more.flatMap (·.1) = [] := by
    rintro start first more t ts rfl heq
    cases start with
    | nil =>
      simp only [List.nil_append, List.cons_append, List.cons.injEq, List.append_eq_nil_iff] at heq
      exact ⟨rfl, heq.1, heq.2.1, heq.2.2⟩
    | cons s start => simp at heq
  rw [anyPath, bind_get] at h
  rcases cond_eq_ok h with ⟨-, h⟩ | ⟨-, h⟩
  · obtain ⟨start, c₁, hstart, h⟩ := bind_eq_ok_iff.1 h
    obtain ⟨⟨first, flag⟩, c₂, hfirst, h⟩ := bind_eq_ok_iff.1 h
    obtain ⟨more, c₃, hmore, h⟩ := bind_eq_ok_iff.1 h
    cases h
    obtain ⟨u, ts, hts, hu⟩ := segment_of_ok hfirst
    obtain ⟨rfl, ht, rfl, hnil⟩ := hsplit hts hp
    obtain ⟨-, rfl⟩ := moreSegments_of_nil hmore hnil
    obtain rfl : u = w := by simpa using ht
    obtain rfl := symbol?_of_nil hstart (by decide)
    exact hu rfl
  · -- a type in angle brackets leaves a bracket before the word
    obtain ⟨start, c₁, hstart, h⟩ := bind_eq_ok_iff.1 h
    obtain ⟨⟨first, flag⟩, c₂, hfirst, h⟩ := bind_eq_ok_iff.1 h
    obtain ⟨more, c₃, hmore, h⟩ := bind_eq_ok_iff.1 h
    cases h
    obtain ⟨u, ts, hts, -⟩ := segment_of_ok hfirst
    obtain ⟨rfl, -, -, -⟩ := hsplit hts hp
    obtain ⟨angle, c₄, hangle, hstart⟩ := bind_eq_ok_iff.1 hstart
    obtain ⟨rest, c₅, -, hstart⟩ := bind_eq_ok_iff.1 hstart
    have hnil : angle ++ rest = [] := congrArg Prod.fst (Except.ok.inj hstart)
    rw [symbol_ne_nil hangle] at hnil
    cases hnil

/-! ## Atoms and operands -/

/-- An arithmetic atom that begins with a name is one word. -/
theorem named_of_ok {braces : Bool} {c c' : Cursor} {e : Expr}
    (h : g.named braces c = .ok (e, c')) (he : e.Arithmetic) :
    ∃ w, e = .name w ∧ c = ⟨.ident w :: c'.rest, c'.stray⟩ ∧ Word.isSegment w = true := by
  obtain ⟨⟨⟨p, record⟩, written⟩, c₁, hread, h⟩ := bind_eq_ok_iff.1 h
  cases record with
  | some rest =>
    cases h
    split at he <;> exact he.elim
  | none =>
    -- a name that is not a single word is no variable
    have hword : ∃ w, p.tokens = [.ident w] ∧ e = .name w ∧ c' = c₁ := by
      dsimp only at h
      generalize p.tokens = ts at h
      match ts, h with
      | [.ident w], h => cases h; exact ⟨w, rfl, rfl, rfl⟩
      | [], h | [.int _ _], h | [.literal _], h | [.part _], h | [.punct _ _], h | [.opening _], h
      | [.closing _], h => cases h; exact he.elim
      | t :: _ :: _, h => cases t <;> (cases h; exact he.elim)
    obtain ⟨w, hp, rfl, rfl⟩ := hword
    -- without fields in braces after it, the name is all that was read
    have hpath : g.anyPath .expression c = .ok (p, c') := by
      unfold withSource at hread
      split at hread
      · rename_i a c₂ hinner
        cases hread
        obtain ⟨q, c₃, hpath, hinner⟩ := bind_eq_ok_iff.1 hinner
        rw [bind_get] at hinner
        rcases cond_eq_ok hinner with ⟨-, hinner⟩ | ⟨-, hinner⟩
        · obtain ⟨_, c₄, -, hinner⟩ := bind_eq_ok_iff.1 hinner
          cases hinner
        · rcases cond_eq_ok hinner with ⟨-, hinner⟩ | ⟨-, hinner⟩
          · obtain ⟨_, c₄, -, hinner⟩ := bind_eq_ok_iff.1 hinner
            cases hinner
          · cases hinner
            exact hpath
      · cases hread
    exact ⟨w, rfl, anyPath_of_ok hpath hp⟩

theorem enter_of_ok {b : Bracket} {c c' : Cursor} {u : Unit} (h : enter b c = .ok (u, c')) :
    c.opens b = true ∧ c' = c.drop 1 := by
  unfold enter at h
  split at h
  · rename_i hopen
    cases h
    exact ⟨hopen, rfl⟩
  · cases h

theorem rest_of_opens {b : Bracket} {c : Cursor} (h : c.opens b = true) :
    ∃ ts, c.rest = .opening b :: ts := by
  unfold Cursor.opens at h
  split at h
  · rename_i b' ts hc
    obtain rfl := of_decide_eq_true h
    exact ⟨ts, hc⟩
  · cases h

/-- What is arithmetic in round brackets stands there alone. -/
theorem round_of_ok {c c' : Cursor} {e : Expr} (h : g.round c = .ok (e, c')) (he : e.Arithmetic) :
    ∃ inner c₁, e = .paren inner ∧ c.opens .round = true ∧
      g.expression true (c.drop 1) = .ok (inner, c₁) ∧ c₁.atEnd = true ∧ c' = c₁.leave := by
  obtain ⟨_, c₁, henter, h⟩ := bind_eq_ok_iff.1 h
  obtain ⟨hopen, rfl⟩ := enter_of_ok henter
  rw [bind_get] at h
  rcases cond_eq_ok h with ⟨-, h⟩ | ⟨-, h⟩
  · obtain ⟨_, c₂, -, h⟩ := bind_eq_ok_iff.1 h
    cases h
    exact he.elim
  · obtain ⟨first, c₂, hfirst, h⟩ := bind_eq_ok_iff.1 h
    rw [bind_get] at h
    rcases cond_eq_ok h with ⟨hend, h⟩ | ⟨-, h⟩
    · obtain ⟨_, c₃, hleave, h⟩ := bind_eq_ok_iff.1 h
      cases h
      cases hleave
      exact ⟨first, c₂, rfl, hopen, hfirst, hend, rfl⟩
    · obtain ⟨rest, c₃, -, h⟩ := bind_eq_ok_iff.1 h
      obtain ⟨_, c₄, -, h⟩ := bind_eq_ok_iff.1 h
      cases h
      exact he.elim

theorem foreign_of_bind {r : Reading Tokens} {shape : Shape} {c c' : Cursor} {e : Expr}
    (h : (do return some (.foreign shape (← r)) : Reading (Option Expr)) c = .ok (some e, c')) :
    ¬e.Arithmetic := by
  obtain ⟨tokens, c₁, -, h⟩ := bind_eq_ok_iff.1 h
  cases h
  exact id

/-- An atom that begins with a reserved word is foreign. -/
theorem worded_of_ok {braces : Bool} {c c' : Cursor} {e : Expr}
    (h : g.worded braces c = .ok (some e, c')) : ¬e.Arithmetic := by
  rw [worded, bind_get] at h
  dsimp only at h
  iterate 13
    rcases cond_eq_ok h with ⟨-, h⟩ | ⟨-, h⟩
    · exact foreign_of_bind h
  cases h

theorem knownLiteral_of_ok {c c' : Cursor} (h : knownLiteral c = .ok ((), c')) : c' = c := by
  unfold knownLiteral at h
  split at h
  · split at h
    · cases h
    · cases h; rfl
  · cases h; rfl

theorem foreign_of_return {r : Reading Tokens} {shape : Shape} {c c' : Cursor} {e : Expr}
    (h : (do return .foreign shape (← r) : Reading Expr) c = .ok (e, c')) : ¬e.Arithmetic := by
  obtain ⟨tokens, c₁, -, h⟩ := bind_eq_ok_iff.1 h
  cases h
  exact id

/-- An arithmetic atom is a number, stands in round brackets or is a name, which no block follows. -/
theorem atom_of_ok {braces : Bool} {c c' : Cursor} {e : Expr} (h : g.atom braces c = .ok (e, c'))
    (he : e.Arithmetic) :
    (∃ value text, e = .int value text ∧ c = ⟨.int value text :: c'.rest, c'.stray⟩) ∨
    g.round c = .ok (e, c') ∨
    (g.named braces c = .ok (e, c') ∧ beginsLater c = false ∧ beginsTry c = false) := by
  obtain ⟨_, c₁, hknown, hatom⟩ := bind_eq_ok_iff.1 h
  clear h
  obtain rfl := knownLiteral_of_ok hknown
  rw [bind_get] at hatom
  obtain ⟨r, hr, h⟩ : ∃ r : Reading Expr, r = _ ∧ r c₁ = .ok (e, c') := ⟨_, rfl, hatom⟩
  clear hatom
  -- numbers, brackets and names can be arithmetic; everything else is foreign or a literal
  split at hr <;> subst hr
  · rename_i value text rest hc
    cases h
    obtain ⟨ts, stray⟩ := c₁
    obtain rfl : ts = .int value text :: rest := hc
    exact .inl ⟨value, text, rfl, rfl⟩
  · cases h; exact he.elim
  · cases h; exact he.elim
  · cases h; exact he.elim
  · exact .inr (.inl h)
  · exact absurd he (foreign_of_return h)
  · exact absurd he (foreign_of_return h)
  · rcases cond_eq_ok h with ⟨-, h⟩ | ⟨hlater, h⟩
    · exact absurd he (foreign_of_return h)
    rcases cond_eq_ok h with ⟨-, h⟩ | ⟨htry, h⟩
    · exact absurd he (foreign_of_return h)
    rcases cond_eq_ok h with ⟨-, h⟩ | ⟨-, h⟩
    · exact absurd he (foreign_of_return h)
    rcases cond_eq_ok h with ⟨-, h⟩ | ⟨-, h⟩
    · exact absurd he (foreign_of_return h)
    rcases cond_eq_ok h with ⟨-, h⟩ | ⟨-, h⟩
    · exact .inr (.inr ⟨h, by simpa using hlater, by simpa using htry⟩)
    obtain ⟨worded, c₂, hworded, h⟩ := bind_eq_ok_iff.1 h
    cases worded with
    | some e' =>
      cases h
      exact absurd he (worded_of_ok hworded)
    | none =>
      dsimp only at h
      rcases cond_eq_ok h with ⟨-, h⟩ | ⟨-, h⟩
      · exact absurd he (foreign_of_return h)
      rcases cond_eq_ok h with ⟨-, h⟩ | ⟨-, h⟩
      · exact absurd he (foreign_of_return h)
      · cases h

/-- One more trailer that keeps an operand arithmetic is a subscript. -/
theorem trailer_of_ok {a b : Expr} {c c' : Cursor} (h : g.trailer a c = .ok (some b, c'))
    (hb : b.Arithmetic) : ∃ i c₁, b = .index a i ∧ c.opens .square = true ∧
      g.expression true (c.drop 1) = .ok (i, c₁) ∧ c' = c₁.leave := by
  rw [trailer, bind_get] at h
  rcases cond_eq_ok h with ⟨-, h⟩ | ⟨-, h⟩
  · obtain ⟨_, c₁, henter, h⟩ := bind_eq_ok_iff.1 h
    obtain ⟨i, c₂, hi, h⟩ := bind_eq_ok_iff.1 h
    obtain ⟨_, c₃, hleave, h⟩ := bind_eq_ok_iff.1 h
    cases h
    cases hleave
    obtain ⟨hopen, rfl⟩ := enter_of_ok henter
    exact ⟨i, c₂, rfl, hopen, hi, rfl⟩
  -- calls, members and question marks make the operand foreign
  rcases cond_eq_ok h with ⟨-, h⟩ | ⟨-, h⟩
  · obtain ⟨tokens, c₁, -, h⟩ := bind_eq_ok_iff.1 h
    cases h
    exact hb.elim
  rcases cond_eq_ok h with ⟨-, h⟩ | ⟨-, h⟩
  · obtain ⟨tokens, c₁, -, h⟩ := bind_eq_ok_iff.1 h
    cases h
    exact hb.elim
  rcases cond_eq_ok h with ⟨-, h⟩ | ⟨-, h⟩
  · obtain ⟨tokens, c₁, -, h⟩ := bind_eq_ok_iff.1 h
    cases h
    exact hb.elim
  · cases h

theorem trailer_of_none {a : Expr} {c c' : Cursor} (h : g.trailer a c = .ok (none, c')) :
    c' = c := by
  rw [trailer, bind_get] at h
  rcases cond_eq_ok h with ⟨-, h⟩ | ⟨-, h⟩
  · obtain ⟨_, c₁, -, h⟩ := bind_eq_ok_iff.1 h
    obtain ⟨i, c₂, -, h⟩ := bind_eq_ok_iff.1 h
    obtain ⟨_, c₃, -, h⟩ := bind_eq_ok_iff.1 h
    cases h
  iterate 3
    rcases cond_eq_ok h with ⟨-, h⟩ | ⟨-, h⟩
    · obtain ⟨tokens, c₁, -, h⟩ := bind_eq_ok_iff.1 h
      cases h
  cases h
  rfl

/-- An arithmetic operand without attributes has a sign before it, or is an atom with trailers. -/
theorem bareOperand_of_ok {braces : Bool} {c c' : Cursor} {e : Expr}
    (h : g.bareOperand braces c = .ok (e, c')) (he : e.Arithmetic) :
    (∃ mark operand c₁, symbol UnaryOp.neg.symbol c = .ok (mark, c₁) ∧
      g.operand braces c₁ = .ok (operand, c') ∧ e = .unary .neg operand) ∨
    ∃ a c₁, g.atom braces c = .ok (a, c₁) ∧ iterate g.trailer a c₁ = .ok (e, c') := by
  rw [bareOperand, bind_get] at h
  rcases cond_eq_ok h with ⟨-, h⟩ | ⟨-, h⟩
  · obtain ⟨⟨⟨place, tokens⟩, written⟩, c₁, -, h⟩ := bind_eq_ok_iff.1 h
    cases h
    split at he <;> exact he.elim
  rcases cond_eq_ok h with ⟨-, h⟩ | ⟨-, h⟩
  · obtain ⟨mark, c₁, -, h⟩ := bind_eq_ok_iff.1 h
    obtain ⟨operand, c₂, -, h⟩ := bind_eq_ok_iff.1 h
    cases h
    exact he.elim
  cases hu : unaryAt c with
  | some op =>
    rw [hu] at h
    obtain ⟨mark, c₁, hsymbol, h⟩ := bind_eq_ok_iff.1 h
    obtain ⟨operand, c₂, hoperand, h⟩ := bind_eq_ok_iff.1 h
    cases h
    obtain ⟨rfl, -⟩ := he
    exact .inl ⟨mark, operand, c₁, hsymbol, hoperand, rfl⟩
  | none =>
    rw [hu] at h
    obtain ⟨a, c₁, hatom, h⟩ := bind_eq_ok_iff.1 h
    exact .inr ⟨a, c₁, hatom, h⟩

/-- An operand is one without attributes, with those before it. -/
theorem anyOperand_of_ok {braces : Bool} {c c' : Cursor} {e : Expr}
    (h : g.anyOperand braces c = .ok (e, c')) (he : e.Arithmetic) :
    ∃ start c₁ a, attributes c = .ok (start, c₁) ∧ g.bareOperand braces c₁ = .ok (a, c') ∧
      e = a.withAttributes start ∧ a.Arithmetic := by
  obtain ⟨start, c₁, hstart, h⟩ := bind_eq_ok_iff.1 h
  obtain ⟨a, c₂, ha, h⟩ := bind_eq_ok_iff.1 h
  cases h
  refine ⟨start, c₁, a, hstart, ha, rfl, ?_⟩
  unfold Expr.withAttributes at he
  split at he
  · exact he
  · exact he

/-- A conversion makes an operand foreign, and where there is none nothing is read. -/
theorem cast_of_ok {a : Expr} {c c' : Cursor} {found : Option Expr}
    (h : g.cast a c = .ok (found, c')) :
    found = none ∧ c' = c ∨ ∃ b, found = some b ∧ ¬b.Arithmetic := by
  rw [cast, bind_get] at h
  rcases cond_eq_ok h with ⟨-, h⟩ | ⟨-, h⟩
  · cases h
    exact .inl ⟨rfl, rfl⟩
  · rcases cond_eq_ok h with ⟨-, h⟩ | ⟨-, h⟩
    -- after a word and after a colon the conversion goes on alike
    all_goals
      obtain ⟨mark, c₁, -, h⟩ := bind_eq_ok_iff.1 h
      obtain ⟨type, c₂, -, h⟩ := bind_eq_ok_iff.1 h
      rw [bind_get] at h
      cases hcast : afterCast? c₂ with
      | some what => rw [hcast] at h; cases h
      | none =>
        rw [hcast] at h
        cases h
        exact .inr ⟨_, rfl, id⟩

/-- An arithmetic operand has not been converted to a type. -/
theorem converted_of_ok {a b : Expr} {c c' : Cursor} (h : g.converted a c = .ok (b, c'))
    (hb : b.Arithmetic) : b = a ∧ c' = c := by
  have hiterate : ∀ n a c, iterateFrom g.cast n a c = .ok (b, c') → b = a ∧ c' = c := by
    intro n
    induction n with
    | zero => intro a c h; cases h
    | succ n ih =>
      intro a c h
      rw [iterateFrom_succ] at h
      split at h
      · rename_i c₁ hstep
        cases h
        rcases cast_of_ok hstep with ⟨-, rfl⟩ | ⟨b, hb, -⟩
        · exact ⟨rfl, rfl⟩
        · cases hb
      · rename_i a' c₁ hstep
        obtain ⟨rfl, -⟩ := ih a' c₁ h
        rcases cast_of_ok hstep with ⟨hb', -⟩ | ⟨b', hb', hno⟩
        · cases hb'
        · cases hb'
          exact absurd hb hno
      · cases h
  exact hiterate _ a c h

/-! ## Links -/

/-- Every operator that can stand between two operands has a level. -/
theorem level_of_jointAt {c : Cursor} {op : BinaryOp} (h : jointAt c = some (.binary op)) :
    ∃ level ∈ BinaryOp.levels, level.contains op.symbol = true := by
  have hlevels : ∀ s ∈ binaryOperators, ∃ level ∈ BinaryOp.levels,
      level.contains (BinaryOp.ofSymbol s).symbol = true := by decide
  unfold jointAt at h
  split at h
  · cases h
  · split at h
    · rename_i s hs
      obtain rfl : BinaryOp.ofSymbol s = op := by simpa using h
      exact hlevels s (List.mem_of_find?_eq_some hs)
    · split at h <;> cases h

/-- One more link is an operator with its operand or a range; without one, nothing is read. -/
theorem link_cases {braces : Bool} {c c' : Cursor} {l : Option Link}
    (h : g.link braces c = .ok (l, c')) :
    (l = none ∧ c' = c) ∨
    (∃ joint mark operand e c₁ c₂, jointAt c = some joint ∧
      symbol joint.symbol c = .ok (mark, c₁) ∧ g.operand braces c₁ = .ok (operand, c₂) ∧
      g.converted operand c₂ = .ok (e, c') ∧ l = some (joint.link e)) ∨
    ∃ quoted operand, l = some (.loose quoted operand) := by
  rw [link, bind_get] at h
  cases hj : jointAt c with
  | some joint =>
    rw [hj] at h
    obtain ⟨mark, c₁, hsymbol, h⟩ := bind_eq_ok_iff.1 h
    obtain ⟨operand, c₂, hoperand, h⟩ := bind_eq_ok_iff.1 h
    obtain ⟨e, c₃, hconverted, h⟩ := bind_eq_ok_iff.1 h
    cases h
    exact .inr (.inl ⟨joint, mark, operand, e, c₁, c₂, rfl, hsymbol, hoperand, hconverted, rfl⟩)
  | none =>
    rw [hj] at h
    dsimp only at h
    cases hr : rangeAt c with
    | none =>
      rw [hr] at h
      cases h
      exact .inl ⟨rfl, rfl⟩
    | some range =>
      rw [hr] at h
      obtain ⟨_, c₁, -, h⟩ := bind_eq_ok_iff.1 h
      rw [bind_get] at h
      rcases cond_eq_ok h with ⟨-, h⟩ | ⟨-, h⟩
      · cases h
        exact .inr (.inr ⟨_, _, rfl⟩)
      · obtain ⟨operand, c₂, -, h⟩ := bind_eq_ok_iff.1 h
        obtain ⟨e, c₃, -, h⟩ := bind_eq_ok_iff.1 h
        cases h
        exact .inr (.inr ⟨_, _, rfl⟩)

/-- A link with a binary operator is read operator first, then its operand. -/
theorem link_of_ok {braces : Bool} {c c' : Cursor} {op : BinaryOp} {e : Expr}
    (h : g.link braces c = .ok (some (.binary op e), c')) :
    ∃ mark operand c₁ c₂, jointAt c = some (.binary op) ∧ symbol op.symbol c = .ok (mark, c₁) ∧
      g.operand braces c₁ = .ok (operand, c₂) ∧ g.converted operand c₂ = .ok (e, c') := by
  rcases link_cases h with ⟨hnone, -⟩ |
    ⟨joint, mark, operand, e', c₁, c₂, hj, hsymbol, hoperand, hconverted, hlink⟩ |
    ⟨quoted, operand, hlink⟩
  · cases hnone
  · cases joint with
    | assign s => cases hlink
    | binary op' =>
      cases hlink
      exact ⟨mark, operand, c₁, c₂, hj, hsymbol, hoperand, hconverted⟩
  · cases hlink

theorem link_of_none {braces : Bool} {c c' : Cursor} (h : g.link braces c = .ok (none, c')) :
    c' = c := by
  rcases link_cases h with ⟨-, hc⟩ | ⟨_, _, _, _, _, _, -, -, -, -, hlink⟩ | ⟨_, _, hlink⟩
  · exact hc
  · cases hlink
  · cases hlink

/-- One more round of links is none, and nothing is read, or a link and the other ones. -/
theorem manyFrom_link_of_ok {braces : Bool} {n : Nat} {c c' : Cursor}
    {rest : List (BinaryOp × Expr)}
    (h : manyFrom (g.link braces) (n + 1) c = .ok (rest.map fun l => .binary l.1 l.2, c')) :
    (rest = [] ∧ c' = c) ∨
    ∃ op e others c₁, rest = (op, e) :: others ∧
      g.link braces c = .ok (some (.binary op e), c₁) ∧
      manyFrom (g.link braces) n c₁ = .ok (others.map fun l => .binary l.1 l.2, c') := by
  rw [manyFrom_succ] at h
  split at h
  · rename_i c₁ hstep
    obtain ⟨hnil, rfl⟩ := Prod.mk.inj (Except.ok.inj h)
    exact .inl ⟨List.map_eq_nil_iff.1 hnil.symm, link_of_none hstep⟩
  · rename_i l c₁ hstep
    obtain ⟨ls, c₂, hls, h⟩ := bind_eq_ok_iff.1 h
    obtain ⟨hcons, rfl⟩ := Prod.mk.inj (Except.ok.inj h)
    cases rest with
    | nil => cases hcons
    | cons l' others =>
      obtain ⟨rfl, rfl⟩ := List.cons.inj hcons
      exact .inr ⟨l'.1, l'.2, others, c₁, rfl, hstep, hls⟩
  · cases h

/-- An arithmetic expression is the tree of a chain, of which each operator has a level and everything is
arithmetic. -/
theorem anyExpression_of_ok {braces : Bool} {c c' : Cursor} {e : Expr}
    (h : g.anyExpression braces c = .ok (e, c')) (he : e.Arithmetic) :
    ∃ first c₁ rest, g.operand braces c = .ok (first, c₁) ∧
      many (g.link braces) c₁ = .ok (rest.map fun l => .binary l.1 l.2, c') ∧
      (∀ l ∈ rest, ∃ level ∈ BinaryOp.levels, level.contains l.1.symbol = true) ∧
      e = Chain.resolve first rest ∧ first.Arithmetic ∧
      ∀ l ∈ rest, l.1.IsArithmetic ∧ l.2.Arithmetic := by
  have hlevels : ∀ {n c₁} {rest : List (BinaryOp × Expr)},
      manyFrom (g.link braces) n c₁ = .ok (rest.map fun l => .binary l.1 l.2, c') →
        ∀ l ∈ rest, ∃ level ∈ BinaryOp.levels, level.contains l.1.symbol = true := by
    intro n
    induction n with
    | zero => intro c₁ rest h; cases h
    | succ n ih =>
      intro c₁ rest h
      rcases manyFrom_link_of_ok h with ⟨rfl, -⟩ | ⟨op, e, others, c₂, rfl, hlink, hothers⟩
      · intro l hl; cases hl
      · obtain ⟨-, -, -, -, hjoint, -⟩ := link_of_ok hlink
        exact List.forall_mem_cons.2 ⟨level_of_jointAt hjoint, ih hothers⟩
  obtain ⟨first, c₁, hfirst, h⟩ := bind_eq_ok_iff.1 h
  obtain ⟨converted, c₂, hconverted, h⟩ := bind_eq_ok_iff.1 h
  obtain ⟨links, c₃, hlinks, h⟩ := bind_eq_ok_iff.1 h
  cases h
  unfold Chain.toExpr at he ⊢
  split at he
  · rename_i rest hrest
    obtain rfl := Chain.mapM_binary?.1 hrest
    obtain ⟨hc, hrest⟩ := (Chain.resolve_iff (P := Expr.Arithmetic) (fun _ _ _ => Iff.rfl) converted
      (hlevels hlinks)).1 he
    obtain ⟨rfl, rfl⟩ := converted_of_ok hconverted hc
    exact ⟨_, _, rest, hfirst, hlinks, hlevels hlinks, rfl, hc, hrest⟩
  · exact he.elim

/-- All tokens are read, and nothing is stray. -/
theorem whole_eq_ok_iff {α : Type} {r : Reading α} {tokens : List Token} {a : α} :
    whole r tokens = .ok a ↔ r ⟨tokens, none⟩ = .ok (a, ⟨[], none⟩) := by
  constructor
  · intro h
    obtain ⟨⟨a', c⟩, hr, h⟩ := ok_of_bind h
    dsimp only at h
    split at h
    · cases h
    · rename_i hstray
      split at h
      · rename_i hrest
        cases h
        obtain ⟨rest, stray⟩ := c
        obtain rfl : rest = [] := List.isEmpty_iff.1 hrest
        obtain rfl : stray = none := hstray
        exact hr
      · cases h
  · intro h
    rw [whole, h]
    rfl

end Grammar

/-- A text is read as an expression by reading all its tokens. -/
theorem Expr.parse_eq_ok_iff {text : String} {e : Expr} :
    Expr.parse text = .ok e ↔ ∃ lexemes, Scanner.scan text = .ok lexemes ∧
      (Grammar.forTokens (lexemes.map (·.token))).expression true ⟨lexemes.map (·.token), none⟩ =
        .ok (e, ⟨[], none⟩) := by
  rw [Expr.parse]
  cases Scanner.scan text with
  | error p => simp
  | ok lexemes =>
    simp only [Except.ok.injEq, exists_eq_left', ← Grammar.whole_eq_ok_iff]
    split
    · rename_i complaint hwhole
      simp [hwhole]
    · rename_i e' hwhole
      simp [hwhole]

end ReaderGen
