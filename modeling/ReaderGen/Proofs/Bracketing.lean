import ReaderGen.Proofs.Assembly

/-!
# Reading back an expression that has its brackets

An arithmetic tree in which every operand that needs brackets has them is read back from its own
tokens. `Expr.WellBracketed` says where brackets are needed: on the left of an operator stands
nothing looser than it, on its right only what is tighter, before a subscript only what holds
together without an operator.

* `Chain.resolve_spine`: the operands of such a tree, joined by its operators, are the tree again.
* `Grammar.anyOperand_reads`, `Grammar.anyExpression_reads`: the rules read the tree, whatever follows
  where it stops.
* `Grammar.ofDepth_reads`: a grammar of depth `n` reads operands of up to `n` tokens.
* `Grammar.whole_reads`: the whole of its tokens is read as the tree.
-/

namespace ReaderGen

/-- A word that names a variable: one word for the scanner, and not a reserved one. -/
def Word.IsVariable (w : String) : Prop :=
  Scanner.identAt w.toList = some w.toList ∧ Word.isSegment w = true

instance (w : String) : Decidable (Word.IsVariable w) := inferInstanceAs (Decidable (_ ∧ _))

/-- How loosely an operator binds: 2 for products, 3 for sums. -/
def BinaryOp.level : BinaryOp → Nat
  | mul | div | rem => 2
  | add | sub => 3
  | other _ => 4

namespace Expr

/-- How loosely an expression holds together: 0 if a subscript may follow it, 1 with a sign before
it, else the level of its operator. -/
def level : Expr → Nat
  | unary _ _ => 1
  | binary op _ _ => op.level
  | _ => 0

/-- The tree is arithmetic, and has brackets wherever reading its tokens would else give another
tree. Integers are written in decimal. -/
def WellBracketed : Expr → Prop
  | int n text => text = toString n
  | name id => Word.IsVariable id
  | index array subscript => array.WellBracketed ∧ array.level = 0 ∧ subscript.WellBracketed
  | paren inner => inner.WellBracketed
  | unary op operand => op = .neg ∧ operand.WellBracketed ∧ operand.level = 0
  | binary op left right =>
    left.WellBracketed ∧ right.WellBracketed ∧ left.level ≤ op.level ∧ right.level < op.level ∧
      op.level ≤ 3
  | _ => False

theorem WellBracketed.level_le {e : Expr} (h : e.WellBracketed) : e.level ≤ 3 := by
  cases e with
  | binary op left right => exact h.2.2.2.2
  | unary op operand => exact Nat.le_succ_of_le (Nat.le_succ 1)
  | _ => exact Nat.zero_le 3

/-! ## Spines -/

/-- The first operand of a chain of operators. -/
def first : Expr → Expr
  | binary _ left _ => left.first
  | e => e

/-- The operators of a chain, each with the operand after it. -/
def links : Expr → List (BinaryOp × Expr)
  | binary op left right => left.links ++ (op, right.first) :: right.links
  | _ => []

/-- The first summand. -/
def addend : Expr → Expr
  | binary op left right => if op.level = 3 then left.addend else binary op left right
  | e => e

/-- The other summands, each with the operator before it. -/
def addends : Expr → List (BinaryOp × Expr)
  | binary op left right => if op.level = 3 then left.addends ++ [(op, right)] else []
  | _ => []

theorem first_of_level {e : Expr} (h : e.level ≤ 1) : e.first = e ∧ e.links = [] := by
  cases e with
  | binary op left right => cases op <;> simp [level, BinaryOp.level] at h
  | _ => exact ⟨rfl, rfl⟩

theorem tokens_eq_spine (e : Expr) : e.tokens =
    e.first.tokens ++ e.links.flatMap fun l => Token.symbol l.1.symbol ++ l.2.tokens := by
  induction e with
  | binary op left right ihl ihr =>
    simp only [tokens, first, links, List.flatMap_append, List.flatMap_cons]
    rw [ihl, ihr]
    simp only [List.append_assoc]
  | _ => simp [first, links]

theorem WellBracketed.first {e : Expr} (h : e.WellBracketed) :
    e.first.WellBracketed ∧ e.first.level ≤ 1 := by
  induction e with
  | binary op left right ihl _ => exact ihl h.1
  | unary op operand => exact ⟨h, Nat.le_refl 1⟩
  | _ => exact ⟨h, Nat.zero_le 1⟩

theorem WellBracketed.links {e : Expr} (h : e.WellBracketed) : ∀ l ∈ e.links,
    l.1.level ≤ 3 ∧ l.2.WellBracketed ∧ l.2.level ≤ 1 := by
  induction e with
  | binary op left right ihl ihr =>
    obtain ⟨hl, hr, -, -, ho⟩ := h
    intro l hmem
    simp only [Expr.links, List.mem_append, List.mem_cons] at hmem
    rcases hmem with hmem | rfl | hmem
    · exact ihl hl l hmem
    · exact ⟨ho, hr.first⟩
    · exact ihr hr l hmem
  | _ => intro l hl; cases hl

end Expr

/-! ## Resolving a spine -/

namespace Chain

open ReaderGen.Expr

/-- The level of products, as `BinaryOp.levels` has it. -/
theorem contains_products {op : BinaryOp} (h : op.level ≤ 3) :
    ["*", "/", "%"].contains op.symbol = decide (op.level = 2) := by
  cases op <;> first | rfl | simp [BinaryOp.level] at h

theorem contains_sums {op : BinaryOp} (h : op.level = 3) :
    ["+", "-"].contains op.symbol = true := by
  cases op <;> first | rfl | simp [BinaryOp.level] at h

/-- A product comes out of its spine, whatever follows it. -/
theorem mergeLevel_product {e : Expr} (h : e.WellBracketed) (hl : e.level ≤ 2)
    (rest : List (BinaryOp × Expr)) :
    mergeLevel ["*", "/", "%"] e.first (e.links ++ rest) = mergeLevel ["*", "/", "%"] e rest := by
  induction e generalizing rest with
  | binary op left right ihl _ =>
    obtain ⟨hleft, -, hll, hrl, ho⟩ := h
    simp only [level] at hl
    obtain ⟨hf, hk⟩ := first_of_level (show right.level ≤ 1 by omega)
    have h2 : op.level = 2 := by cases op <;> simp_all [BinaryOp.level]
    rw [links, first, hf, hk, List.append_assoc, ihl hleft (by omega), List.cons_append,
      mergeLevel, contains_products ho, h2]
    rfl
  | _ => rfl

/-- What is left of the links after a sum, once products are merged. -/
def mergeRest : List (BinaryOp × Expr) → List (BinaryOp × Expr)
  | [] => []
  | (op, x) :: rest =>
    (op, (mergeLevel ["*", "/", "%"] x rest).1) :: (mergeLevel ["*", "/", "%"] x rest).2

theorem mergeLevel_of_sum (e : Expr) {rest : List (BinaryOp × Expr)}
    (h : ∀ l ∈ rest.head?, l.1.level = 3) :
    mergeLevel ["*", "/", "%"] e rest = (e, mergeRest rest) := by
  cases rest with
  | nil => rfl
  | cons l rest =>
    obtain ⟨op, x⟩ := l
    have h3 : op.level = 3 := h (op, x) rfl
    rw [mergeLevel, contains_products (by omega), h3]
    rfl

/-- Merging products leaves the summands. -/
theorem mergeLevel_summands {e : Expr} (h : e.WellBracketed) (rest : List (BinaryOp × Expr))
    (hr : ∀ l ∈ rest.head?, l.1.level = 3) :
    mergeLevel ["*", "/", "%"] e.first (e.links ++ rest) =
      (e.addend, e.addends ++ mergeRest rest) := by
  induction e generalizing rest with
  | binary op left right ihl _ =>
    have hwb := h
    obtain ⟨hleft, hright, -, hrl, ho⟩ := h
    by_cases h3 : op.level = 3
    · have hp : mergeLevel ["*", "/", "%"] right.first (right.links ++ rest) =
          (right, mergeRest rest) := by
        rw [mergeLevel_product hright (by omega), mergeLevel_of_sum right hr]
      rw [links, first, List.append_assoc, List.cons_append,
        ihl hleft ((op, right.first) :: (right.links ++ rest)) (by simpa using h3), mergeRest, hp,
        addend, addends, if_pos h3, if_pos h3, List.append_assoc]
      rfl
    · have hl : (binary op left right).level ≤ 2 := by
        simp only [level]; omega
      rw [mergeLevel_product hwb hl, mergeLevel_of_sum _ hr, addend, addends, if_neg h3, if_neg h3]
      rfl
  | _ => exact mergeLevel_of_sum _ hr

/-- A sum comes out of its summands. -/
theorem mergeLevel_sum (e : Expr) (rest : List (BinaryOp × Expr)) :
    mergeLevel ["+", "-"] e.addend (e.addends ++ rest) = mergeLevel ["+", "-"] e rest := by
  induction e generalizing rest with
  | binary op left right ihl _ =>
    by_cases h3 : op.level = 3
    · rw [addend, addends, if_pos h3, if_pos h3, List.append_assoc, ihl, List.cons_append,
        mergeLevel, contains_sums h3]
      rfl
    · rw [addend, addends, if_neg h3, if_neg h3]
      rfl
  | _ => rfl

/-- A tree with its brackets is the tree of its spine. -/
theorem resolve_spine {e : Expr} (h : e.WellBracketed) : resolve e.first e.links = e := by
  have h1 := mergeLevel_summands h [] (by simp)
  have h2 := mergeLevel_sum e []
  simp only [List.append_nil, mergeRest, mergeLevel_nil] at h1 h2
  simp only [resolve, BinaryOp.levels, List.foldl_cons, List.foldl_nil, h1, h2, mergeLevel_nil]

theorem toExpr_spine {e : Expr} (h : e.WellBracketed) :
    toExpr e.first (e.links.map fun l => .binary l.1 l.2) = e := by
  have hm : ∀ ls : List (BinaryOp × Expr),
      (ls.map fun l => Link.binary l.1 l.2).mapM Link.binary? = some ls := by
    intro ls
    induction ls with
    | nil => rfl
    | cons l ls ih => simp [List.mapM_cons, ih, Link.binary?]
  rw [toExpr, hm]
  exact resolve_spine h

end Chain

/-! ## How an expression begins -/

theorem Expr.WellBracketed.head {e : Expr} (h : e.WellBracketed) :
    ∃ t ts, e.tokens = t :: ts ∧ Grammar.Begins t := by
  induction e with
  | int n text => exact ⟨_, _, rfl, trivial⟩
  | name w => exact ⟨_, _, rfl, h.2⟩
  | paren inner => exact ⟨_, _, rfl, trivial⟩
  | index array subscript ih _ =>
    obtain ⟨t, ts, ht, hb⟩ := ih h.1
    exact ⟨t, _, by rw [tokens, ht, List.cons_append], hb⟩
  | unary op operand =>
    obtain ⟨rfl, -, -⟩ := h
    exact ⟨.punct '-' false, _, rfl, rfl⟩
  | binary op left right ihl _ =>
    obtain ⟨t, ts, ht, hb⟩ := ihl h.1
    exact ⟨t, _, by rw [tokens, ht, List.cons_append, List.cons_append], hb⟩
  | _ => exact h.elim

/-! ## Operands -/

namespace Grammar

open Reading

/-- The grammar reads every expression that has fewer than `n` tokens. -/
def ReadsWithin (g : Grammar) (n : Nat) : Prop :=
  ∀ e : Expr, e.WellBracketed → e.tokens.length < n → ReadsAs g.expression Halts e e.tokens

/-- The grammar reads every operand that has at most `n` tokens. -/
def ReadsOperands (g : Grammar) (n : Nat) : Prop :=
  ∀ e : Expr, e.WellBracketed → e.level ≤ 1 → e.tokens.length ≤ n →
    ReadsAs g.operand Stops e e.tokens

variable {g : Grammar}

/-- An operand without a sign is an atom with its subscripts. -/
theorem atom_reads {n : Nat} (hg : g.ReadsWithin n) {e : Expr} (he : e.WellBracketed)
    (hl : e.level = 0) (hn : e.tokens.length ≤ n + 1) :
    ∃ a t u v, e.tokens = t :: u ++ v ∧ Begins t ∧ (∀ c b, t ≠ .punct c b) ∧
      ReadsAs g.atom Follows a (t :: u) ∧ TrailersRead g a e v := by
  induction e with
  | int m text => exact ⟨_, _, [], [], rfl, trivial, by simp, g.atom_int m text, .nil _⟩
  | name w => exact ⟨_, _, [], [], rfl, he.2, by simp, g.atom_word he.2, .nil _⟩
  | paren inner =>
    simp only [Expr.tokens, Token.bracketed, List.length_append, List.length_cons, List.length_nil,
      List.cons_append] at hn
    have hin : ∀ ts stray, Cursor.atEnd ⟨inner.tokens ++ ts, stray⟩ = false := by
      obtain ⟨t, us, ht, hb⟩ := Expr.WellBracketed.head (e := inner) he
      intro ts stray
      rw [ht]
      cases t with
      | closing b => exact hb.elim
      | _ => rfl
    exact ⟨_, .opening .round, inner.tokens ++ [.closing .round], [], (List.append_nil _).symm, trivial, by simp,
      atom_round (hg inner he (by omega)) hin, .nil _⟩
  | index array subscript ih _ =>
    obtain ⟨ha, hal, hi⟩ := he
    simp only [Expr.tokens, Token.bracketed, List.length_append, List.length_cons, List.length_nil]
      at hn
    obtain ⟨a, t, u, v, ht, hb, hp, hatom, htrailers⟩ := ih ha hal (by omega)
    exact ⟨a, t, u, v ++ Token.bracketed .square subscript.tokens,
      by rw [Expr.tokens, ht, List.append_assoc], hb, hp, hatom,
      htrailers.trans (.single array (hg subscript hi (by omega)))⟩
  | unary op operand => cases hl
  | binary op left right => cases op <;> cases hl
  | _ => exact he.elim

theorem anyOperand_reads {n : Nat} (hg : g.ReadsWithin n) (ho : g.ReadsOperands n) {e : Expr}
    (he : e.WellBracketed) (hl : e.level ≤ 1) (hn : e.tokens.length ≤ n + 1) :
    ReadsAs g.anyOperand Stops e e.tokens := by
  by_cases h0 : e.level = 0
  · obtain ⟨a, t, u, v, ht, hb, hp, hatom, htrailers⟩ := atom_reads hg he h0 hn
    rw [ht]
    exact anyOperand_plain hb (bareOperand_trailers hb hp hatom htrailers)
  · cases e with
    | unary op operand =>
      obtain ⟨rfl, hw, hl'⟩ := he
      have ht : (Expr.unary .neg operand).tokens = .punct '-' false :: operand.tokens := rfl
      rw [ht, List.length_cons] at hn
      rw [ht]
      exact anyOperand_plain rfl (bareOperand_neg false (ho operand hw (by omega) (by omega)))
    | binary op left right => cases op <;> simp [Expr.level, BinaryOp.level] at hl
    | _ => exact absurd rfl h0

/-! ## Chains -/

/-- An arithmetic operator is one token, which joins what stands around it. -/
theorem jointAt_operator {op : BinaryOp} (h : op.level ≤ 3) : ∃ ch ∈ signs,
    op.symbol.toList = [ch] ∧ ∀ (ts : List Token) (stray : Option Complaint),
      jointAt ⟨.punct ch false :: ts, stray⟩ = some (.binary op) := by
  cases op with
  | add => exact ⟨'+', by decide, rfl, fun _ _ => rfl⟩
  | sub => exact ⟨'-', by decide, rfl, fun _ _ => rfl⟩
  | mul => exact ⟨'*', by decide, rfl, fun _ _ => rfl⟩
  | div => exact ⟨'/', by decide, rfl, fun _ _ => rfl⟩
  | rem => exact ⟨'%', by decide, rfl, fun _ _ => rfl⟩
  | other s => simp [BinaryOp.level] at h

/-- The tokens of links. -/
def linkTokens (links : List (BinaryOp × Expr)) : List Token :=
  links.flatMap fun l => Token.symbol l.1.symbol ++ l.2.tokens

theorem links_read {n : Nat} (ho : g.ReadsOperands n) {links : List (BinaryOp × Expr)}
    (hl : ∀ l ∈ links, l.1.level ≤ 3 ∧ l.2.WellBracketed ∧ l.2.level ≤ 1)
    (hn : (linkTokens links).length ≤ n) :
    LinksRead g (links.map fun l => .binary l.1 l.2) (linkTokens links) := by
  induction links with
  | nil => exact .nil
  | cons l links ih =>
    obtain ⟨⟨hop, hw, hlev⟩, hrest⟩ := List.forall_mem_cons.1 hl
    obtain ⟨ch, hmem, hch, hat⟩ := jointAt_operator hop
    have hsplit : linkTokens (l :: links) =
        .punct ch false :: l.2.tokens ++ linkTokens links := by
      rw [linkTokens, List.flatMap_cons, Token.symbol, hch]
      rfl
    rw [hsplit, List.length_append, List.length_cons] at hn
    rw [hsplit]
    exact .cons hmem (link_operand hch (fun rest => hat _) (ho l.2 hw hlev (by omega)))
      (ih hrest (by omega))

theorem anyExpression_reads {n : Nat} (ho : g.ReadsOperands n) {e : Expr} (he : e.WellBracketed)
    (hn : e.tokens.length ≤ n) : ReadsAs g.anyExpression Halts e e.tokens := by
  obtain ⟨hfirst, hlevel⟩ := he.first
  have ht : e.tokens = e.first.tokens ++ linkTokens e.links := e.tokens_eq_spine
  rw [ht, List.length_append] at hn
  have hread := anyExpression_links (ho e.first hfirst hlevel (by omega))
    (links_read ho he.links (by omega))
  rwa [Chain.toExpr_spine he, ← ht] at hread

/-! ## Whole expressions -/

/-- Each further depth of the grammar reads operands with one more token. -/
theorem ofDepth_reads (n : Nat) : (ofDepth n).ReadsOperands n ∧ (ofDepth n).ReadsWithin n := by
  induction n with
  | zero =>
    refine ⟨fun e he _ hn => ?_, fun e _ hn => absurd hn (by omega)⟩
    obtain ⟨t, ts, ht, -⟩ := he.head
    rw [ht] at hn
    simp at hn
  | succ n ih =>
    obtain ⟨ho, hg⟩ := ih
    refine ⟨fun e he hl hn => ?_, fun e he hn => ?_⟩
    · exact anyOperand_reads hg ho he hl hn
    · exact anyExpression_reads ho he (by omega)

/-- The whole of the tokens of a tree with its brackets is read as that tree. -/
theorem whole_reads {e : Expr} (he : e.WellBracketed) :
    whole ((forTokens e.tokens).expression true) e.tokens = .ok e := by
  have hread := (ofDepth_reads (depthFor e.tokens)).2 e he (by rw [depthFor]; omega) true [] none
    trivial trivial
  rw [List.append_nil] at hread
  rw [whole, forTokens, hread]
  rfl

end Grammar

end ReaderGen
