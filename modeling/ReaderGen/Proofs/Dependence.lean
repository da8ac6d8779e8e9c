import ReaderGen.Proofs.Cancellation

/-!
# What an expression depends on

An atom carries the names of its variables beside its text, and no operation looks at both. Here the two
are tied: the names that an atom carries are those of the tree that its text is read as, so the free
variables of an expression are the words of its canonical text. A value is found from the names of a tree
alone, and canonical text has the value of the expression. So the free variables are all that the value
depends on, also where terms that hold other variables have cancelled.

* `Expr.value?_congr`: a value depends only on what the names of the tree stand for.
* `Poly.mem_names_tree`, `Poly.Lowered.mem_vars_iff`: the names in a canonical text are the variables of
  the polynomial.
* `Expr.WellBracketed.ident_mem_tokens_iff`: the words among the tokens of a tree are its names.
* `freeVars_are_dependencies`: the free variables are the words of the canonical text, and the value
  depends on nothing else.
-/

namespace ReaderGen

/-! ## Values -/

/-- Both valuations give a name the same number and the same array. -/
def Valuation.Agree (v w : Valuation) (x : String) : Prop :=
  v.var x = w.var x ∧ v.array x = w.array x

namespace Expr

/-- The array at which a place is found is named in the expression. -/
theorem mem_names_of_place? {e : Expr} {v : Valuation} {id : String} {indices : List Int}
    (h : e.place? v = some (id, indices)) : id ∈ e.names := by
  induction e generalizing indices with
  | name x =>
    cases h
    exact .head _
  | index array subscript iha _ =>
    obtain ⟨⟨id', before⟩, hplace, h⟩ := Option.bind_eq_some_iff.1 h
    obtain ⟨i, -, h⟩ := Option.bind_eq_some_iff.1 h
    cases h
    exact List.mem_append_left _ (iha hplace)
  | paren inner ih => exact ih h
  | attributed attributes inner ih => exact ih h
  | _ => cases h

/-- Valuations that agree on the names of an expression give it the same value and the same place. -/
theorem value?_congr {e : Expr} {v w : Valuation} (h : ∀ x ∈ e.names, v.Agree w x) :
    e.value? v = e.value? w ∧ e.place? v = e.place? w := by
  induction e with
  | name id => exact ⟨congrArg some (h id (.head _)).1, rfl⟩
  | index array subscript iha ihi =>
    obtain ⟨-, hplace⟩ := iha fun x hx => h x (List.mem_append_left _ hx)
    obtain ⟨hvalue, -⟩ := ihi fun x hx => h x (List.mem_append_right _ hx)
    rw [value?, value?, place?, place?, hplace, hvalue]
    refine ⟨?_, rfl⟩
    cases hat : array.place? w with
    | none => rfl
    | some place =>
      obtain ⟨id, indices⟩ := place
      have hid : id ∈ (index array subscript).names :=
        List.mem_append_left _ (mem_names_of_place? hat)
      simp only [Option.bind_eq_bind, Option.bind_some, (h id hid).2]
  | paren inner ih => exact ih h
  | group inner ih => exact ⟨(ih h).1, rfl⟩
  | unary op operand ih =>
    refine ⟨?_, rfl⟩
    cases op with
    | neg => rw [value?, value?, (ih h).1]
    | not | deref => rfl
  | binary op left right ihl ihr =>
    refine ⟨?_, rfl⟩
    rw [value?, value?, (ihl fun x hx => h x (List.mem_append_left _ hx)).1,
      (ihr fun x hx => h x (List.mem_append_right _ hx)).1]
  | attributed attributes inner ih => exact ih h
  | int n text | literal text | path tokens | foreign shape tokens => exact ⟨rfl, rfl⟩

/-! ## Names among the parts of a tree -/

theorem mem_names_iff {e : Expr} {x : String} : x ∈ e.names ↔ .name x ∈ e.nodes := by
  induction e with
  | name id => simp [names, nodes]
  | _ => simp_all [names, nodes]

theorem everywhere_ne_name {e : Expr} {x : String} :
    e.Everywhere (· ≠ .name x) ↔ x ∉ e.names := by
  rw [mem_names_iff]
  exact ⟨fun h hx => h _ hx rfl, fun h n hn heq => h (heq ▸ hn)⟩

theorem neutral_ne_name (x : String) : Neutral (· ≠ .name x) where
  zero := by simp [number]
  one := by simp [number]
  paren _ := by simp
  neg _ := by simp
  add _ _ := by simp
  sub _ _ := by simp
  mul _ _ := by simp

end Expr

namespace Poly

/-- A name in the tree of a polynomial is one in the tree of an atom. -/
theorem mem_names_tree {p : Poly} {x : String} :
    x ∈ p.tree.names ↔ ∃ t ∈ p.terms, ∃ a ∈ t.monomial.factors, x ∈ a.tree.names := by
  have hneutral := Expr.neutral_ne_name x
  have hterms : (∀ t ∈ p.terms, t.Everywhere (· ≠ .name x)) ↔
      ∀ t ∈ p.terms, ∀ a ∈ t.monomial.factors, x ∉ a.tree.names := by
    simp only [Term.Everywhere, Expr.everywhere_ne_name, Expr.number, ne_eq, reduceCtorEq,
      not_false_eq_true, true_and]
  rw [← not_iff_not, ← Expr.everywhere_ne_name]
  simp only [not_exists, not_and]
  rw [← hterms]
  exact ⟨everywhere_of_tree hneutral (fun _ _ _ _ => by simp),
    everywhere_tree hneutral fun _ _ _ _ => by simp⟩

theorem mem_names_operandTree {p : Poly} {x : String} :
    x ∈ p.operandTree.names ↔ x ∈ p.tree.names := by
  rw [operandTree]
  split
  · rfl
  · rfl

/-- If each atom carries the names of its tree, so does the polynomial. -/
theorem mem_vars_iff_of_atoms {p : Poly} {x : String}
    (h : p.All fun a => x ∈ a.vars ↔ x ∈ a.tree.names) : x ∈ p.vars ↔ x ∈ p.tree.names := by
  rw [mem_vars, mem_names_tree]
  constructor
  · rintro ⟨t, ht, a, ha, hx⟩
    exact ⟨t, ht, a, ha, (h t ht a ha).1 hx⟩
  · rintro ⟨t, ht, a, ha, hx⟩
    exact ⟨t, ht, a, ha, (h t ht a ha).2 hx⟩

end Poly

/-- The names that an atom carries are those of the tree that its text is read as. -/
theorem Atom.Lowered.mem_vars_iff {a : Atom} (h : a.Lowered) {x : String} :
    x ∈ a.vars ↔ x ∈ a.tree.names := by
  induction h with
  | var hy =>
    rw [tree_var hy]
    simp [Atom.var, Expr.names]
  | @subscript a i ha hc hi _ iha ihi =>
    rw [tree_subscript ha hc hi, Expr.names, List.mem_append, ← iha,
      ← Poly.mem_vars_iff_of_atoms ihi]
    exact Names.mem_union
  | @division part p q hp hq _ _ _ ihp ihq =>
    rw [tree_division hp hq, Expr.names, List.mem_append, Poly.mem_names_operandTree,
      Poly.mem_names_operandTree, ← Poly.mem_vars_iff_of_atoms ihp, ← Poly.mem_vars_iff_of_atoms ihq]
    exact Names.mem_union

theorem Poly.Lowered.mem_vars_iff {p : Poly} (h : p.Lowered) {x : String} :
    x ∈ p.vars ↔ x ∈ p.tree.names :=
  mem_vars_iff_of_atoms fun t ht a ha => (h.atoms t ht a ha).mem_vars_iff

/-! ## Words of a text -/

theorem Token.ident_not_mem_symbol (x s : String) : Token.ident x ∉ Token.symbol s := by
  have hchars : ∀ cs, Token.ident x ∉ Token.symbolOfChars cs := by
    intro cs
    induction cs with
    | nil => exact List.not_mem_nil
    | cons c cs ih => cases cs <;> simp_all [Token.symbolOfChars]
  exact hchars _

/-- The words among the tokens of an arithmetic expression are its names. -/
theorem Expr.WellBracketed.ident_mem_tokens_iff {e : Expr} (h : e.WellBracketed) {x : String} :
    .ident x ∈ e.tokens ↔ x ∈ e.names := by
  induction e with
  | int n text => simp [tokens, names]
  | name id => simp [tokens, names]
  | index array subscript iha ihi =>
    simp [tokens, names, Token.bracketed, iha h.1, ihi h.2.2]
  | paren inner ih => simp [tokens, names, Token.bracketed, ih h]
  | unary op operand ih => simp [tokens, names, Token.ident_not_mem_symbol, ih h.2.1]
  | binary op left right ihl ihr =>
    simp [tokens, names, Token.ident_not_mem_symbol, ihl h.1, ihr h.2.1]
  | _ => exact h.elim

theorem Poly.Lowered.words_text {p : Poly} (h : p.Lowered) :
    ∃ lexemes, Scanner.scan p.text = .ok lexemes ∧
      ∀ x, x ∈ p.vars ↔ .ident x ∈ lexemes.map (·.token) := by
  have hbracketed := bracketed_tree h.legible
  obtain ⟨lexemes, hscan, htokens⟩ := Expr.scan_spelled hbracketed
  rw [spelled_tree h.legible] at hscan
  refine ⟨lexemes, hscan, fun x => ?_⟩
  rw [htokens, hbracketed.ident_mem_tokens_iff, h.mem_vars_iff]

/-! ## Free variables -/

/-- The free variables of a text are the words of its canonical text, and where both have a value,
valuations that agree on them give the text the same value. -/
theorem freeVars_are_dependencies {text s : String} {vars : Names} (hvars : freeVars text = .ok vars)
    (hs : simplify text = .ok s) :
    (∃ lexemes, Scanner.scan s = .ok lexemes ∧
      ∀ x, x ∈ vars ↔ .ident x ∈ lexemes.map (·.token)) ∧
    ∀ v w : Valuation, (∀ x ∈ vars, v.Agree w x) → ∀ a b, textValue? v text = some a →
      textValue? w text = some b → a = b := by
  obtain ⟨p, hp, hvars⟩ := ok_of_bind hvars
  obtain ⟨q, hq, hs⟩ := ok_of_bind hs
  obtain rfl : p = q := Except.ok.inj (hp.symm.trans hq)
  obtain rfl : p.vars = vars := Except.ok.inj hvars
  obtain rfl : p.text = s := Except.ok.inj hs
  have hlowered := lowered_of_polynomialOf hp
  refine ⟨hlowered.words_text, fun v w hagree a b ha hb => ?_⟩
  obtain ⟨e, he, hrenders⟩ := renders_polynomialOf hp
  rw [textValue?_of_parse he] at ha hb
  -- the canonical text has both values, and names nothing on which the valuations differ
  have htree : p.tree.value? v = p.tree.value? w :=
    (Expr.value?_congr fun x hx => hagree x (hlowered.mem_vars_iff.2 hx)).1
  rw [hrenders.value?_tree ha, hrenders.value?_tree hb] at htree
  exact Option.some.inj htree

/-- The products cancel, a subscript and a divisor are left. -/
def cancelledProducts : String := "A[i] - K * Q + N / (M + 1) + Q * K"

theorem freeVars_are_dependencies_cancelled :
    freeVars cancelledProducts = .ok (.ofList ["A", "M", "N", "i"]) ∧
      simplify cancelledProducts = .ok "A[i] + N / (M + 1)" ∧
      ∀ v : Valuation, (∀ x ∈ Names.ofList ["A", "M", "N", "i"], v.Agree ⟨fun _ => 7, fun _ _ => 9⟩ x) →
        ∀ a, textValue? v cancelledProducts = some a → a = 9 := by
  have hvars : freeVars cancelledProducts = .ok (.ofList ["A", "M", "N", "i"]) :=
    ok_of_toOption (by decide +kernel)
  have hs : simplify cancelledProducts = .ok "A[i] + N / (M + 1)" :=
    ok_of_toOption (by decide +kernel)
  have hvalue : textValue? ⟨fun _ => 7, fun _ _ => 9⟩ cancelledProducts = some 9 := by decide +kernel
  exact ⟨hvars, hs, fun v hv a ha =>
    (freeVars_are_dependencies hvars hs).2 v _ hv a 9 ha hvalue⟩

end ReaderGen
