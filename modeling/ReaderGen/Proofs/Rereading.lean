import ReaderGen.Format.Variables
import ReaderGen.Proofs.Description
import ReaderGen.Proofs.Relowering

/-!
# Reading canonical texts again

The sizes and indices of a format, and the bases of its arrays, are canonical texts that later stages
read again. Results that do not fit and divisions by zero apart, only one thing can be wrong with them: the
size of the least 64-bit integer is no 64-bit integer, so that a text in which it is written cannot be
read.

* `Expr.refusal_of_plain`, `CanonicalText.refused`: why a canonical text is refused.
* `Format.error_of_addVariables`, `Format.error_of_visit`: which texts the errors of the later stages
  come from.
* `parse_error_of_rereading`: when a format that was read from a text fails to be read again.
-/

namespace ReaderGen

/-! ## Why a canonical text is refused -/

namespace Expr

/-- A variable, with or without subscripts. -/
def isPlace : Expr → Bool
  | name _ => true
  | index _ _ => true
  | _ => false

/-- What holds of every part of a canonical text: a number is at most the size of the least 64-bit
integer, and only variables are subscripted. -/
def Plain : Expr → Prop
  | int n _ => n ≤ 9223372036854775808
  | index array _ => array.isPlace = true
  | _ => True

theorem neutral_plain : Neutral Plain where
  zero := Nat.zero_le _
  one := by show 1 ≤ 9223372036854775808; omega
  paren _ := trivial
  neg _ := trivial
  add _ _ := trivial
  sub _ _ := trivial
  mul _ _ := trivial

/-- The expression is too large: a result does not fit, something is divided by zero, or the size of
the least 64-bit integer is written in it. -/
def Unfit (e : Expr) (refusal : Refusal) : Prop :=
  refusal = .overflow ∨ refusal = .divisionByZero ∨
    refusal = .literalTooLarge ∧ ∃ word, .int 9223372036854775808 word ∈ e.nodes

theorem Unfit.of_nodes {e e' : Expr} {refusal : Refusal} (h : e'.Unfit refusal)
    (hn : ∀ x ∈ e'.nodes, x ∈ e.nodes) : e.Unfit refusal := by
  rcases h with h | h | ⟨h, word, hword⟩
  · exact .inl h
  · exact .inr (.inl h)
  · exact .inr (.inr ⟨h, word, hn _ hword⟩)

end Expr

theorem orOverflow_eq_error {α : Type} {r : Option α} {refusal : Refusal}
    (h : orOverflow r = .error refusal) : refusal = .overflow := by
  cases r with
  | none => cases h; rfl
  | some a => cases h

theorem Division.apply_eq_error {part : Division} {p q : Poly} {refusal : Refusal}
    (h : part.apply p q = .error refusal) : refusal = .overflow ∨ refusal = .divisionByZero := by
  unfold apply at h
  split at h
  · cases h
    exact .inr rfl
  · exact .inl (orOverflow_eq_error h)
  · cases part <;> cases h
  · cases h

theorem BinaryOp.apply_eq_error {op : BinaryOp} (hop : op.level ≤ 3) {p q : Poly}
    {refusal : Refusal} (h : op.apply p q = .error refusal) :
    refusal = .overflow ∨ refusal = .divisionByZero := by
  cases op with
  | add => exact .inl (orOverflow_eq_error h)
  | sub => exact .inl (orOverflow_eq_error h)
  | mul => exact .inl (orOverflow_eq_error h)
  | div => exact Division.apply_eq_error h
  | rem => exact Division.apply_eq_error h
  | other s => exact absurd hop (by simp [level])

namespace Expr

theorem refusal_of_plain {e : Expr} (hw : e.WellBracketed) (hp : e.Everywhere Plain) :
    (∀ r, e.toPoly = .error r → e.Unfit r) ∧
      (e.isPlace = true → ∀ r, e.toAtom = .error r → e.Unfit r) := by
  induction e with
  | int n text =>
    refine ⟨fun r h => ?_, fun hplace => by cases hplace⟩
    have hn : n ≤ 9223372036854775808 := (everywhere_leaf rfl).1 hp
    rw [toPoly] at h
    split at h
    · cases h
    · rename_i hfits
      cases h
      -- it does not fit, so it is the one that is too large by one
      obtain rfl : n = 9223372036854775808 := by
        by_contra hne
        have := fits?_eq_some_iff.2 ⟨rfl, show Fits n by unfold Fits; omega⟩
        rw [this] at hfits
        cases hfits
      exact .inr (.inr ⟨rfl, text, .head _⟩)
  | name id =>
    constructor
    · intro r h; cases h
    · intro _ r h; cases h
  | index array subscript iha ihi =>
    obtain ⟨hwa, -, hwi⟩ := hw
    obtain ⟨hplace, hpa, hpi⟩ := everywhere_index.1 hp
    have ha : ∀ r, array.toAtom = .error r → (index array subscript).Unfit r :=
      fun r h => ((iha hwa hpa).2 hplace r h).of_nodes fun x hx => .tail _ (List.mem_append_left _ hx)
    have hi : ∀ r, subscript.toPoly = .error r → (index array subscript).Unfit r :=
      fun r h => ((ihi hwi hpi).1 r h).of_nodes fun x hx => .tail _ (List.mem_append_right _ hx)
    -- the atom and the polynomial fail alike
    have hfail : ∀ {β : Type} (make : Atom → Poly → β) (r : Refusal), (do
        let a ← array.toAtom
        let i ← subscript.toPoly
        return make a i : Except Refusal β) = .error r → (index array subscript).Unfit r := by
      intro β make r h
      rcases error_of_bind h with h | ⟨a, -, h⟩
      · exact ha r h
      · rcases error_of_bind h with h | ⟨i, -, h⟩
        · exact hi r h
        · cases h
    exact ⟨fun r h => hfail _ r h, fun _ r h => hfail _ r h⟩
  | paren inner ih =>
    refine ⟨fun r h => ?_, fun hplace => by cases hplace⟩
    exact ((ih hw (everywhere_paren.1 hp).2).1 r h).of_nodes fun x hx => .tail _ hx
  | unary op operand ih =>
    obtain ⟨rfl, hwo, -⟩ := hw
    refine ⟨fun r h => ?_, fun hplace => by cases hplace⟩
    rcases error_of_bind h with h | ⟨p, -, h⟩
    · exact ((ih hwo (everywhere_unary.1 hp).2).1 r h).of_nodes fun x hx => .tail _ hx
    · exact .inl (orOverflow_eq_error h)
  | binary op left right ihl ihr =>
    obtain ⟨hwl, hwr, -, -, hop⟩ := hw
    obtain ⟨-, hpl, hpr⟩ := everywhere_binary.1 hp
    refine ⟨fun r h => ?_, fun hplace => by cases hplace⟩
    rcases error_of_bind h with h | ⟨p, -, h⟩
    · exact ((ihl hwl hpl).1 r h).of_nodes fun x hx => .tail _ (List.mem_append_left _ hx)
    · rcases error_of_bind h with h | ⟨q, -, h⟩
      · exact ((ihr hwr hpr).1 r h).of_nodes fun x hx => .tail _ (List.mem_append_right _ hx)
      · rcases BinaryOp.apply_eq_error hop h with h | h
        · exact .inl h
        · exact .inr (.inl h)
  | literal text | path tokens | group inner | attributed attributes inner | foreign shape tokens =>
    exact hw.elim

end Expr

namespace Poly

open ReaderGen.Expr

theorem plain_tree {p : Poly} (hfits : p.Fits) (h : p.All fun a => a.tree.Everywhere Plain) :
    p.tree.Everywhere Plain := by
  refine everywhere_tree neutral_plain (fun op left right _ => trivial) fun t ht => ⟨?_, h t ht⟩
  have hcoeff := hfits t ht
  unfold ReaderGen.Fits at hcoeff
  show t.coeff.natAbs ≤ 9223372036854775808
  omega

end Poly

open ReaderGen.Expr in
theorem Atom.Lowered.plain {a : Atom} (h : a.Lowered) :
    a.tree.Everywhere Plain ∧ (a.compound = false → a.tree.isPlace = true) := by
  induction h with
  | var hx =>
    rw [tree_var hx]
    exact ⟨(everywhere_leaf rfl).2 trivial, fun _ => rfl⟩
  | subscript ha hc hi hfits iha ihi =>
    rw [tree_subscript ha hc hi]
    have hsubscript := Poly.plain_tree hfits fun t ht b hb => (ihi t ht b hb).1
    exact ⟨everywhere_index.2 ⟨iha.2 hc, iha.1, hsubscript⟩, fun _ => rfl⟩
  | division hp hq hpf hqf _ ihp ihq =>
    rw [tree_division hp hq]
    refine ⟨everywhere_binary.2 ⟨trivial, ?_, ?_⟩, fun hc => by cases hc⟩
    · rw [Poly.everywhere_operandTree neutral_plain]
      exact Poly.plain_tree hpf fun t ht b hb => (ihp t ht b hb).1
    · rw [Poly.everywhere_operandTree neutral_plain]
      exact Poly.plain_tree hqf fun t ht b hb => (ihq t ht b hb).1

theorem Poly.Lowered.refusal {p : Poly} (h : p.Lowered) {r : Refusal}
    (hr : p.tree.toPoly = .error r) : p.tree.Unfit r := by
  have hplain := Poly.plain_tree h.fits fun t ht a ha => (h.atoms t ht a ha).plain.1
  exact (Expr.refusal_of_plain (Poly.bracketed_tree h.legible) hplain).1 r hr

/-- The text is read as an expression in which the size of the least 64-bit integer is written. -/
def HoldsLeast (text : String) : Prop :=
  ∃ e word, Expr.parse text = .ok e ∧ .int 9223372036854775808 word ∈ e.nodes

theorem Poly.Lowered.holdsLeast {p : Poly} (h : p.Lowered) {quote expr reason : String}
    {r : Refusal} (hr : p.tree.toPoly = .error r) (he : r.toError quote = .parse expr reason) :
    reason = Refusal.literalTooLarge.reason ∧ HoldsLeast p.text := by
  rcases h.refusal hr with rfl | rfl | ⟨rfl, word, hword⟩
  · cases he
  · cases he
  · cases he
    exact ⟨rfl, p.tree, word, Poly.parse_text h.legible, hword⟩

theorem Expr.polynomial_eq_error {e : Expr} {error : ExprError} (h : e.polynomial = .error error) :
    ∃ r, e.toPoly = .error r ∧ r.toError e.quote = error := by
  unfold polynomial at h
  split at h
  · cases h
  · rename_i r hr
    exact ⟨r, hr, Except.error.inj h⟩

/-- A canonical text that cannot be read again holds the size of the least 64-bit integer. -/
theorem CanonicalText.refused {text expr reason : String} (h : CanonicalText text)
    (he : polynomialOf text = .error (.parse expr reason)) :
    reason = Refusal.literalTooLarge.reason ∧ HoldsLeast text := by
  obtain ⟨p, hp, rfl⟩ := h.lowered
  rw [hp.polynomialOf_text] at he
  obtain ⟨r, hr, hquote⟩ := Expr.polynomial_eq_error he
  exact hp.holdsLeast hr hquote

/-- If the difference of two canonical texts cannot be read, but the second can, then the first
cannot. -/
theorem CanonicalText.difference_refused {a b expr reason : String} (ha : CanonicalText a)
    (hb : CanonicalText b) {q : Poly} (hq : polynomialOf b = .ok q)
    (he : simplify (a ++ " - (" ++ b ++ ")") = .error (.parse expr reason)) :
    reason = Refusal.literalTooLarge.reason ∧ HoldsLeast a := by
  obtain ⟨p, hp, rfl⟩ := ha.lowered
  obtain ⟨p', hp', rfl⟩ := hb.lowered
  rw [hp'.polynomialOf_text] at hq
  have hq := Expr.toPoly_of_polynomial hq
  rcases error_of_bind he with he | ⟨_, -, he⟩
  · rw [polynomialOf, Poly.parse_difference hp.legible hp'.legible] at he
    obtain ⟨r, hr, hquote⟩ := Expr.polynomial_eq_error he
    rcases error_of_bind hr with hr | ⟨_, -, hr⟩
    · exact hp.holdsLeast hr hquote
    · rcases error_of_bind hr with hr | ⟨_, -, hr⟩
      · rw [Expr.toPoly, hq] at hr
        cases hr
      · cases orOverflow_eq_error hr
        cases hquote
  · cases he

/-! ## Errors of deriving the table -/

theorem freeVars_eq_error {text : String} {e : ExprError} (h : freeVars text = .error e) :
    polynomialOf text = .error e := by
  rcases error_of_bind h with h | ⟨p, -, h⟩
  · exact h
  · cases h

namespace Format

theorem usesCounter_eq_error {loops : List Enclosing} {text : String} {e : ExprError}
    (h : usesCounter loops text = .error e) : polynomialOf text = .error e := by
  rcases error_of_bind h with h | ⟨vars, -, h⟩
  · exact freeVars_eq_error h
  · cases h

theorem usesCounter_eq_ok {loops : List Enclosing} {text : String} {b : Bool}
    (h : usesCounter loops text = .ok b) : ∃ p, polynomialOf text = .ok p := by
  obtain ⟨vars, hvars, -⟩ := ok_of_bind h
  obtain ⟨p, hp, -⟩ := ok_of_bind hvars
  exact ⟨p, hp⟩

/-- The texts that are read again, of a format with these sizes and indices: the texts themselves, and
what is left of one after a variable has been taken off. -/
def Reread (texts : List String) (text : String) : Prop :=
  text ∈ texts ∨ ∃ index ∈ texts, ∃ x, offsetFrom index x = .ok (some text)

/-- The base of a dimension is left of an index, and has been read again. -/
def Based (texts : List String) (base : String) : Prop :=
  (∃ index ∈ texts, ∃ x, offsetFrom index x = .ok (some base)) ∧ ∃ p, polynomialOf base = .ok p

section

variable {texts : List String}

theorem error_of_dimension {loops : List Enclosing} (hl : ∀ l ∈ loops, l.size ∈ texts)
    {name index : String} (hi : index ∈ texts) {e : ExprError}
    (h : dimension loops name index = .error e) :
    e = .unsupportedIndex name index ∨ ∃ text, Reread texts text ∧ polynomialOf text = .error e := by
  unfold dimension at h
  rcases error_of_bind h with h | ⟨vars, -, h⟩
  · exact .inr ⟨index, .inl hi, freeVars_eq_error h⟩
  split at h
  · exact .inl (Except.error.inj h).symm
  rename_i l hfind
  have hsize := hl l (List.mem_of_find?_eq_some hfind)
  rcases error_of_bind h with h | ⟨used, -, h⟩
  · exact .inr ⟨l.size, .inl hsize, usesCounter_eq_error h⟩
  split at h
  · exact .inl (Except.error.inj h).symm
  rcases error_of_bind h with h | ⟨offset, hoffset, h⟩
  · rcases error_of_bind h with h | ⟨p, -, h⟩
    · exact .inr ⟨index, .inl hi, h⟩
    · cases h
  split at h
  · exact .inl (Except.error.inj h).symm
  rename_i base
  rcases error_of_bind h with h | ⟨used, -, h⟩
  · exact .inr ⟨base, .inr ⟨index, hi, l.counter, hoffset⟩, usesCounter_eq_error h⟩
  split at h
  · exact .inl (Except.error.inj h).symm
  · cases h

theorem dimension_of_ok {loops : List Enclosing} (hl : ∀ l ∈ loops, l.size ∈ texts)
    {name index : String} (hi : index ∈ texts) {d : Dimension}
    (h : dimension loops name index = .ok d) : d.size ∈ texts ∧ Based texts d.base := by
  unfold dimension at h
  obtain ⟨vars, -, h⟩ := ok_of_bind h
  split at h
  · cases h
  rename_i l hfind
  obtain ⟨used, -, h⟩ := ok_of_bind h
  split at h
  · cases h
  obtain ⟨offset, hoffset, h⟩ := ok_of_bind h
  split at h
  · cases h
  rename_i base
  obtain ⟨used', hused, h⟩ := ok_of_bind h
  split at h
  · cases h
  cases h
  exact ⟨hl l (List.mem_of_find?_eq_some hfind), ⟨index, hi, l.counter, hoffset⟩,
    usesCounter_eq_ok hused⟩

mutual

/-- An error of deriving the table is about an index that has no dimension, or comes from a text that
cannot be read again. -/
theorem error_of_addVariables : ∀ (f : Format) {loops : List Enclosing} {table : Table}
    {e : ExprError}, (∀ text ∈ f.exprs, text ∈ texts) → (∀ l ∈ loops, l.size ∈ texts) →
    addVariables loops f table = .error e →
      (∃ name index, e = .unsupportedIndex name index) ∨
        ∃ text, Reread texts text ∧ polynomialOf text = .error e
  | .item name indices, loops, table, e, hf, hl, h => by
    rw [addVariables] at h
    split at h
    · cases h
    split at h
    · cases h
    rcases error_of_bind h with h | ⟨dims, hdims, h⟩
    · obtain ⟨index, hindex, h⟩ := error_of_mapM h
      rcases error_of_dimension hl (hf index hindex) h with h | h
      · exact .inl ⟨name, index, h⟩
      · exact .inr h
    · rcases error_of_bind h with h | ⟨vars, -, h⟩
      · obtain ⟨d, hd, h⟩ := error_of_mapM h
        obtain ⟨index, hindex, hdim⟩ := (exists_mem_of_mapM hdims).2 d hd
        obtain ⟨hsize, -⟩ := dimension_of_ok hl (hf index hindex) hdim
        exact .inr ⟨d.size, .inl hsize, freeVars_eq_error h⟩
      · cases h
  | .newline, loops, table, e, _, _, h => by cases h
  | .sequence items, loops, table, e, hf, hl, h => error_of_addAllVariables items hf hl h
  | .loop counter size body, loops, table, e, hf, hl, h => by
    obtain ⟨hsize, hbody⟩ := List.forall_mem_cons.1 hf
    exact error_of_addVariables body hbody (List.forall_mem_cons.2 ⟨hsize, hl⟩) h

theorem error_of_addAllVariables : ∀ (fs : List Format) {loops : List Enclosing} {table : Table}
    {e : ExprError}, (∀ text ∈ exprsAll fs, text ∈ texts) → (∀ l ∈ loops, l.size ∈ texts) →
    addAllVariables loops fs table = .error e →
      (∃ name index, e = .unsupportedIndex name index) ∨
        ∃ text, Reread texts text ∧ polynomialOf text = .error e
  | [], loops, table, e, _, _, h => by cases h
  | f :: fs, loops, table, e, hf, hl, h => by
    obtain ⟨hfirst, hothers⟩ := List.forall_mem_append.1 hf
    rw [addAllVariables] at h
    rcases error_of_bind h with h | ⟨table', -, h⟩
    · exact error_of_addVariables f hfirst hl h
    · exact error_of_addAllVariables fs hothers hl h

end

mutual

theorem based_of_addVariables : ∀ (f : Format) {loops : List Enclosing} {table table' : Table},
    (∀ text ∈ f.exprs, text ∈ texts) → (∀ l ∈ loops, l.size ∈ texts) →
    addVariables loops f table = .ok table' → (∀ d ∈ table.decls, ∀ base ∈ d.bases, Based texts base) →
      ∀ d ∈ table'.decls, ∀ base ∈ d.bases, Based texts base
  | .item name indices, loops, table, table', hf, hl, h, ht => by
    rw [addVariables] at h
    split at h
    · cases h
      exact ht
    split at h
    · cases h
      exact ht
    obtain ⟨dims, hdims, h⟩ := ok_of_bind h
    obtain ⟨vars, -, h⟩ := ok_of_bind h
    cases h
    intro d hd base hbase
    rcases List.mem_append.1 hd with hd | hd
    · exact ht d hd base hbase
    · cases List.mem_singleton.1 hd
      obtain ⟨dim, hdim, rfl⟩ := List.mem_map.1 hbase
      obtain ⟨index, hindex, h⟩ := (exists_mem_of_mapM hdims).2 dim hdim
      exact (dimension_of_ok hl (hf index hindex) h).2
  | .newline, loops, table, table', _, _, h, ht => by
    cases h
    exact ht
  | .sequence items, loops, table, table', hf, hl, h, ht => based_of_addAllVariables items hf hl h ht
  | .loop counter size body, loops, table, table', hf, hl, h, ht => by
    obtain ⟨hsize, hbody⟩ := List.forall_mem_cons.1 hf
    exact based_of_addVariables body hbody (List.forall_mem_cons.2 ⟨hsize, hl⟩) h ht

theorem based_of_addAllVariables : ∀ (fs : List Format) {loops : List Enclosing}
    {table table' : Table}, (∀ text ∈ exprsAll fs, text ∈ texts) → (∀ l ∈ loops, l.size ∈ texts) →
    addAllVariables loops fs table = .ok table' →
    (∀ d ∈ table.decls, ∀ base ∈ d.bases, Based texts base) →
      ∀ d ∈ table'.decls, ∀ base ∈ d.bases, Based texts base
  | [], loops, table, table', _, _, h, ht => by
    cases h
    exact ht
  | f :: fs, loops, table, table', hf, hl, h, ht => by
    obtain ⟨hfirst, hothers⟩ := List.forall_mem_append.1 hf
    rw [addAllVariables] at h
    obtain ⟨table₁, h₁, h⟩ := ok_of_bind h
    exact based_of_addAllVariables fs hothers hl h (based_of_addVariables f hfirst hl h₁ ht)

end

end

/-! ## Errors of scheduling -/

theorem error_of_declaring {table : Table} {p : Progress}
    {code : Progress → Except Error Code × Progress} {e : Error}
    (h : (declaring table p code).1 = .error e) : ∃ q, (code q).1 = .error e := by
  unfold declaring at h
  dsimp only at h
  split at h
  · cases h
  · rename_i e' p' hcode
    cases h
    exact ⟨_, by rw [hcode]⟩

theorem error_of_counting {counter : String} {p : Progress}
    {body : Progress → Except Error Code × Progress} {e : Error}
    (h : (counting counter p body).1 = .error e) : ∃ q, (body q).1 = .error e := by
  unfold counting at h
  split at h
  · exact ⟨p, h⟩
  · exact ⟨_, h⟩

mutual

/-- An expression error of scheduling comes from an index less the base of its dimension. -/
theorem error_of_visit (table : Table) : ∀ (f : Format) {p : Progress} {e : ExprError},
    (visit table f p).1 = .error (.expr e) →
      ∃ index ∈ f.exprs, ∃ d ∈ table.decls, ∃ base ∈ d.bases,
        simplify (index ++ " - (" ++ base ++ ")") = .error e
  | .item name indices, p, e, h => by
    obtain ⟨q, h⟩ := error_of_declaring h
    unfold readItem at h
    split at h
    · split at h
      · cases h
      · rename_i d hd
        split at h
        · rename_i e' hsubscripts
          cases h
          rcases error_of_bind hsubscripts with h | ⟨offsets, -, h⟩
          · obtain ⟨⟨index, base⟩, hmem, h⟩ := error_of_mapM h
            obtain ⟨hindex, hbase⟩ := List.of_mem_zip hmem
            exact ⟨index, hindex, d, (Table.mem_of_get? hd).1, base, hbase, h⟩
          · cases h
        · cases h
    · cases h
  | .newline, p, e, h => by
    obtain ⟨q, h⟩ := error_of_declaring h
    cases h
  | .sequence items, p, e, h => by
    obtain ⟨q, h⟩ := error_of_declaring h
    generalize hall : visitAll table items q = result at h
    obtain ⟨codes, q'⟩ := result
    cases codes with
    | ok codes => cases h
    | error e' =>
      cases h
      exact error_of_visitAll table items (by rw [hall])
  | .loop counter size body, p, e, h => by
    obtain ⟨q, h⟩ := error_of_declaring h
    generalize hbody : counting counter q (visit table body) = result at h
    obtain ⟨code, q'⟩ := result
    cases code with
    | ok code => cases h
    | error e' =>
      cases h
      obtain ⟨q₁, h₁⟩ := error_of_counting (by rw [hbody])
      obtain ⟨index, hindex, hfound⟩ := error_of_visit table body h₁
      exact ⟨index, .tail _ hindex, hfound⟩

theorem error_of_visitAll (table : Table) : ∀ (fs : List Format) {p : Progress} {e : ExprError},
    (visitAll table fs p).1 = .error (.expr e) →
      ∃ index ∈ exprsAll fs, ∃ d ∈ table.decls, ∃ base ∈ d.bases,
        simplify (index ++ " - (" ++ base ++ ")") = .error e
  | [], p, e, h => by cases h
  | f :: fs, p, e, h => by
    rw [visitAll] at h
    split at h
    · rename_i e' q hvisit
      cases h
      obtain ⟨index, hindex, hfound⟩ := error_of_visit table f (by rw [hvisit])
      exact ⟨index, List.mem_append_left _ hindex, hfound⟩
    · rename_i code q hvisit
      split at h
      · rename_i e' q' hall
        cases h
        obtain ⟨index, hindex, hfound⟩ := error_of_visitAll table fs (by rw [hall])
        exact ⟨index, List.mem_append_right _ hindex, hfound⟩
      · cases h

end

end Format

/-! ## Formats that were read from a text -/

theorem Format.read_of_parse {name source : String} {color : Bool} {f : Format}
    (h : Format.parse name source color = .ok f) : Format.read source = .ok f :=
  Format.parse_eq_ok_iff.1 h

/-- A text that holds the size of the least 64-bit integer cannot be read. -/
theorem HoldsLeast.not_ok {text : String} (h : HoldsLeast text) (p : Poly) :
    polynomialOf text ≠ .ok p := by
  obtain ⟨e, word, he, hword⟩ := h
  intro hp
  rw [polynomialOf, he] at hp
  have hbound := Expr.atMost_of_lowering.1 p (Expr.toPoly_of_polynomial hp) _ hword
  exact absurd hbound (by simp [Expr.AtMost])

/-- If a format was read from a text, then a text of it that cannot be read again, be it in deriving its
table or in scheduling it by that table, has the size of the least 64-bit integer written in it; and such
a text can never be read. -/
theorem parse_error_of_rereading {name source : String} {color : Bool} {f : Format}
    (h : Format.parse name source color = .ok f) {expr reason : String} :
    (f.table = .error (.parse expr reason) →
      reason = Refusal.literalTooLarge.reason ∧ ∃ text, Format.Reread f.exprs text ∧ HoldsLeast text) ∧
    (∀ table, f.table = .ok table → f.schedule table = .error (.expr (.parse expr reason)) →
      reason = Refusal.literalTooLarge.reason ∧ ∃ index ∈ f.exprs, HoldsLeast index) ∧
    ∀ text p, HoldsLeast text → polynomialOf text ≠ .ok p := by
  have hcanonical : ∀ text ∈ f.exprs, CanonicalText text :=
    fun _ ht => Format.canonicalText_of_read (Format.read_of_parse h) ht
  refine ⟨fun herror => ?_, fun table htable herror => ?_, fun text p hleast => hleast.not_ok p⟩
  · rcases Format.error_of_addVariables f (fun _ ht => ht) (by simp) herror with
      ⟨_, _, hunsupported⟩ | ⟨text, htext, hpolynomial⟩
    · cases hunsupported
    have hct : CanonicalText text := by
      rcases htext with htext | ⟨index, -, x, hoffset⟩
      · exact hcanonical text htext
      · exact .inr ⟨index, x, hoffset⟩
    obtain ⟨hreason, hleast⟩ := hct.refused hpolynomial
    exact ⟨hreason, text, htext, hleast⟩
  · obtain ⟨index, hindex, d, hd, base, hbase, hsimplify⟩ := Format.error_of_visit table f herror
    obtain ⟨⟨index', -, x, hoffset⟩, q, hq⟩ :=
      Format.based_of_addVariables f (fun _ ht => ht) (by simp) htable (by simp [Table.empty]) d hd
        base hbase
    obtain ⟨hreason, hleast⟩ := (hcanonical index hindex).difference_refused
      (.inr ⟨index', x, hoffset⟩) hq hsimplify
    exact ⟨hreason, index, hindex, hleast⟩

/-- The least 64-bit integer is taken off an index. -/
def leastOffset : String :=
  "for i upto 3 \x7b read A[i]; read A[i - 9223372036854775807 - 1]; \x7d"

/-- The table takes its base from the first index, and the second one cannot be read again. -/
theorem parse_error_of_rereading_leastOffset : ∃ f table,
    Format.parse "format" leastOffset false = .ok f ∧ f.table = .ok table ∧
      f.schedule table = .error (.expr (.parse "i - 9223372036854775808 - (0)"
        "number too large to fit in target type")) ∧
      ∃ index ∈ f.exprs, HoldsLeast index := by
  have hfails : ((Format.parse "format" leastOffset false).toOption.bind fun f =>
      f.table.toOption.map f.schedule) =
        some (.error (.expr (.parse "i - 9223372036854775808 - (0)"
          "number too large to fit in target type"))) := by decide +kernel
  obtain ⟨f, hf, htable⟩ := Option.bind_eq_some_iff.1 hfails
  obtain ⟨table, ht, hschedule⟩ := Option.map_eq_some_iff.1 htable
  have hf := ok_of_toOption hf
  have ht := ok_of_toOption ht
  exact ⟨f, table, hf, ht, hschedule, ((parse_error_of_rereading hf).2.1 table ht hschedule).2⟩

/-- The least 64-bit integer is the size of a loop. -/
def leastSize : String := "for i upto -9223372036854775807 - 1 \x7b read A[i]; \x7d"

/-- The size is written as a number that is no 64-bit integer, and cannot be read again. -/
theorem table_refused_leastSize : ∃ f, Format.parse "format" leastSize false = .ok f ∧
    f.table = .error (.parse "- 9223372036854775808" "number too large to fit in target type") := by
  have hfails : (Format.parse "format" leastSize false).toOption.map Format.table =
      some (.error (.parse "- 9223372036854775808" "number too large to fit in target type")) := by
    decide +kernel
  obtain ⟨f, hf, htable⟩ := Option.map_eq_some_iff.1 hfails
  exact ⟨f, ok_of_toOption hf, htable⟩

end ReaderGen
