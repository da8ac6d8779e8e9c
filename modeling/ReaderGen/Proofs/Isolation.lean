import ReaderGen.Proofs.Dependence

/-!
# A variable taken off an expression

What is left of an expression after a variable has been taken off is found on one term of its polynomial:
the term is dropped if its coefficient is 1, and the rest counts if its atoms do not mention the variable.
What is left is then worth the expression less the variable. The other way round, an expression without
divisions and subscripts can hide nothing: if its value less that of the variable is the same whatever
the variable stands for, the polynomial has no other term with the variable in it, as a polynomial is
known by its values.

* `Poly.offset?_eq_some_iff`, `Poly.eval_of_offset?`: when something is left, and its value.
* `Poly.perm_terms_of_eval`: a polynomial that grows with an atom, by just as much, is the atom and terms
  without it.
* `Expr.exists_isPolynomial`: an expression without divisions and subscripts, but for attributes.
* `offsetFrom_sound_and_complete`: what is left is right, and is found wherever there is something.
-/

namespace ReaderGen

/-! ## One term of a polynomial -/

namespace Poly

theorem offset?_eq_some_iff {p q : Poly} {x : String} : p.offset? x = some q ↔
    p.coeff (.ofAtom (.var x)) = 1 ∧ x ∉ (p.erase (.ofAtom (.var x))).vars ∧
      p.erase (.ofAtom (.var x)) = q := by
  simp only [offset?, Option.ite_none_right_eq_some, Option.ite_none_left_eq_some,
    Names.contains_iff, Option.some.injEq]

/-- What is left has the value of the polynomial less that of the variable. -/
theorem eval_of_offset? {p q : Poly} {x : String} (h : p.offset? x = some q) (f : Atom → Int) :
    p.eval f = f (.var x) + q.eval f := by
  obtain ⟨hcoeff, -, rfl⟩ := offset?_eq_some_iff.1 h
  rw [eval_eq_coeff_add_erase f p (.ofAtom (.var x)), hcoeff]
  simp [Monomial.eval, Monomial.ofAtom]

/-- The terms in which an atom is no factor. -/
def without (a : Atom) (p : Poly) : Poly :=
  ⟨p.terms.filter (a ∉ ·.monomial.factors), p.normal.filter _⟩

theorem mem_terms_without {a : Atom} {p : Poly} {t : Term} :
    t ∈ (p.without a).terms ↔ t ∈ p.terms ∧ a ∉ t.monomial.factors := by
  simp [without]

/-- They are what is left when the atom is worth nothing. -/
theorem eval_without (f : Atom → Int) (a : Atom) (p : Poly) :
    (p.without a).eval f = p.eval (Function.update f a 0) := by
  show evalTerms f (p.terms.filter (a ∉ ·.monomial.factors)) = evalTerms _ p.terms
  induction p.terms with
  | nil => rfl
  | cons t ts ih =>
    rw [evalTerms_cons, ← ih]
    by_cases ha : a ∈ t.monomial.factors
    · have hzero : t.eval (Function.update f a 0) = 0 := by
        have hprod : (t.monomial.factors.map (Function.update f a 0)).prod = 0 :=
          List.prod_eq_zero (List.mem_map.2 ⟨a, ha, by simp⟩)
        rw [Term.eval, Monomial.eval, hprod, mul_zero]
      rw [List.filter_cons_of_neg (by simp [ha]), hzero, zero_add]
    · have hsame : t.eval (Function.update f a 0) = t.eval f := by
        have hmap : t.monomial.factors.map (Function.update f a 0) = t.monomial.factors.map f :=
          List.map_congr_left fun b hb => Function.update_of_ne (ne_of_mem_of_not_mem hb ha) _ _
        rw [Term.eval, Term.eval, Monomial.eval, Monomial.eval, hmap]
      rw [List.filter_cons_of_pos (by simp [ha]), evalTerms_cons, hsame]

/-- A polynomial that is worth an atom more than when the atom is worth nothing is that atom and terms
without it. -/
theorem perm_terms_of_eval {p : Poly} {a : Atom}
    (h : ∀ f : Atom → Int, p.eval f = f a + p.eval (Function.update f a 0)) :
    p.terms.Perm (⟨.ofAtom a, 1⟩ :: (p.without a).terms) := by
  have hnew : ∀ u ∈ (p.without a).terms, u.monomial ≠ .ofAtom a := by
    intro u hu heq
    refine (mem_terms_without.1 hu).2 ?_
    rw [heq]
    exact .head _
  -- the atom is put back among the terms without it, and a polynomial is known by its values
  obtain ⟨us, hus, hperm⟩ := insertTerm_of_new (t := ⟨.ofAtom a, 1⟩) hnew
  obtain ⟨r, hr, hterms⟩ := exists_addTerm one_ne_zero hus
  have hp : p = r := by
    refine eq_of_eval fun f => ?_
    rw [eval_addTerm f hr, eval_without, h f]
    simp [Term.eval, Monomial.eval, Monomial.ofAtom]
  rw [hp, hterms, ← hp]
  exact hperm

/-- Of a polynomial in variables that grows with a variable, by just as much, something is left. -/
theorem exists_offset? {p : Poly} (hp : p.All fun a => ∃ x, a = .var x) {x : String}
    (h : ∀ f : Atom → Int, p.eval f = f (.var x) + p.eval (Function.update f (.var x) 0)) :
    ∃ q, p.offset? x = some q := by
  have hperm := perm_terms_of_eval h
  refine ⟨_, offset?_eq_some_iff.2 ⟨coeff_of_mem (hperm.mem_iff.2 (.head _)), fun hx => ?_, rfl⟩⟩
  obtain ⟨t, ht, a, ha, hx⟩ := mem_vars.1 hx
  obtain ⟨ht, hne⟩ := List.mem_filter.1 ht
  obtain ⟨y, rfl⟩ := hp t ht a ha
  obtain rfl : x = y := Names.mem_singleton.1 hx
  rcases List.mem_cons.1 (hperm.mem_iff.1 ht) with rfl | ht
  · exact of_decide_eq_true hne rfl
  · exact (mem_terms_without.1 ht).2 ha

end Poly

/-! ## Expressions without divisions and subscripts -/

namespace Expr

/-- A subscript, a quotient or a remainder: what may be left as an atom of its own. -/
def MakesAtom : Expr → Prop
  | index _ _ => True
  | binary op _ _ => op = .div ∨ op = .rem
  | _ => False

instance : DecidablePred MakesAtom
  | .index _ _ => isTrue trivial
  | .binary op _ _ => inferInstanceAs (Decidable (op = .div ∨ op = .rem))
  | .int _ _ | .literal _ | .name _ | .path _ | .paren _ | .group _ | .unary _ _
  | .attributed _ _ | .foreign _ _ => isFalse id

/-- The atoms of the polynomial are variables, if the expression has no divisions and subscripts. -/
theorem IsPolynomial.all_var {e : Expr} (h : e.IsPolynomial) :
    ∀ p, e.toPoly = .ok p → p.All fun a => ∃ x, a = .var x := by
  induction h with
  | int n text =>
    intro p hp
    rw [toPoly] at hp
    split at hp
    · cases hp
      exact .constant _
    · cases hp
  | name x =>
    intro p hp
    cases hp
    exact .atom ⟨x, rfl⟩
  | paren _ ih => exact ih
  | group _ ih => exact ih
  | neg _ ih =>
    intro p hp
    obtain ⟨q, hq, hp⟩ := ok_of_bind hp
    exact .neg (orOverflow_eq_ok hp) (ih q hq)
  | binary hop _ _ ihe ihf =>
    intro p hp
    obtain ⟨q, hq, hp⟩ := ok_of_bind hp
    obtain ⟨r, hr, hp⟩ := ok_of_bind hp
    rcases hop with rfl | rfl | rfl
    · exact .add (orOverflow_eq_ok hp) (ihe q hq) (ihf r hr)
    · exact .sub (orOverflow_eq_ok hp) (ihe q hq) (ihf r hr)
    · exact .mul (orOverflow_eq_ok hp) (ihe q hq) (ihf r hr)

/-- An expression without subscripts, quotients and remainders that can be lowered is made of numbers and
variables by signs, sums, differences and products, once its attributes are gone. -/
theorem exists_isPolynomial {e : Expr} {p : Poly} (hp : e.toPoly = .ok p)
    (h : e.Everywhere (¬MakesAtom ·)) : ∃ e' : Expr, e'.IsPolynomial ∧ e'.toPoly = .ok p ∧
      ∀ v, e'.value? v = e.value? v := by
  induction e generalizing p with
  | int n text => exact ⟨_, .int n text, hp, fun _ => rfl⟩
  | name x => exact ⟨_, .name x, hp, fun _ => rfl⟩
  | index array subscript => exact absurd trivial (everywhere_index.1 h).1
  | paren inner ih =>
    obtain ⟨e', he, hp, hvalue⟩ := ih hp (everywhere_paren.1 h).2
    exact ⟨.paren e', .paren he, hp, hvalue⟩
  | group inner ih =>
    obtain ⟨e', he, hp, hvalue⟩ := ih hp (everywhere_group.1 h).2
    exact ⟨.group e', .group he, hp, hvalue⟩
  | attributed attributes inner ih => exact ih hp (everywhere_attributed.1 h).2
  | unary op operand ih =>
    cases op with
    | neg =>
      obtain ⟨q, hq, hneg⟩ := ok_of_bind hp
      obtain ⟨e', he, hq, hvalue⟩ := ih hq (everywhere_unary.1 h).2
      refine ⟨.unary .neg e', .neg he, ?_, fun v => ?_⟩
      · rw [toPoly, hq]
        exact hneg
      · rw [value?, value?, hvalue]
    | not => cases hp
    | deref => cases hp
  | binary op left right ihl ihr =>
    obtain ⟨hop, hl, hr⟩ := everywhere_binary.1 h
    obtain ⟨q, hq, hp⟩ := ok_of_bind hp
    obtain ⟨r, hr', hp⟩ := ok_of_bind hp
    obtain ⟨e, he, hq, hvalue⟩ := ihl hq hl
    obtain ⟨f, hf, hr', hvalue'⟩ := ihr hr' hr
    have hring : op = .add ∨ op = .sub ∨ op = .mul := by
      cases op with
      | add => exact .inl rfl
      | sub => exact .inr (.inl rfl)
      | mul => exact .inr (.inr rfl)
      | div => exact absurd (.inl rfl) hop
      | rem => exact absurd (.inr rfl) hop
      | other s => cases hp
    refine ⟨.binary op e f, .binary hring he hf, ?_, fun v => ?_⟩
    · rw [toPoly, hq, hr']
      exact hp
    · rw [value?, value?, hvalue, hvalue']
  | literal text | path tokens | foreign shape tokens => cases hp

end Expr

/-- Such a text is worth its polynomial, in which all atoms are variables. -/
theorem textValue?_eq_eval {text : String} {e : Expr} (he : Expr.parse text = .ok e)
    (h : e.Everywhere (¬Expr.MakesAtom ·)) {p : Poly} (hp : polynomialOf text = .ok p) :
    (p.All fun a => ∃ x, a = .var x) ∧ ∀ (v : Valuation) (f : Atom → Int),
      (∀ x, f (.var x) = v.var x) → textValue? v text = some (p.eval f) := by
  have hpoly : e.toPoly = .ok p := by
    rw [polynomialOf, he] at hp
    exact Expr.toPoly_of_polynomial hp
  obtain ⟨e', hpolynomial, hlowers, hvalue⟩ := Expr.exists_isPolynomial hpoly h
  refine ⟨hpolynomial.all_var p hlowers, fun v f hf => ?_⟩
  rw [textValue?_of_parse he, ← hvalue, hpolynomial.value?_eq_eval hf p hlowers]

/-! ## What is left of a text -/

/-- What is left can be read, does not name the variable, and is worth the text less the variable. -/
theorem value_of_offsetFrom {text x s : String} (h : offsetFrom text x = .ok (some s)) :
    ∃ e, Expr.parse s = .ok e ∧ x ∉ e.names ∧ ∀ v a, textValue? v text = some a →
      ∃ b, e.value? v = some b ∧ a = v.var x + b := by
  obtain ⟨p, hp, h⟩ := ok_of_bind h
  obtain ⟨q, hq, rfl⟩ := Option.map_eq_some_iff.1 (Except.ok.inj h)
  have hlowered := lowered_of_polynomialOf hp
  obtain ⟨hcoeff, hvars, rfl⟩ := Poly.offset?_eq_some_iff.1 hq
  have hrest := hlowered.erase (.ofAtom (.var x))
  refine ⟨_, Poly.parse_text hrest.legible, fun hx => hvars (hrest.mem_vars_iff.2 hx), ?_⟩
  intro v a ha
  obtain ⟨e, he, hrenders⟩ := renders_polynomialOf hp
  rw [textValue?_of_parse he] at ha
  obtain ⟨hdefined, rfl⟩ := hrenders.value v a ha
  refine ⟨_, Poly.value?_tree hrest.legible (hdefined.erase _), ?_⟩
  -- the term that was dropped is a variable of the text
  have hterm : (⟨.ofAtom (.var x), 1⟩ : Term) ∈ p.terms :=
    Poly.mem_terms_iff.2 ⟨one_ne_zero, hcoeff⟩
  have hatom := hlowered.atoms _ hterm (.var x) (.head _)
  have hx : Word.IsVariable x := hatom.isVariable x (by simp [Atom.var])
  rw [Poly.eval_of_offset? hq, Atom.worth_var hx]

/-! ## Other numbers for the variable -/

/-- The valuation, with another number for a variable. -/
def Valuation.set (v : Valuation) (x : String) (n : Int) : Valuation :=
  { v with var := Function.update v.var x n }

theorem Valuation.var_set (v : Valuation) (x : String) (n : Int) (y : String) :
    (v.set x n).var y = if y = x then n else v.var y :=
  Function.update_apply ..

theorem Valuation.agree_set (v : Valuation) {x y : String} (n : Int) (h : y ≠ x) :
    (v.set x n).Agree v y :=
  ⟨Function.update_of_ne h _ _, rfl⟩

theorem Atom.update_var (f : Atom → Int) (x : String) (n : Int) (y : String) :
    Function.update f (.var x) n (.var y) = if y = x then n else f (.var y) := by
  by_cases h : y = x
  · simp [h]
  · have hatom : Atom.var y ≠ .var x := fun heq => h (congrArg Atom.text heq)
    rw [Function.update_of_ne hatom, if_neg h]

/-- Where something is left, the value less that of the variable does not depend on the variable. -/
theorem sub_eq_sub_of_offsetFrom {text x s : String} (h : offsetFrom text x = .ok (some s))
    {v : Valuation} {n a b : Int} (ha : textValue? v text = some a)
    (hb : textValue? (v.set x n) text = some b) : a - v.var x = b - n := by
  obtain ⟨e, -, hx, hvalue⟩ := value_of_offsetFrom h
  obtain ⟨c, hc, rfl⟩ := hvalue v a ha
  obtain ⟨d, hd, rfl⟩ := hvalue (v.set x n) b hb
  -- what is left does not see the other number
  have hsame : e.value? (v.set x n) = e.value? v :=
    (Expr.value?_congr fun y hy => v.agree_set n (ne_of_mem_of_not_mem hy hx)).1
  rw [hc, hd, Option.some.injEq] at hsame
  rw [v.var_set, if_pos rfl, hsame]
  omega

/-- What is left of a text after a variable has been taken off can be read, does not name the variable,
and is worth the text less the variable wherever the text has a value. If there are no subscripts,
quotients and remainders in a text that can be lowered, something is left just if the value of the text
less that of the variable is the same whatever the variable stands for. -/
theorem offsetFrom_sound_and_complete (text x : String) :
    (∀ s, offsetFrom text x = .ok (some s) → ∃ e, Expr.parse s = .ok e ∧ x ∉ e.names ∧
      ∀ v a, textValue? v text = some a → ∃ b, e.value? v = some b ∧ a = v.var x + b) ∧
    ∀ e, Expr.parse text = .ok e → e.Everywhere (¬Expr.MakesAtom ·) →
      (∃ s, simplify text = .ok s) → ∃ rest?, offsetFrom text x = .ok rest? ∧
        (rest?.isSome = true ↔ ∀ v n, ∃ a b, textValue? v text = some a ∧
          textValue? (v.set x n) text = some b ∧ a - v.var x = b - n) := by
  refine ⟨fun s h => value_of_offsetFrom h, fun e he hplain ⟨s, hs⟩ => ?_⟩
  obtain ⟨p, hp, -⟩ := ok_of_bind hs
  obtain ⟨hvariable, hvalue⟩ := textValue?_eq_eval he hplain hp
  have hoffset : offsetFrom text x = .ok ((p.offset? x).map Poly.text) := by
    rw [offsetFrom, hp]
    rfl
  refine ⟨_, hoffset, fun hsome v n => ?_, fun hsame => ?_⟩
  · obtain ⟨rest, hrest⟩ := Option.isSome_iff_exists.1 hsome
    rw [hrest] at hoffset
    have hworth := fun v => hvalue v (fun a => v.var a.text) fun _ => rfl
    exact ⟨_, _, hworth v, hworth _, sub_eq_sub_of_offsetFrom hoffset (hworth v) (hworth _)⟩
  · have hgrows : ∀ f : Atom → Int, p.eval f = f (.var x) + p.eval (Function.update f (.var x) 0) := by
      intro f
      -- values of the atoms are a valuation of the variables
      let v : Valuation := ⟨fun y => f (.var y), fun _ _ => 0⟩
      obtain ⟨a, b, ha, hb, hab⟩ := hsame v 0
      have hv := hvalue v f fun _ => rfl
      have hset := hvalue (v.set x 0) (Function.update f (.var x) 0) fun y => by
        rw [Valuation.var_set, Atom.update_var]
      rw [ha, Option.some.injEq] at hv
      rw [hb, Option.some.injEq] at hset
      have hvar : v.var x = f (.var x) := rfl
      omega
    obtain ⟨q, hq⟩ := Poly.exists_offset? hvariable hgrows
    rw [hq]
    rfl

/-- `(i + 1) * (j + 1) - i * j` -/
def cancelledProduct : Expr :=
  .binary .sub
    (.binary .mul (.paren (.binary .add (.name "i") (.int 1 "1")))
      (.paren (.binary .add (.name "j") (.int 1 "1"))))
    (.binary .mul (.name "i") (.name "j"))

/-- A quotient with a sign is left of one text. Of the other, a product with the variable cancels. -/
theorem offsetFrom_sound_and_complete_cancelled :
    (offsetFrom "i - N / A[K]" "i" = .ok (some "-N / A[K]") ∧
      ∃ e, Expr.parse "-N / A[K]" = .ok e ∧ "i" ∉ e.names ∧ ∀ v a,
        textValue? v "i - N / A[K]" = some a → ∃ b, e.value? v = some b ∧ a = v.var "i" + b) ∧
    Expr.parse "(i + 1) * (j + 1) - i * j" = .ok cancelledProduct ∧
      cancelledProduct.Everywhere (¬Expr.MakesAtom ·) ∧
      offsetFrom "(i + 1) * (j + 1) - i * j" "i" = .ok (some "j + 1") ∧
      ∀ v n, ∃ a b, textValue? v "(i + 1) * (j + 1) - i * j" = some a ∧
        textValue? (v.set "i" n) "(i + 1) * (j + 1) - i * j" = some b ∧ a - v.var "i" = b - n := by
  have hoffset : offsetFrom "i - N / A[K]" "i" = .ok (some "-N / A[K]") :=
    ok_of_toOption (by decide +kernel)
  have hparse : Expr.parse "(i + 1) * (j + 1) - i * j" = .ok cancelledProduct :=
    ok_of_toOption (by decide +kernel)
  have hplain : cancelledProduct.Everywhere (¬Expr.MakesAtom ·) := by decide
  have hsimplify : simplify "(i + 1) * (j + 1) - i * j" = .ok "i + j + 1" :=
    ok_of_toOption (by decide +kernel)
  have hrest : offsetFrom "(i + 1) * (j + 1) - i * j" "i" = .ok (some "j + 1") :=
    ok_of_toOption (by decide +kernel)
  obtain ⟨rest?, hrest?, hiff⟩ :=
    (offsetFrom_sound_and_complete _ "i").2 _ hparse hplain ⟨_, hsimplify⟩
  obtain rfl := Except.ok.inj (hrest.symm.trans hrest?)
  exact ⟨⟨hoffset, (offsetFrom_sound_and_complete _ _).1 _ hoffset⟩, hparse, hplain, hrest,
    hiff.1 rfl⟩

end ReaderGen
