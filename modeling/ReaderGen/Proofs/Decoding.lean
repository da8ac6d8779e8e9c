import Mathlib.Data.List.Forall2
import ReaderGen.Proofs.Relowering

/-!
# A canonical text is the text of one polynomial

A polynomial is written as a sum of products of numbers, places and texts in brackets. Where each of
them ends can be told from the characters alone: a number at its last digit, a word before a blank or a
bracket, a text in brackets where the bracket is closed, a product before a sign. So two polynomials
with the same text have the same products, and these tell the terms: what stands before the stars, and
which quotient or remainder was left. The texts in brackets are shorter, and by induction they are texts
of one polynomial each.

* `Atom.Worded`: the atoms that can be made of words; `Expr.worded_of_toPoly`: lowering makes no others.
* `Written.Operand`, `Written.Product`, `Written.Sum`: texts by their parts.
* `Written.Known.sum`: the parts of a text are known from it, whatever comes after it.
* `Written.exists_sum`, `Written.Sum.IsPoly.unique`: every polynomial is written as a sum, and a sum
  tells its polynomial.
* `Poly.eq_of_text`: polynomials with the same text are the same.
* `Expr.toPoly_eq_of_canonicalize`: so are those of expressions with the same canonical text.
-/

namespace ReaderGen

open Text

/-! ## Words and numbers -/

/-- The text is one word, reserved or not. -/
def Word.IsWord (w : String) : Prop := Scanner.identAt w.toList = some w.toList

instance (w : String) : Decidable (Word.IsWord w) := inferInstanceAs (Decidable (_ = _))

theorem Word.IsVariable.isWord {w : String} (h : Word.IsVariable w) : Word.IsWord w := h.1

/-- Two runs of characters of one kind, each as long as it can be. -/
theorem run_append_inj {P : Char → Prop} {xs ys u v : List Char} (hx : ∀ c ∈ xs, P c)
    (hy : ∀ c ∈ ys, P c) (hu : ∀ c ∈ u.head?, ¬P c) (hv : ∀ c ∈ v.head?, ¬P c)
    (h : xs ++ u = ys ++ v) : xs = ys ∧ u = v := by
  induction xs generalizing ys with
  | nil =>
    cases ys with
    | nil => exact ⟨rfl, h⟩
    | cons y ys =>
      obtain rfl : u = y :: (ys ++ v) := h
      exact absurd (hy y (.head _)) (hu y rfl)
  | cons x xs ih =>
    cases ys with
    | nil =>
      obtain rfl : x :: (xs ++ u) = v := h
      exact absurd (hx x (.head _)) (hv x rfl)
    | cons y ys =>
      obtain ⟨rfl, hrest⟩ := List.cons.inj h
      obtain ⟨rfl, huv⟩ := ih (fun c hc => hx c (.tail _ hc)) (fun c hc => hy c (.tail _ hc)) hrest
      exact ⟨rfl, huv⟩

/-! ## Atoms that are made of words -/

/-- The atoms that can be made of words: variables, subscripts of what is no division, and divisions. -/
inductive Atom.Worded : Atom → Prop
  | var {x : String} (hx : Word.IsWord x) : Worded (.var x)
  | subscript {a : Atom} {i : Poly} (ha : Worded a) (hc : a.compound = false)
      (hi : ∀ t ∈ i.terms, ∀ b ∈ t.monomial.factors, Worded b) : Worded (a.subscript i)
  | division {part : Division} {p q : Poly} (hp : ∀ t ∈ p.terms, ∀ b ∈ t.monomial.factors, Worded b)
      (hq : ∀ t ∈ q.terms, ∀ b ∈ t.monomial.factors, Worded b) : Worded (part.atom p q)

/-- The polynomial of an expression whose names are words has no other atoms. -/
theorem Expr.worded_of_toPoly {e : Expr} (hn : ∀ x ∈ e.names, Word.IsWord x) {p : Poly}
    (h : e.toPoly = .ok p) : p.All Atom.Worded := by
  have hkept : Atom.Kept Word.IsWord Atom.Worded :=
    ⟨.var, fun ha hc hi _ => .subscript ha hc hi, fun hp hq _ _ _ => .division hp hq⟩
  exact ((hkept.stepwise.of_lowering hn).1 p h).1

/-- A variable with subscripts. -/
def Atom.place (x : String) (indices : List Poly) : Atom := indices.foldl Atom.subscript (.var x)

namespace Atom

theorem text_foldl_subscript (a : Atom) (indices : List Poly) :
    (indices.foldl Atom.subscript a).text.toList =
      a.text.toList ++ indices.flatMap fun i => '[' :: (i.text.toList ++ [']']) := by
  induction indices generalizing a with
  | nil => simp
  | cons i is ih => simp [ih, subscript]

/-- An atom that is no division is a variable with subscripts. -/
theorem Worded.eq_place {a : Atom} (h : a.Worded) (hc : a.compound = false) : ∃ x indices,
    Word.IsWord x ∧ (∀ i ∈ indices, i.All Worded) ∧ a = place x indices := by
  induction h with
  | @var x hx => exact ⟨x, [], hx, by simp, rfl⟩
  | @subscript a i ha hca hi iha ihi =>
    obtain ⟨x, indices, hx, hindices, rfl⟩ := iha hca
    refine ⟨x, indices ++ [i], hx, ?_, by simp [place]⟩
    intro j hj
    rcases List.mem_append.1 hj with hj | hj
    · exact hindices j hj
    · rw [List.mem_singleton.1 hj]
      exact hi
  | division => cases hc

theorem Worded.eq_division {a : Atom} (h : a.Worded) (hc : a.compound = true) :
    ∃ part p q, p.All Worded ∧ q.All Worded ∧ a = Division.atom part p q := by
  cases h with
  | var => cases hc
  | subscript => cases hc
  | division hp hq => exact ⟨_, _, _, hp, hq, rfl⟩

end Atom

/-! ## Single terms -/

namespace Poly

theorem text_atom (a : Atom) : (atom a).text = a.text := by
  rw [text, written_singleton rfl]
  simp [termText, moreText, factorsText, factorText, Monomial.ofAtom]

theorem text_constant (n : Nat) : (constant n).text = toString n := by
  by_cases hn : (n : Int) = 0
  · obtain rfl : n = 0 := by omega
    rfl
  · rw [constant, dif_neg hn, text, written_singleton rfl]
    simp [termText, moreText, Monomial.one, Int.not_lt.2 (Int.natCast_nonneg n)]

/-- What needs no brackets in a division. -/
theorem isFactor_cases {p : Poly} (h : p.isFactor = true) :
    (∃ n : Nat, p = constant n) ∨ ∃ a : Atom, a.compound = false ∧ p = atom a := by
  unfold isFactor at h
  split at h
  · rename_i ht
    exact .inl ⟨0, eq_of_terms ht⟩
  · rename_i m n ht
    split at h
    · rename_i hm
      have hn : 0 < n := by simpa using h
      have habs : (n.natAbs : Int) = n := by omega
      refine .inl ⟨n.natAbs, eq_of_terms ?_⟩
      rw [ht, habs, constant, dif_neg (by omega), Monomial.eq_of_perm (n := .one) (.of_eq hm)]
    · rename_i a hm
      obtain ⟨rfl, hc⟩ : n = 1 ∧ a.compound = false := by simpa using h
      refine .inr ⟨a, hc, eq_of_terms ?_⟩
      rw [ht, atom, Monomial.eq_of_perm (n := .ofAtom a) (.of_eq hm)]
    · cases h
  · cases h

end Poly

namespace Written

/-! ## What may follow a part of a text -/

/-- What may follow a sum: the bracket that it stands in is closed, or the text ends. -/
def EndsSum (u : List Char) : Prop := ∀ c ∈ u.head?, c = ')' ∨ c = ']'

/-- What may follow a product: a sign, or what may follow a sum. -/
def EndsProduct (u : List Char) : Prop := EndsSum u ∨ ∃ w, u = ' ' :: '+' :: w ∨ u = ' ' :: '-' :: w

/-- What may follow an operand: a blank, or what may follow a sum. -/
def EndsOperand (u : List Char) : Prop := ∀ c ∈ u.head?, c = ' ' ∨ c = ')' ∨ c = ']'

/-- Whatever is written with less than `n` characters is known from them, and so is what follows. -/
def Known {α : Type} (n : Nat) (W : α → Prop) (write : α → List Char) (Ends : List Char → Prop) :
    Prop :=
  ∀ a b, W a → W b → (write a).length < n → ∀ u v, Ends u → Ends v →
    write a ++ u = write b ++ v → a = b ∧ u = v

/-! ## Operands -/

/-- What products are made of. -/
inductive Operand
  | number (n : Nat)
  | place (x : String) (indices : List Poly)
  | bracket (p : Poly)

/-- Subscripts, each in its brackets. -/
def subscripts (indices : List Poly) : List Char :=
  indices.flatMap fun i => '[' :: (i.text.toList ++ [']'])

namespace Operand

def chars : Operand → List Char
  | number n => (toString n).toList
  | place x indices => x.toList ++ subscripts indices
  | bracket p => '(' :: (p.text.toList ++ [')'])

def Worded : Operand → Prop
  | number _ => True
  | place x indices => Word.IsWord x ∧ ∀ i ∈ indices, i.All Atom.Worded
  | bracket p => p.All Atom.Worded

/-- The characters that operands of its kind begin with. -/
def Begins (c : Char) : Operand → Prop
  | number _ => c.isDigit = true
  | place _ _ => isIdentifierStart c = true
  | bracket _ => c = '('

theorem exists_begins {o : Operand} (h : o.Worded) : ∃ c cs, o.chars = c :: cs ∧ o.Begins c := by
  cases o with
  | number n =>
    obtain ⟨d, ds, hds, hdigit, -⟩ := Scanner.digits_of_nat n
    exact ⟨d, ds, hds, hdigit d (.head _)⟩
  | place x indices =>
    have hx : Scanner.identAt x.toList = some x.toList := h.1
    cases hcs : x.toList with
    | nil =>
      rw [hcs] at hx
      cases hx
    | cons c cs =>
      rw [hcs] at hx
      exact ⟨c, cs ++ subscripts indices, by rw [chars, hcs]; rfl, Scanner.start_of_identAt hx⟩
  | bracket p => exact ⟨'(', _, rfl, rfl⟩

/-- No operand begins with a sign. -/
theorem Begins.ne_minus {o : Operand} {c : Char} (h : o.Begins c) : c ≠ '-' := by
  have hminus : ¬Char.isDigit '-' = true ∧ ¬isIdentifierStart '-' = true ∧ '-' ≠ '(' := by decide
  rintro rfl
  cases o with
  | number n => exact hminus.1 h
  | place x indices => exact hminus.2.1 h
  | bracket p => exact hminus.2.2 h

/-- Operands of two kinds do not begin alike. -/
theorem Begins.alike {o o' : Operand} {c : Char} (h : o.Begins c) (h' : o'.Begins c) :
    (∃ n k, o = number n ∧ o' = number k) ∨
    (∃ x is y js, o = place x is ∧ o' = place y js) ∨ ∃ p q, o = bracket p ∧ o' = bracket q := by
  have hword : isIdentifierStart c = true → c.isDigit = true → False := by
    intro hs hd
    rw [Scanner.isDigit_of_start hs] at hd
    cases hd
  have hround : c = '(' → ¬c.isDigit = true ∧ ¬isIdentifierStart c = true := by
    rintro rfl
    decide
  cases o with
  | number n =>
    cases o' with
    | number k => exact .inl ⟨n, k, rfl, rfl⟩
    | place y js => exact (hword h' h).elim
    | bracket q => exact absurd h (hround h').1
  | place x is =>
    cases o' with
    | number k => exact (hword h h').elim
    | place y js => exact .inr (.inl ⟨x, is, y, js, rfl, rfl⟩)
    | bracket q => exact absurd h (hround h').2
  | bracket p =>
    cases o' with
    | number k => exact absurd h' (hround h).1
    | place y js => exact absurd h' (hround h).2
    | bracket q => exact .inr (.inr ⟨p, q, rfl, rfl⟩)

end Operand

section

variable {n : Nat} (hpoly : Known n (Poly.All Atom.Worded) (fun p => p.text.toList) EndsSum)
include hpoly

theorem subscripts_append_inj : ∀ {is js : List Poly} {u v : List Char},
    (∀ i ∈ is, i.All Atom.Worded) → (∀ j ∈ js, j.All Atom.Worded) → (subscripts is).length ≤ n →
    EndsOperand u → EndsOperand v → subscripts is ++ u = subscripts js ++ v → is = js ∧ u = v
  | [], [], u, v, _, _, _, _, _, h => ⟨rfl, h⟩
  | [], j :: js, u, v, _, _, _, hu, _, h => by
    obtain rfl : u = '[' :: _ := h
    exact absurd (hu '[' rfl) (by decide)
  | i :: is, [], u, v, _, _, _, _, hv, h => by
    obtain rfl : '[' :: _ = v := h
    exact absurd (hv '[' rfl) (by decide)
  | i :: is, j :: js, u, v, his, hjs, hn, hu, hv, h => by
    have hclosed : ∀ w : List Char, EndsSum (']' :: w) := by simp [EndsSum]
    simp only [subscripts, List.flatMap_cons, List.length_append, List.length_cons,
      List.length_nil] at hn
    simp only [subscripts, List.flatMap_cons, List.cons_append, List.append_assoc, List.nil_append,
      List.cons.injEq, true_and] at h
    have hi : i.text.toList.length < n := by omega
    obtain ⟨rfl, h'⟩ := hpoly i j (his i (.head _)) (hjs j (.head _)) hi _ _ (hclosed _)
      (hclosed _) h
    obtain ⟨rfl, huv⟩ := subscripts_append_inj (fun k hk => his k (.tail _ hk))
      (fun k hk => hjs k (.tail _ hk)) (by rw [subscripts]; omega) hu hv (List.cons.inj h').2
    exact ⟨rfl, huv⟩

/-- The first character tells the kind, the next ones where the operand ends. -/
theorem Known.operand : Known (n + 1) Operand.Worded Operand.chars EndsOperand := by
  intro o o' ho ho' hn u v hu hv h
  obtain ⟨c, cs, hc, hbegins⟩ := Operand.exists_begins ho
  obtain ⟨c', cs', hc', hbegins'⟩ := Operand.exists_begins ho'
  obtain rfl : c = c' := by
    rw [hc, hc'] at h
    exact (List.cons.inj h).1
  rcases hbegins.alike hbegins' with ⟨k, k', rfl, rfl⟩ | ⟨x, is, y, js, rfl, rfl⟩ | ⟨p, q, rfl, rfl⟩
  · obtain ⟨d, ds, hds, hdigits, hk⟩ := Scanner.digits_of_nat k
    obtain ⟨d', ds', hds', hdigits', hk'⟩ := Scanner.digits_of_nat k'
    have hends : ∀ {w : List Char}, EndsOperand w → ∀ c ∈ w.head?, ¬c.isDigit = true := by
      intro w hw c hc
      rcases hw c hc with rfl | rfl | rfl <;> decide
    rw [Operand.chars, Operand.chars, hds, hds'] at h
    obtain ⟨hrun, huv⟩ := run_append_inj hdigits hdigits' (hends hu) (hends hv) h
    rw [← hk, ← hk', hrun]
    exact ⟨rfl, huv⟩
  · have hends : ∀ (is : List Poly) {w : List Char}, EndsOperand w →
        ∀ c ∈ (subscripts is ++ w).head?, ¬(isIdentifierPart c = true ∨ c = '#') := by
      intro is w hw c hc
      cases is with
      | nil => rcases hw c hc with rfl | rfl | rfl <;> decide
      | cons i is =>
        obtain rfl : '[' = c := Option.some.inj hc
        decide
    rw [Operand.chars, Operand.chars, List.append_assoc, List.append_assoc] at h
    obtain ⟨hxy, h⟩ := run_append_inj (Scanner.part_of_identAt ho.1) (Scanner.part_of_identAt ho'.1)
      (hends is hu) (hends js hv) h
    rw [Operand.chars, List.length_append] at hn
    obtain ⟨rfl, huv⟩ := subscripts_append_inj hpoly ho.2 ho'.2 (by omega) hu hv h
    rw [String.toList_inj.1 hxy]
    exact ⟨rfl, huv⟩
  · have hclosed : ∀ w : List Char, EndsSum (')' :: w) := by simp [EndsSum]
    simp only [Operand.chars, List.length_cons, List.length_append, List.length_nil] at hn
    simp only [Operand.chars, List.cons_append, List.append_assoc, List.nil_append, List.cons.injEq,
      true_and] at h
    have hp : p.text.toList.length < n := by omega
    obtain ⟨rfl, h'⟩ := hpoly p q ho ho' hp _ _ (hclosed _) (hclosed _) h
    exact ⟨rfl, (List.cons.inj h').2⟩

end

/-! ## Chains -/

/-- Parts with an operator before each but the first. -/
structure Chain (α : Type) where
  first : α
  rest : List (Char × α)

/-- Each part after its operator, which stands between blanks. -/
def links {α : Type} (write : α → List Char) (xs : List (Char × α)) : List Char :=
  xs.flatMap fun x => ' ' :: x.1 :: ' ' :: write x.2

namespace Chain

variable {α : Type}

def chars (write : α → List Char) (c : Chain α) : List Char := write c.first ++ links write c.rest

/-- Every part is one of `W`, every operator one of `ops`. -/
def Made (W : α → Prop) (ops : List Char) (c : Chain α) : Prop :=
  W c.first ∧ ∀ x ∈ c.rest, x.1 ∈ ops ∧ W x.2

end Chain

/-- An operator may follow a part of a chain, but not the whole of it. -/
structure Separates (ops : List Char) (EndsPart EndsChain : List Char → Prop) : Prop where
  last : ∀ u, EndsChain u → EndsPart u
  next : ∀ c ∈ ops, ∀ u, EndsPart (' ' :: c :: u)
  whole : ∀ c ∈ ops, ∀ u, ¬EndsChain (' ' :: c :: u)

section

variable {α : Type} {n : Nat} {W : α → Prop} {write : α → List Char} {ops : List Char}
  {EndsPart EndsChain : List Char → Prop}

theorem Separates.endsPart (h : Separates ops EndsPart EndsChain) {xs : List (Char × α)}
    (hxs : ∀ x ∈ xs, x.1 ∈ ops ∧ W x.2) {u : List Char} (hu : EndsChain u) :
    EndsPart (links write xs ++ u) := by
  cases xs with
  | nil => exact h.last u hu
  | cons x xs => exact h.next x.1 (hxs x (.head _)).1 _

theorem links_append_inj (hpart : Known n W write EndsPart) (hsep : Separates ops EndsPart EndsChain) :
    ∀ {xs ys : List (Char × α)} {u v : List Char}, (∀ x ∈ xs, x.1 ∈ ops ∧ W x.2) →
    (∀ y ∈ ys, y.1 ∈ ops ∧ W y.2) → (links write xs).length < n → EndsChain u → EndsChain v →
    links write xs ++ u = links write ys ++ v → xs = ys ∧ u = v
  | [], [], u, v, _, _, _, _, _, h => ⟨rfl, h⟩
  | [], y :: ys, u, v, _, hys, _, hu, _, h => by
    obtain rfl : u = ' ' :: y.1 :: _ := h
    exact absurd hu (hsep.whole y.1 (hys y (.head _)).1 _)
  | x :: xs, [], u, v, hxs, _, _, _, hv, h => by
    obtain rfl : ' ' :: x.1 :: _ = v := h
    exact absurd hv (hsep.whole x.1 (hxs x (.head _)).1 _)
  | (op, a) :: xs, (op', b) :: ys, u, v, hxs, hys, hn, hu, hv, h => by
    have hxs' := fun x hx => hxs x (.tail _ hx)
    have hys' := fun y hy => hys y (.tail _ hy)
    simp only [links, List.flatMap_cons, List.length_append, List.length_cons] at hn
    simp only [links, List.flatMap_cons, List.cons_append, List.append_assoc, List.cons.injEq,
      true_and] at h
    obtain ⟨rfl, h⟩ := h
    obtain ⟨rfl, h'⟩ := hpart a b (hxs _ (.head _)).2 (hys _ (.head _)).2 (by omega) _ _
      (hsep.endsPart hxs' hu) (hsep.endsPart hys' hv) h
    obtain ⟨rfl, huv⟩ := links_append_inj hpart hsep hxs' hys' (by rw [links]; omega) hu hv h'
    exact ⟨rfl, huv⟩

theorem Known.chain (hpart : Known n W write EndsPart) (hsep : Separates ops EndsPart EndsChain) :
    Known n (Chain.Made W ops) (Chain.chars write) EndsChain := by
  intro c d hc hd hn u v hu hv h
  obtain ⟨a, xs⟩ := c
  obtain ⟨b, ys⟩ := d
  simp only [Chain.chars, List.length_append] at hn
  simp only [Chain.chars, List.append_assoc] at h
  obtain ⟨rfl, h'⟩ := hpart a b hc.1 hd.1 (by omega) _ _ (hsep.endsPart hc.2 hu)
    (hsep.endsPart hd.2 hv) h
  have hxs : (links write xs).length < n := by omega
  obtain ⟨rfl, huv⟩ := links_append_inj hpart hsep hc.2 hd.2 hxs hu hv h'
  exact ⟨rfl, huv⟩

end

/-! ## Products and sums -/

abbrev Product := Chain Operand

/-- Products with a sign before each; the first has one only if it is a minus sign. -/
structure Sum where
  negated : Bool
  products : Chain Product

def Product.chars : Product → List Char := Chain.chars Operand.chars

def Product.Worded : Product → Prop := Chain.Made Operand.Worded ['*', '/', '%']

def Sum.chars (s : Sum) : List Char :=
  (if s.negated then ['-'] else []) ++ s.products.chars Product.chars

def Sum.Worded (s : Sum) : Prop := s.products.Made Product.Worded ['+', '-']

theorem separates_operands : Separates ['*', '/', '%'] EndsOperand EndsProduct where
  last u hu := by
    rcases hu with hu | ⟨w, rfl | rfl⟩
    · exact fun c hc => .inr (hu c hc)
    · simp [EndsOperand]
    · simp [EndsOperand]
  next c _ u := by simp [EndsOperand]
  whole c hc u := by
    rintro (h | ⟨w, h | h⟩)
    · exact absurd (h ' ' rfl) (by decide)
    · rw [(List.cons.inj (List.cons.inj h).2).1] at hc
      exact absurd hc (by decide)
    · rw [(List.cons.inj (List.cons.inj h).2).1] at hc
      exact absurd hc (by decide)

theorem separates_products : Separates ['+', '-'] EndsProduct EndsSum where
  last u hu := .inl hu
  next c hc u := by
    refine .inr ⟨u, ?_⟩
    simpa using hc
  whole c _ u h := absurd (h ' ' rfl) (by decide)

theorem Known.sum {n : Nat} (hoperand : Known n Operand.Worded Operand.chars EndsOperand) :
    Known n Sum.Worded Sum.chars EndsSum := by
  have hproducts := (hoperand.chain separates_operands).chain separates_products
  -- a minus sign at the front belongs to no operand
  have hfront : ∀ s : Sum, s.Worded → ∀ w u, s.products.chars Product.chars ++ w ≠ '-' :: u := by
    intro s hs w u h
    obtain ⟨c, cs, hc, hbegins⟩ := Operand.exists_begins hs.1.1
    rw [Chain.chars, Product.chars, Chain.chars, hc] at h
    exact hbegins.ne_minus (List.cons.inj h).1
  intro s s' hs hs' hn u v hu hv h
  obtain ⟨negated, products⟩ := s
  obtain ⟨negated', products'⟩ := s'
  have hlen : (products.chars Product.chars).length < n := by
    simp only [Sum.chars, List.length_append] at hn
    omega
  cases negated with
  | false =>
    cases negated' with
    | false =>
      obtain ⟨rfl, huv⟩ := hproducts _ _ hs hs' hlen u v hu hv h
      exact ⟨rfl, huv⟩
    | true => exact absurd h (hfront _ hs _ _)
  | true =>
    cases negated' with
    | false => exact absurd h.symm (hfront _ hs' _ _)
    | true =>
      obtain ⟨rfl, huv⟩ := hproducts _ _ hs hs' hlen u v hu hv (List.cons.inj h).2
      exact ⟨rfl, huv⟩

/-! ## What the parts stand for -/

namespace Operand

/-- The operand is this atom as a factor: a division stands in brackets there. -/
inductive IsFactor : Operand → Atom → Prop
  | place (x : String) (indices : List Poly) : IsFactor (place x indices) (Atom.place x indices)
  | bracket {a : Atom} (hc : a.compound = true) : IsFactor (bracket (Poly.atom a)) a

/-- The operand is this polynomial in a division. -/
inductive IsDivided : Operand → Poly → Prop
  | number (n : Nat) : IsDivided (number n) (Poly.constant n)
  | place (x : String) (indices : List Poly) :
      IsDivided (place x indices) (Poly.atom (Atom.place x indices))
  | bracket (p : Poly) : IsDivided (bracket p) p

theorem IsFactor.unique : Relator.RightUnique IsFactor := by
  intro o a b ha hb
  cases ha with
  | place x indices => cases hb; rfl
  | bracket hc =>
    generalize hp : Poly.atom a = p at hb
    cases hb with
    | bracket hc' =>
      simp only [Poly.atom, Poly.mk.injEq, List.cons.injEq, Term.mk.injEq, Monomial.ofAtom,
        Monomial.mk.injEq, and_true] at hp
      exact hp

theorem IsDivided.unique : Relator.RightUnique IsDivided := by
  intro o p q hp hq
  cases hp <;> cases hq <;> rfl

end Operand

/-- The operator of a division. -/
def sign : Division → Char
  | .quotient => '/'
  | .remainder => '%'

/-- The product is a term of this size with these factors. -/
inductive Product.IsTerm : Product → Nat → List Atom → Prop
  | sized (n : Nat) {os : List Operand} {as : List Atom} (h : List.Forall₂ Operand.IsFactor os as) :
      IsTerm ⟨.number n, os.map ('*', ·)⟩ n as
  | factors {o : Operand} {a : Atom} {os : List Operand} {as : List Atom} (ho : o.IsFactor a)
      (h : List.Forall₂ Operand.IsFactor os as) : IsTerm ⟨o, os.map ('*', ·)⟩ 1 (a :: as)
  | division (part : Division) {o o' : Operand} {p q : Poly} (hp : o.IsDivided p)
      (hq : o'.IsDivided q) : IsTerm ⟨o, [(sign part, o')]⟩ 1 [part.atom p q]

theorem Product.IsTerm.unique {c : Product} {m n : Nat} {as bs : List Atom} (h : c.IsTerm m as)
    (h' : c.IsTerm n bs) : m = n ∧ as = bs := by
  have hfactors : ∀ {os os' : List Operand} {as bs : List Atom},
      os.map (fun o => ('*', o)) = os'.map (fun o => ('*', o)) →
      List.Forall₂ Operand.IsFactor os as → List.Forall₂ Operand.IsFactor os' bs → as = bs := by
    intro os os' as bs he has hbs
    rw [List.map_inj_right fun o o' h => (Prod.mk.inj h).2] at he
    exact Operand.IsFactor.unique.forall₂ has (he ▸ hbs)
  -- a star is no operator of a division
  have hdivision : ∀ {part : Division} {o : Operand} {os : List Operand},
      os.map (fun o => ('*', o)) ≠ [(sign part, o)] := by
    intro part o os he
    have hmem : (sign part, o) ∈ os.map (fun o => ('*', o)) := by simp [he]
    obtain ⟨o', -, ho'⟩ := List.mem_map.1 hmem
    cases part <;> exact absurd (Prod.mk.inj ho').1 (by decide)
  generalize hd : c = d at h'
  cases h with
  | sized m has =>
    cases h' with
    | sized n hbs =>
      simp only [Chain.mk.injEq, Operand.number.injEq] at hd
      exact ⟨hd.1, hfactors hd.2 has hbs⟩
    | factors ho hbs =>
      cases (Chain.mk.inj hd).1
      cases ho
    | division part hp hq => exact absurd (Chain.mk.inj hd).2 hdivision
  | factors ho has =>
    cases h' with
    | sized n hbs =>
      cases (Chain.mk.inj hd).1
      cases ho
    | factors ho' hbs =>
      obtain ⟨rfl, hos⟩ := Chain.mk.inj hd
      rw [Operand.IsFactor.unique ho ho', hfactors hos has hbs]
      exact ⟨rfl, rfl⟩
    | division part hp hq => exact absurd (Chain.mk.inj hd).2 hdivision
  | division part hp hq =>
    cases h' with
    | sized n hbs => exact absurd (Chain.mk.inj hd).2.symm hdivision
    | factors ho' hbs => exact absurd (Chain.mk.inj hd).2.symm hdivision
    | division part' hp' hq' =>
      obtain ⟨rfl, hrest⟩ := Chain.mk.inj hd
      obtain ⟨hsign, rfl⟩ := Prod.mk.inj (List.cons.inj hrest).1
      obtain rfl : part = part' := by
        cases part <;> cases part' <;> first | rfl | exact absurd hsign (by decide)
      rw [Operand.IsDivided.unique hp hp', Operand.IsDivided.unique hq hq']
      exact ⟨rfl, rfl⟩

/-- The product is this term, after its sign. -/
def IsSigned (x : Char × Product) (t : Term) : Prop :=
  x.1 = (if t.coeff < 0 then '-' else '+') ∧ x.2.IsTerm t.coeff.natAbs t.monomial.factors

theorem IsSigned.unique : Relator.RightUnique IsSigned := by
  rintro ⟨op, c⟩ ⟨⟨as, has⟩, m⟩ ⟨⟨bs, hbs⟩, n⟩ ⟨hop, h⟩ ⟨hop', h'⟩
  obtain ⟨habs, rfl⟩ := h.unique h'
  have hmn : m = n := by
    dsimp only at hop hop' habs
    rw [hop] at hop'
    split at hop' <;> split at hop' <;> first | omega | exact absurd hop' (by decide)
  rw [hmn]

namespace Sum

/-- How the polynomial 0 is written. -/
def zero : Sum := ⟨false, ⟨⟨.number 0, []⟩, []⟩⟩

/-- Every product with its sign. -/
def signed (s : Sum) : List (Char × Product) :=
  (if s.negated then '-' else '+', s.products.first) :: s.products.rest

/-- The sum is this polynomial. -/
def IsPoly (s : Sum) (p : Poly) : Prop :=
  List.Forall₂ IsSigned s.signed p.written ∨ p.terms = [] ∧ s = zero

theorem not_isSigned_zero {p : Poly} : ¬List.Forall₂ IsSigned zero.signed p.written := by
  intro h
  obtain ⟨t, ts, ⟨-, ht⟩, -, hts⟩ := List.forall₂_cons_left_iff.1 h
  have hmem : t ∈ p.terms := Poly.mem_written.1 (by simp [hts])
  obtain ⟨habs, -⟩ := ht.unique (.sized 0 .nil)
  exact p.normal.nonzero t hmem (by omega)

theorem IsPoly.unique : Relator.RightUnique IsPoly := by
  rintro s p q (hp | ⟨hp, rfl⟩) (hq | ⟨hq, hs⟩)
  · have hw : p.written = q.written := IsSigned.unique.forall₂ hp hq
    have hperm := q.perm_written
    rw [← hw] at hperm
    exact Poly.eq_of_perm (p.perm_written.symm.trans hperm)
  · rw [hs] at hp
    exact absurd hp not_isSigned_zero
  · exact absurd hq not_isSigned_zero
  · exact Poly.eq_of_terms (hp.trans hq.symm)

end Sum

/-! ## Texts by their parts -/

theorem chars_place (x : String) (indices : List Poly) :
    (Operand.place x indices).chars = (Atom.place x indices).text.toList :=
  (Atom.text_foldl_subscript (.var x) indices).symm

theorem exists_factor {a : Atom} (h : a.Worded) :
    ∃ o : Operand, o.Worded ∧ o.IsFactor a ∧ o.chars = (Poly.factorText true a).toList := by
  cases hc : a.compound with
  | false =>
    obtain ⟨x, indices, hx, hindices, rfl⟩ := h.eq_place hc
    refine ⟨.place x indices, ⟨hx, hindices⟩, .place x indices, ?_⟩
    rw [chars_place, Poly.factorText, hc]
    rfl
  | true =>
    refine ⟨.bracket (Poly.atom a), .atom h, .bracket hc, ?_⟩
    simp [Operand.chars, Poly.factorText, hc, Poly.text_atom]

theorem exists_factors : ∀ {as : List Atom}, (∀ a ∈ as, a.Worded) →
    ∃ os : List Operand, (∀ o ∈ os, o.Worded) ∧ List.Forall₂ Operand.IsFactor os as ∧
      links Operand.chars (os.map ('*', ·)) =
        as.flatMap fun a => " * ".toList ++ (Poly.factorText true a).toList
  | [], _ => ⟨[], by simp, .nil, rfl⟩
  | a :: as, h => by
    obtain ⟨o, ho, hoa, hchars⟩ := exists_factor (h a (.head _))
    obtain ⟨os, hos, hosas, hlinks⟩ := exists_factors fun b hb => h b (.tail _ hb)
    refine ⟨o :: os, List.forall_mem_cons.2 ⟨ho, hos⟩, .cons hoa hosas, ?_⟩
    rw [List.flatMap_cons, ← hlinks, ← hchars]
    rfl

theorem exists_divided {p : Poly} (h : p.All Atom.Worded) :
    ∃ o : Operand, o.Worded ∧ o.IsDivided p ∧ o.chars = p.operandText.toList := by
  by_cases hf : p.isFactor = true
  · rw [Poly.operandText, if_pos hf]
    rcases Poly.isFactor_cases hf with ⟨n, rfl⟩ | ⟨a, hc, rfl⟩
    · exact ⟨.number n, trivial, .number n, by rw [Poly.text_constant]; rfl⟩
    · have ha : a.Worded := h _ (.head _) a (.head _)
      obtain ⟨x, indices, hx, hindices, rfl⟩ := ha.eq_place hc
      exact ⟨.place x indices, ⟨hx, hindices⟩, .place x indices, by rw [chars_place, Poly.text_atom]⟩
  · refine ⟨.bracket p, h, .bracket p, ?_⟩
    simp [Poly.operandText, hf, Operand.chars]

theorem toList_factorsText (a : Atom) (as : List Atom) :
    (Poly.factorsText true (a :: as)).toList = (Poly.factorText true a).toList ++
      as.flatMap fun b => " * ".toList ++ (Poly.factorText true b).toList := by
  induction as generalizing a with
  | nil => simp [Poly.factorsText]
  | cons b bs ih => simp [Poly.factorsText, ih]

/-- Every term is written as a product. -/
theorem exists_product {t : Term} (h : ∀ a ∈ t.monomial.factors, a.Worded) :
    ∃ c : Product, c.Worded ∧ c.IsTerm t.coeff.natAbs t.monomial.factors ∧
      c.chars = (Poly.termText t).toList := by
  have hstars : ∀ {os : List Operand}, (∀ o ∈ os, o.Worded) →
      ∀ x ∈ os.map (fun o => ('*', o)), x.1 ∈ ['*', '/', '%'] ∧ x.2.Worded := by
    intro os hos x hx
    obtain ⟨o, ho, rfl⟩ := List.mem_map.1 hx
    exact ⟨.head _, hos o ho⟩
  rcases Poly.termTree_cases t with ⟨hf, -, hs⟩ | ⟨a, hf, h1, -, hs⟩ | ⟨a, as, hf, -, h1, -, hs⟩ |
    ⟨hne, -, hs⟩
  · rw [hf, hs]
    refine ⟨⟨.number _, []⟩, ⟨trivial, by simp⟩, .sized _ .nil, ?_⟩
    simp [Product.chars, Chain.chars, links, Operand.chars]
  · have ha := h a (by simp [hf])
    rw [hf, h1, hs]
    cases hc : a.compound with
    | false =>
      obtain ⟨o, ho, hoa, hchars⟩ := exists_factor ha
      refine ⟨⟨o, []⟩, ⟨ho, by simp⟩, .factors hoa .nil, ?_⟩
      rw [Product.chars, Chain.chars, hchars, Poly.factorText, hc]
      exact List.append_nil _
    | true =>
      obtain ⟨part, p, q, hp, hq, rfl⟩ := ha.eq_division hc
      obtain ⟨o, ho, hop, hchars⟩ := exists_divided hp
      obtain ⟨o', ho', hoq, hchars'⟩ := exists_divided hq
      refine ⟨⟨o, [(sign part, o')]⟩, ⟨ho, ?_⟩, .division part hop hoq, ?_⟩
      · cases part <;> simpa [sign] using ho'
      · cases part <;> simp [Product.chars, Chain.chars, links, hchars, hchars', sign, Division.atom,
          Division.symbol]
  · rw [hf] at h
    obtain ⟨o, ho, hoa, hchars⟩ := exists_factor (h a (.head _))
    obtain ⟨os, hos, hosas, hlinks⟩ := exists_factors fun b hb => h b (.tail _ hb)
    rw [hf, h1, hs]
    refine ⟨⟨o, os.map ('*', ·)⟩, ⟨ho, hstars hos⟩, .factors hoa hosas, ?_⟩
    rw [toList_factorsText, ← hlinks, ← hchars]
    rfl
  · obtain ⟨a, as, hf⟩ := List.exists_cons_of_ne_nil hne
    obtain ⟨os, hos, hosas, hlinks⟩ := exists_factors h
    refine ⟨⟨.number t.coeff.natAbs, os.map ('*', ·)⟩, ⟨trivial, hstars hos⟩, .sized _ hosas, ?_⟩
    rw [hs, Product.chars, Chain.chars, hlinks, hf, String.toList_append, String.toList_append,
      toList_factorsText]
    simp [Operand.chars]

theorem exists_signed : ∀ {ts : List Term}, (∀ t ∈ ts, ∀ a ∈ t.monomial.factors, a.Worded) →
    ∃ xs : List (Char × Product), (∀ x ∈ xs, x.1 ∈ ['+', '-'] ∧ x.2.Worded) ∧
      List.Forall₂ IsSigned xs ts ∧ links Product.chars xs = (Poly.moreText ts).toList
  | [], _ => ⟨[], by simp, .nil, rfl⟩
  | t :: ts, h => by
    obtain ⟨c, hc, hct, hchars⟩ := exists_product (h t (.head _))
    obtain ⟨xs, hxs, hxsts, hlinks⟩ := exists_signed fun u hu => h u (.tail _ hu)
    refine ⟨(if t.coeff < 0 then '-' else '+', c) :: xs, List.forall_mem_cons.2 ⟨⟨?_, hc⟩, hxs⟩,
      .cons ⟨rfl, hct⟩ hxsts, ?_⟩
    · dsimp only
      split <;> decide
    · rw [Poly.moreText, String.toList_append, String.toList_append, ← hlinks, ← hchars, links,
        List.flatMap_cons]
      split <;> simp [links]

/-- Every polynomial is written as a sum. -/
theorem exists_sum {p : Poly} (h : p.All Atom.Worded) :
    ∃ s : Sum, s.Worded ∧ s.IsPoly p ∧ s.chars = p.text.toList := by
  have hw := h.written
  cases hts : p.written with
  | nil =>
    have hterms : p.terms = [] := by
      have hperm := p.perm_written
      rw [hts] at hperm
      exact hperm.nil_eq.symm
    refine ⟨.zero, ⟨⟨trivial, by simp [Sum.zero]⟩, by simp [Sum.zero]⟩, .inr ⟨hterms, rfl⟩, ?_⟩
    rw [Poly.text, hts]
    decide
  | cons t ts =>
    rw [hts] at hw
    obtain ⟨c, hc, hct, hchars⟩ := exists_product (hw t (.head _))
    obtain ⟨xs, hxs, hxsts, hlinks⟩ := exists_signed fun u hu => hw u (.tail _ hu)
    refine ⟨⟨decide (t.coeff < 0), ⟨c, xs⟩⟩, ⟨hc, hxs⟩, .inl ?_, ?_⟩
    · rw [hts]
      exact .cons ⟨by simp, hct⟩ hxsts
    · rw [Poly.text, hts]
      simp only [Sum.chars, Chain.chars, hchars, hlinks, String.toList_append, decide_eq_true_eq]
      split <;> simp

/-- By induction on the length: texts in brackets are shorter. -/
theorem known_poly (n : Nat) :
    Known n (Poly.All Atom.Worded) (fun p => p.text.toList) EndsSum := by
  induction n with
  | zero => intro p q _ _ hn; exact absurd hn (Nat.not_lt_zero _)
  | succ n ih =>
    intro p q hp hq hn u v hu hv h
    obtain ⟨s, hs, hsp, hchars⟩ := exists_sum hp
    obtain ⟨s', hs', hsq, hchars'⟩ := exists_sum hq
    dsimp only at h hn
    rw [← hchars] at h hn
    rw [← hchars'] at h
    obtain ⟨rfl, huv⟩ := (Known.operand ih).sum s s' hs hs' hn u v hu hv h
    exact ⟨Sum.IsPoly.unique hsp hsq, huv⟩

end Written

/-- A text is the canonical text of one polynomial at most. -/
theorem Poly.eq_of_text {p q : Poly} (hp : p.All Atom.Worded) (hq : q.All Atom.Worded)
    (h : p.text = q.text) : p = q := by
  have hend : Written.EndsSum [] := by simp [Written.EndsSum]
  have htext : p.text.toList ++ [] = q.text.toList ++ [] := by rw [h]
  exact (Written.known_poly _ p q hp hq (Nat.lt_succ_self _) [] [] hend hend htext).1

namespace Expr

theorem toPoly_of_canonicalize {e : Expr} {s : String} (h : e.canonicalize = .ok s) :
    ∃ p, e.toPoly = .ok p ∧ p.text = s := by
  obtain ⟨p, hp, hs⟩ := ok_of_bind h
  exact ⟨p, toPoly_of_polynomial hp, Except.ok.inj hs⟩

/-- Expressions with the same canonical text have the same polynomial. -/
theorem toPoly_eq_of_canonicalize {e₁ e₂ : Expr} (hn₁ : ∀ x ∈ e₁.names, Word.IsWord x)
    (hn₂ : ∀ x ∈ e₂.names, Word.IsWord x) {s : String} (h₁ : e₁.canonicalize = .ok s)
    (h₂ : e₂.canonicalize = .ok s) : e₁.toPoly = e₂.toPoly := by
  obtain ⟨p, hp, hps⟩ := toPoly_of_canonicalize h₁
  obtain ⟨q, hq, hqs⟩ := toPoly_of_canonicalize h₂
  have hpq : p = q :=
    Poly.eq_of_text (worded_of_toPoly hn₁ hp) (worded_of_toPoly hn₂ hq) (hps.trans hqs.symm)
  rw [hp, hq, hpq]

end Expr

end ReaderGen
