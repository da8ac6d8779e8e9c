import ReaderGen.Names

/-!
# Monomials

Products of atoms. An atom is a variable, a subscripted variable, or a quotient or remainder that
cannot be taken further; it is known by its text. The factors of a product are kept in order, so that
equal products are equal values.

* `Atom.isOrder`, `Monomial.isOrder`: atoms and products are each in one line.
-/

namespace ReaderGen

open Text

/-! ## Atoms -/

/-- A factor that arithmetic does not look into. -/
structure Atom where
  text : String
  /-- Whether the text has an operator at its top, and needs brackets inside a product. -/
  compound : Bool
  /-- The variables that the text mentions. -/
  vars : Names
deriving DecidableEq, Repr

namespace Atom

def var (name : String) : Atom := ⟨name, false, .singleton name⟩

/-- By text first. -/
def order (a b : Atom) : Ordering :=
  match textOrder a.text b.text with
  | .eq =>
    match boolOrder a.compound b.compound with
    | .eq => lexOrder textOrder a.vars.toList b.vars.toList
    | other => other
  | other => other

theorem order_lt_iff {a b : Atom} : a.order b = .lt ↔
    textOrder a.text b.text = .lt ∨ a.text = b.text ∧
      (boolOrder a.compound b.compound = .lt ∨ a.compound = b.compound ∧
        lexOrder textOrder a.vars.toList b.vars.toList = .lt) := by
  unfold order
  rw [← IsOrder.text.eq_iff, ← IsOrder.bool.eq_iff]
  cases textOrder a.text b.text <;> cases boolOrder a.compound b.compound <;> simp

theorem isOrder : IsOrder order where
  eq_iff a b := by
    obtain ⟨t, c, ⟨vs, hv⟩⟩ := a
    obtain ⟨u, d, ⟨ws, hw⟩⟩ := b
    have ht := IsOrder.text.eq_iff t u
    have hc := IsOrder.bool.eq_iff c d
    have hl := IsOrder.text.lex.eq_iff vs ws
    simp only [order, mk.injEq, Names.mk.injEq, ← ht, ← hc, ← hl]
    cases textOrder t u <;> cases boolOrder c d <;> simp
  gt_iff a b := by
    have ht := IsOrder.text.gt_iff a.text b.text
    have hc := IsOrder.bool.gt_iff a.compound b.compound
    have hl := IsOrder.text.lex.gt_iff a.vars.toList b.vars.toList
    rw [order_lt_iff, ← ht, ← hc, ← hl, @eq_comm _ b.text, @eq_comm _ b.compound,
      ← IsOrder.text.eq_iff, ← IsOrder.bool.eq_iff, order]
    cases textOrder a.text b.text <;> cases boolOrder a.compound b.compound <;> simp
  trans a b c := by
    rw [order_lt_iff, order_lt_iff, order_lt_iff]
    rintro (h | ⟨h, h' | ⟨h', h''⟩⟩) (k | ⟨k, k' | ⟨k', k''⟩⟩)
    · exact .inl (IsOrder.text.trans _ _ _ h k)
    · exact .inl (k ▸ h)
    · exact .inl (k ▸ h)
    · exact .inl (h ▸ k)
    · exact .inr ⟨h.trans k, .inl (IsOrder.bool.trans _ _ _ h' k')⟩
    · exact .inr ⟨h.trans k, .inl (k' ▸ h')⟩
    · exact .inl (h ▸ k)
    · exact .inr ⟨h.trans k, .inl (h' ▸ k')⟩
    · exact .inr ⟨h.trans k, .inr ⟨h'.trans k', IsOrder.text.lex.trans _ _ _ h'' k''⟩⟩

end Atom

/-! ## Monomials -/

/-- A product of atoms, in order. The empty product is 1. -/
structure Monomial where
  factors : List Atom
  sorted : factors.Pairwise (fun a b => a.order b ≠ .gt)
deriving DecidableEq, Repr

namespace Monomial

def one : Monomial := ⟨[], .nil⟩

def ofAtom (a : Atom) : Monomial := ⟨[a], List.pairwise_singleton _ a⟩

def order (m n : Monomial) : Ordering := lexOrder Atom.order m.factors n.factors

theorem isOrder : IsOrder order where
  eq_iff m n := by
    rw [order, Atom.isOrder.lex.eq_iff]
    exact ⟨fun h => by cases m; cases n; cases h; rfl, fun h => by rw [h]⟩
  gt_iff _ _ := Atom.isOrder.lex.gt_iff _ _
  trans _ _ _ := Atom.isOrder.lex.trans _ _ _

/-- Puts an atom in its place. -/
def insertFactor (a : Atom) : List Atom → List Atom
  | [] => [a]
  | b :: bs =>
    match a.order b with
    | .gt => b :: insertFactor a bs
    | _ => a :: b :: bs

theorem mem_insertFactor {a b : Atom} {bs : List Atom} :
    b ∈ insertFactor a bs ↔ b = a ∨ b ∈ bs := by
  induction bs with
  | nil => simp [insertFactor]
  | cons c cs ih =>
    rw [insertFactor]
    split
    · simp only [List.mem_cons, ih]
      exact ⟨fun h => h.elim (.inr ∘ .inl) (Or.imp_right .inr),
        fun h => h.elim (.inr ∘ .inl) (Or.imp_right .inr)⟩
    · simp

theorem order_ne_gt_trans {a b c : Atom} (hab : a.order b ≠ .gt) (hbc : b.order c ≠ .gt) :
    a.order c ≠ .gt := by
  intro hac
  rw [Atom.isOrder.gt_iff] at hac
  cases h : a.order b with
  | lt => exact hbc ((Atom.isOrder.gt_iff b c).2 (Atom.isOrder.trans c a b hac h))
  | eq =>
    rw [Atom.isOrder.eq_iff] at h
    subst h
    exact hbc ((Atom.isOrder.gt_iff a c).2 hac)
  | gt => exact hab h

theorem pairwise_insertFactor {a : Atom} {bs : List Atom}
    (h : bs.Pairwise (fun a b => a.order b ≠ .gt)) :
    (insertFactor a bs).Pairwise (fun a b => a.order b ≠ .gt) := by
  induction bs with
  | nil => simp [insertFactor]
  | cons b bs ih =>
    have ⟨hb, hbs⟩ := List.pairwise_cons.1 h
    rw [insertFactor]
    split
    · rename_i hab
      refine List.pairwise_cons.2 ⟨fun c hc => ?_, ih hbs⟩
      rcases mem_insertFactor.1 hc with rfl | hc
      · rw [Atom.isOrder.gt_iff] at hab
        simp [hab]
      · exact hb c hc
    · rename_i hab
      refine List.pairwise_cons.2 ⟨fun c hc => ?_, h⟩
      rcases List.mem_cons.1 hc with rfl | hc
      · exact hab
      · exact order_ne_gt_trans hab (hb c hc)

theorem pairwise_foldr_insertFactor {as bs : List Atom}
    (h : bs.Pairwise (fun a b => a.order b ≠ .gt)) :
    (as.foldr insertFactor bs).Pairwise (fun a b => a.order b ≠ .gt) := by
  induction as with
  | nil => exact h
  | cons a as ih => exact pairwise_insertFactor ih

def mul (m n : Monomial) : Monomial :=
  ⟨m.factors.foldr insertFactor n.factors, pairwise_foldr_insertFactor n.sorted⟩

end Monomial

end ReaderGen
