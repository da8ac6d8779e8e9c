/-!
# Orders

Texts are ordered by code points, lists lexicographically. All sets and sums that are shown to the
user are kept in this order.

* `IsOrder`: what is asked of an order: only equal things compare as equal, exchanging two things
  turns the answer around, and smaller is transitive.
* `IsOrder.lex`: the lexicographic order of lists is one if the order of their elements is.
-/

namespace ReaderGen.Text

/-- Lexicographic order of lists; a proper beginning of a list comes before it. -/
def lexOrder {α : Type} (order : α → α → Ordering) : List α → List α → Ordering
  | [], [] => .eq
  | [], _ :: _ => .lt
  | _ :: _, [] => .gt
  | a :: as, b :: bs =>
    match order a b with
    | .eq => lexOrder order as bs
    | other => other

/-- Characters by code point. -/
def charOrder (a b : Char) : Ordering :=
  if a.toNat < b.toNat then .lt else if b.toNat < a.toNat then .gt else .eq

/-- Texts by code points. -/
def textOrder (a b : String) : Ordering :=
  lexOrder charOrder a.toList b.toList

/-- `false` comes before `true`. -/
def boolOrder : Bool → Bool → Ordering
  | false, true => .lt
  | true, false => .gt
  | _, _ => .eq

/-! ## Laws -/

/-- A comparison that puts everything in one line. -/
structure IsOrder {α : Type} (order : α → α → Ordering) : Prop where
  eq_iff : ∀ a b, order a b = .eq ↔ a = b
  gt_iff : ∀ a b, order a b = .gt ↔ order b a = .lt
  trans : ∀ a b c, order a b = .lt → order b c = .lt → order a c = .lt

namespace IsOrder

theorem refl {α : Type} {order : α → α → Ordering} (h : IsOrder order) (a : α) :
    order a a = .eq := (h.eq_iff a a).2 rfl

theorem lt_irrefl {α : Type} {order : α → α → Ordering} (h : IsOrder order) (a : α) :
    order a a ≠ .lt := by simp [h.refl a]

theorem lt_asymm {α : Type} {order : α → α → Ordering} (h : IsOrder order) {a b : α}
    (hab : order a b = .lt) : order b a ≠ .lt :=
  fun hba => h.lt_irrefl a (h.trans a b a hab hba)

theorem char : IsOrder charOrder where
  eq_iff a b := by
    unfold charOrder
    constructor
    · intro h
      split at h
      · cases h
      · split at h
        · cases h
        · exact Char.toNat_inj.1 (by omega)
    · rintro rfl
      simp
  gt_iff a b := by grind [charOrder]
  trans a b c := by grind [charOrder]

theorem bool : IsOrder boolOrder where
  eq_iff := by decide
  gt_iff := by decide
  trans := by decide

section Lex

variable {α : Type} {order : α → α → Ordering}

theorem lex_eq_iff (h : IsOrder order) : ∀ as bs, lexOrder order as bs = .eq ↔ as = bs
  | [], [] => by simp [lexOrder]
  | [], _ :: _ => by simp [lexOrder]
  | _ :: _, [] => by simp [lexOrder]
  | a :: as, b :: bs => by
    have ih := lex_eq_iff h as bs
    rw [lexOrder]
    cases hab : order a b with
    | eq => simp [ih, (h.eq_iff a b).1 hab]
    | lt => simpa using fun e : a = b => by rw [(h.eq_iff a b).2 e] at hab; cases hab
    | gt => simpa using fun e : a = b => by rw [(h.eq_iff a b).2 e] at hab; cases hab

/-- A list is smaller if it ends first, or at the first place where the two differ. -/
theorem lex_cons_lt_iff (h : IsOrder order) (a b : α) (as bs : List α) :
    lexOrder order (a :: as) (b :: bs) = .lt ↔
      order a b = .lt ∨ a = b ∧ lexOrder order as bs = .lt := by
  rw [lexOrder]
  cases hab : order a b with
  | lt => simp
  | eq => simp [(h.eq_iff a b).1 hab]
  | gt =>
    simp only [reduceCtorEq, false_or, false_iff, not_and]
    intro e
    rw [(h.eq_iff a b).2 e] at hab
    cases hab

theorem lex_gt_iff (h : IsOrder order) : ∀ as bs,
    lexOrder order as bs = .gt ↔ lexOrder order bs as = .lt
  | [], [] => by simp [lexOrder]
  | [], _ :: _ => by simp [lexOrder]
  | _ :: _, [] => by simp [lexOrder]
  | a :: as, b :: bs => by
    have ih := lex_gt_iff h as bs
    rw [lex_cons_lt_iff h, lexOrder]
    cases hab : order a b with
    | lt =>
      have hne : b ≠ a := by
        rintro rfl
        exact h.lt_irrefl b hab
      simp [h.lt_asymm hab, hne]
    | eq =>
      have e := (h.eq_iff a b).1 hab
      subst e
      simp [hab, ih]
    | gt => simp [(h.gt_iff a b).1 hab]

theorem lex_trans (h : IsOrder order) : ∀ as bs cs, lexOrder order as bs = .lt →
    lexOrder order bs cs = .lt → lexOrder order as cs = .lt
  | [], _, [] => by
    intro hab hbc
    rename_i bs
    cases bs with
    | nil => exact hab
    | cons b bs => simp [lexOrder] at hbc
  | [], _, _ :: _ => by simp [lexOrder]
  | _ :: _, [], _ => by simp [lexOrder]
  | _ :: _, _ :: _, [] => by simp [lexOrder]
  | a :: as, b :: bs, c :: cs => by
    have ih := lex_trans h as bs cs
    rw [lex_cons_lt_iff h, lex_cons_lt_iff h, lex_cons_lt_iff h]
    rintro (hab | ⟨rfl, hab⟩) (hbc | ⟨rfl, hbc⟩)
    · exact .inl (h.trans a b c hab hbc)
    · exact .inl hab
    · exact .inl hbc
    · exact .inr ⟨rfl, ih hab hbc⟩

theorem lex (h : IsOrder order) : IsOrder (lexOrder order) :=
  ⟨lex_eq_iff h, lex_gt_iff h, lex_trans h⟩

end Lex

theorem text : IsOrder textOrder where
  eq_iff a b := by rw [textOrder, char.lex.eq_iff, String.toList_inj]
  gt_iff _ _ := char.lex.gt_iff _ _
  trans _ _ _ := char.lex.trans _ _ _

end IsOrder

end ReaderGen.Text
