import ReaderGen.Token.Cursor

/-!
# Brackets that match

Which brackets are open after some tokens, and where the first block begins that no bracket encloses.

* `Token.openAfter`: the brackets that are open.
* `Token.SelfContained`: tokens whose brackets match among themselves and which hold no block outside
  of them. Their end can be told from what follows them: `Token.SelfContained.eq_of_block`.
-/

namespace ReaderGen

/-! ## Brackets -/

namespace Token

def isBracket : Token → Bool
  | opening _ => true
  | closing _ => true
  | _ => false

/-- The brackets that are open after some tokens, innermost first, if none is closed that is not the
innermost one. -/
def openAfter : List Bracket → List Token → Option (List Bracket)
  | stack, [] => some stack
  | stack, opening b :: ts => openAfter (b :: stack) ts
  | b :: stack, closing b' :: ts => if b = b' then openAfter stack ts else none
  | [], closing _ :: _ => none
  | stack, _ :: ts => openAfter stack ts

theorem openAfter_append (stack : List Bracket) (ts us : List Token) :
    openAfter stack (ts ++ us) = (openAfter stack ts).bind (openAfter · us) := by
  induction ts generalizing stack with
  | nil => rfl
  | cons t ts ih =>
    cases t with
    | closing b' =>
      cases stack with
      | nil => rfl
      | cons b stack =>
        rw [List.cons_append, openAfter, openAfter]
        split
        · exact ih stack
        · rfl
    | opening b => exact ih (b :: stack)
    | _ => cases stack <;> exact ih _

theorem openAfter_of_not_bracket {t : Token} (h : t.isBracket = false) (stack : List Bracket)
    (ts : List Token) : openAfter stack (t :: ts) = openAfter stack ts := by
  cases t with
  | opening b => cases h
  | closing b => cases h
  | _ => cases stack <;> rfl

theorem openAfter_of_not_brackets {ts : List Token} (h : ∀ t ∈ ts, t.isBracket = false)
    (stack : List Bracket) (us : List Token) : openAfter stack (ts ++ us) = openAfter stack us := by
  induction ts with
  | nil => rfl
  | cons t ts ih =>
    rw [List.cons_append, openAfter_of_not_bracket (h t (.head _)), ih fun u hu => h u (.tail _ hu)]

/-- Brackets around tokens do not matter to those that match among themselves. -/
theorem openAfter_around {stack stack' : List Bracket} {ts : List Token}
    (h : openAfter stack ts = some stack') (outer : List Bracket) :
    openAfter (stack ++ outer) ts = some (stack' ++ outer) := by
  induction ts generalizing stack with
  | nil => cases h; rfl
  | cons t ts ih =>
    cases t with
    | opening b => exact ih h
    | closing b' =>
      cases stack with
      | nil => cases h
      | cons b stack =>
        rw [openAfter] at h
        rw [List.cons_append, openAfter]
        split at h
        · rename_i hb
          rw [if_pos hb]
          exact ih h
        · cases h
    | _ =>
      rw [openAfter_of_not_bracket rfl] at h ⊢
      exact ih h

theorem openAfter_balanced {used : List Token} (h : openAfter [] used = some [])
    (stack : List Bracket) (ts : List Token) :
    openAfter stack (used ++ ts) = openAfter stack ts := by
  rw [openAfter_append, ← List.nil_append stack, openAfter_around h stack]
  rfl

theorem openAfter_bracketed {b : Bracket} {inner : List Token} (h : openAfter [] inner = some []) :
    openAfter [] (bracketed b inner) = some [] := by
  rw [bracketed, List.cons_append, openAfter, openAfter_balanced h, openAfter, if_pos rfl]
  rfl

/-! ## Blocks outside of brackets -/

/-- The tokens before the first block that stands in no bracket, if `depth` brackets are open around
them. -/
def upToBlock : Nat → List Token → List Token
  | _, [] => []
  | depth, t :: ts =>
    match t with
    | opening b => if depth = 0 ∧ b = .curly then [] else t :: upToBlock (depth + 1) ts
    | closing _ => t :: upToBlock (depth - 1) ts
    | _ => t :: upToBlock depth ts

theorem upToBlock_of_not_bracket {t : Token} (h : t.isBracket = false) (depth : Nat)
    (ts : List Token) : upToBlock depth (t :: ts) = t :: upToBlock depth ts := by
  cases t with
  | opening b => cases h
  | closing b => cases h
  | _ => rfl

/-- Within a bracket there is no block that stands in none. -/
theorem upToBlock_within {stack stack' : List Bracket} {inner : List Token}
    (h : openAfter stack inner = some stack') (depth : Nat) (ts : List Token) :
    upToBlock (depth + 1 + stack.length) (inner ++ ts) =
      inner ++ upToBlock (depth + 1 + stack'.length) ts := by
  induction inner generalizing stack with
  | nil => cases h; rfl
  | cons t inner ih =>
    cases t with
    | opening b =>
      rw [List.cons_append, upToBlock, if_neg (by omega)]
      exact congrArg _ (ih h)
    | closing b' =>
      cases stack with
      | nil => cases h
      | cons b stack =>
        rw [openAfter] at h
        split at h
        · exact congrArg _ (ih h)
        · cases h
    | _ =>
      rw [openAfter_of_not_bracket rfl] at h
      rw [List.cons_append, upToBlock_of_not_bracket rfl, ih h]
      rfl

/-- The brackets among the tokens match, and no block stands outside of them. -/
structure SelfContained (used : List Token) : Prop where
  balanced : openAfter [] used = some []
  blockless : ∀ ts, upToBlock 0 (used ++ ts) = used ++ upToBlock 0 ts

namespace SelfContained

theorem nil : SelfContained [] := ⟨rfl, fun _ => rfl⟩

theorem append {u v : List Token} (hu : SelfContained u) (hv : SelfContained v) :
    SelfContained (u ++ v) where
  balanced := by rw [openAfter_balanced hu.balanced, hv.balanced]
  blockless := by
    intro ts
    rw [List.append_assoc, hu.blockless, hv.blockless, List.append_assoc]

theorem of_not_bracket {t : Token} (h : t.isBracket = false) : SelfContained [t] where
  balanced := openAfter_of_not_bracket h [] []
  blockless := upToBlock_of_not_bracket h 0

theorem cons {t : Token} {u : List Token} (h : t.isBracket = false) (hu : SelfContained u) :
    SelfContained (t :: u) :=
  (of_not_bracket h).append hu

theorem bracketed {b : Bracket} (hb : b ≠ .curly) {inner : List Token}
    (h : openAfter [] inner = some []) : SelfContained (bracketed b inner) where
  balanced := openAfter_bracketed h
  blockless := by
    intro ts
    have hinner := upToBlock_within h 0 (closing b :: ts)
    rw [Token.bracketed, List.cons_append, List.cons_append, List.append_assoc, upToBlock,
      if_neg (fun hcurly => hb hcurly.2)]
    simpa [upToBlock] using hinner

/-- What stands before a block is all that stands before the first one. -/
theorem eq_of_block {u v ts us : List Token} (hu : SelfContained u) (hv : SelfContained v)
    (h : u ++ opening .curly :: ts = v ++ opening .curly :: us) : u = v := by
  have hblock : ∀ {w ts : List Token}, SelfContained w →
      upToBlock 0 (w ++ opening .curly :: ts) = w := by
    intro w ts hw
    rw [hw.blockless]
    exact List.append_nil w
  rw [← hblock hu, h, hblock hv]

end SelfContained

end Token

/-! ## Runs of punctuation -/

namespace Cursor

/-- A run of punctuation ends with the first other token, whatever follows. -/
theorem runOf_append {used : List Token} (h : ∃ t ∈ used, ∀ c joint, t ≠ .punct c joint)
    (ts us : List Token) : runOf (used ++ ts) = runOf (used ++ us) := by
  induction used with
  | nil => obtain ⟨t, ht, -⟩ := h; cases ht
  | cons t used ih =>
    cases t with
    | punct c joint =>
      cases joint with
      | false => rfl
      | true =>
        obtain ⟨t, ht, hp⟩ := h
        rcases List.mem_cons.1 ht with rfl | ht
        · exact absurd rfl (hp c true)
        · exact congrArg (c :: ·) (ih ⟨t, ht, hp⟩)
    | _ => rfl

end Cursor

end ReaderGen
