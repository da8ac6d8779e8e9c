import Mathlib.Data.List.Chain
import ReaderGen.Code.Merge

/-!
# The normal form of a code

An optimized code holds no block within a block, and nowhere stand two declarations, two reads or two
writes next to each other. One pass is enough: what `absorb` puts out cannot be merged with what comes
after it, and the blocks that are dissolved hold no blocks themselves.

* `Kind`, `Code.kind?`, `Kind.alike`: which statements can be one statement.
* `Code.IsNormal`: nothing can be dissolved or merged, at any depth.
* `isChain_absorb`, `of_mem_absorb`: what merging neighbours leaves.
* `isNormal_optimize`, `optimize_of_isNormal`: optimizing yields a normal form, and keeps one.
* `Code.Hereditary.optimize`: it keeps what holds of every statement.
* `optimize_normalizes`: both at once.
-/

namespace ReaderGen

/-- A kind of statement of which several in a row can be one. -/
inductive Kind
  | decl
  | read
  | write
deriving DecidableEq, Repr

/-- Two statements that can be one: both declare, both read or both write. -/
def Kind.alike (a b : Option Kind) : Bool := a.isSome && a = b

namespace Code

def kind? : Code → Option Kind
  | decl _ => some .decl
  | read _ => some .read
  | write _ => some .write
  | block _ | loop _ _ _ | line _ => none

def isBlock : Code → Bool
  | block _ => true
  | decl _ | read _ | write _ | loop _ _ _ | line _ => false

mutual

/-- In every block of the code, those in loops included, stands no block, and no two neighbours can be
one statement. -/
def IsNormal : Code → Prop
  | block nodes =>
    (∀ c ∈ nodes, c.isBlock = false) ∧
      nodes.IsChain (fun a b => Kind.alike a.kind? b.kind? = false) ∧ AllNormal nodes
  | loop _ _ body => IsNormal body
  | decl _ | read _ | write _ | line _ => True

def AllNormal : List Code → Prop
  | [] => True
  | c :: cs => IsNormal c ∧ AllNormal cs

end

theorem allNormal_iff {cs : List Code} : AllNormal cs ↔ ∀ c ∈ cs, c.IsNormal := by
  induction cs with
  | nil => simp [AllNormal]
  | cons c cs ih => simp [AllNormal, ih]

/-! ## Merging two statements -/

theorem kind?_of_merge? {a b c : Code} (h : a.merge? b = some c) :
    c.kind? = a.kind? ∧ c.isBlock = false ∧ c.IsNormal := by
  unfold merge? at h
  split at h
  · cases h; exact ⟨rfl, rfl, trivial⟩
  · cases h; exact ⟨rfl, rfl, trivial⟩
  · cases h; exact ⟨rfl, rfl, trivial⟩
  · cases h

theorem merge?_eq_none_iff {a b : Code} :
    a.merge? b = none ↔ Kind.alike a.kind? b.kind? = false := by
  cases a <;> cases b <;> simp [merge?, kind?, Kind.alike]

/-! ## Merging neighbours -/

/-- The first statement put out is of the kind of the first that was there. -/
theorem head_absorb (node : Code) (rest : List Code) :
    ∃ first others, absorb node rest = first :: others ∧ first.kind? = node.kind? := by
  induction rest generalizing node with
  | nil => exact ⟨node, [], rfl, rfl⟩
  | cons next rest ih =>
    rw [absorb]
    split
    · rename_i merged hm
      obtain ⟨first, others, habsorb, hkind⟩ := ih merged
      exact ⟨first, others, habsorb, hkind.trans (kind?_of_merge? hm).1⟩
    · exact ⟨node, absorb next rest, rfl, rfl⟩

/-- No two neighbours of what is put out can be merged. -/
theorem isChain_absorb (node : Code) (rest : List Code) :
    (absorb node rest).IsChain (fun a b => Kind.alike a.kind? b.kind? = false) := by
  induction rest generalizing node with
  | nil => exact .singleton node
  | cons next rest ih =>
    rw [absorb]
    split
    · exact ih _
    · rename_i hm
      obtain ⟨first, others, habsorb, hkind⟩ := head_absorb next rest
      have hrest := ih next
      rw [habsorb] at hrest ⊢
      refine List.isChain_cons_cons.2 ⟨?_, hrest⟩
      rw [hkind]
      exact merge?_eq_none_iff.1 hm

/-- Merging neighbours keeps a property of all of them that two have together when they are merged. -/
theorem of_mem_absorb {P : Code → Prop} (hmerge : ∀ {a b c}, a.merge? b = some c → P a → P b → P c)
    {node : Code} {rest : List Code} (hnode : P node) (hrest : ∀ c ∈ rest, P c) :
    ∀ c ∈ absorb node rest, P c := by
  induction rest generalizing node with
  | nil =>
    intro c hc
    rw [List.mem_singleton.1 hc]
    exact hnode
  | cons next rest ih =>
    have hothers : ∀ c ∈ rest, P c := fun c hc => hrest c (.tail _ hc)
    rw [absorb]
    split
    · rename_i merged hm
      exact ih (hmerge hm hnode (hrest next (.head _))) hothers
    · intro c hc
      rcases List.mem_cons.1 hc with rfl | hc
      · exact hnode
      · exact ih (hrest next (.head _)) hothers c hc

theorem of_mem_mergeAdjacent {P : Code → Prop}
    (hmerge : ∀ {a b c}, a.merge? b = some c → P a → P b → P c) {nodes : List Code}
    (h : ∀ c ∈ nodes, P c) : ∀ c ∈ mergeAdjacent nodes, P c := by
  cases nodes with
  | nil => exact h
  | cons c cs => exact of_mem_absorb hmerge (h c (.head _)) fun d hd => h d (.tail _ hd)

theorem isChain_mergeAdjacent (nodes : List Code) :
    (mergeAdjacent nodes).IsChain (fun a b => Kind.alike a.kind? b.kind? = false) := by
  cases nodes with
  | nil => exact .nil
  | cons c cs => exact isChain_absorb c cs

/-- Where nothing can be merged, nothing changes. -/
theorem mergeAdjacent_of_isChain {nodes : List Code}
    (h : nodes.IsChain (fun a b => Kind.alike a.kind? b.kind? = false)) :
    mergeAdjacent nodes = nodes := by
  induction nodes with
  | nil => rfl
  | cons c cs ih =>
    cases cs with
    | nil => rfl
    | cons d ds =>
      obtain ⟨hcd, hrest⟩ := List.isChain_cons_cons.1 h
      rw [mergeAdjacent, absorb, merge?_eq_none_iff.2 hcd]
      exact congrArg (c :: ·) (ih hrest)

/-! ## Dissolving blocks -/

/-- What a normal code leaves when it is dissolved is normal, and no block. -/
theorem IsNormal.of_mem_unfold {c : Code} (h : c.IsNormal) :
    ∀ d ∈ c.unfold, d.isBlock = false ∧ d.IsNormal := by
  cases c with
  | block nodes =>
    obtain ⟨hflat, -, hall⟩ := h
    exact fun d hd => ⟨hflat d hd, allNormal_iff.1 hall d hd⟩
  | decl _ | read _ | write _ | loop _ _ _ | line _ =>
    intro d hd
    obtain rfl := List.mem_singleton.1 hd
    exact ⟨rfl, h⟩

theorem flatMap_unfold_of_flat {nodes : List Code} (h : ∀ c ∈ nodes, c.isBlock = false) :
    nodes.flatMap unfold = nodes := by
  induction nodes with
  | nil => rfl
  | cons c cs ih =>
    have hc : c.unfold = [c] := by
      have := h c (.head _)
      cases c with
      | block nodes => cases this
      | _ => rfl
    rw [List.flatMap_cons, hc, ih fun d hd => h d (.tail _ hd)]
    rfl

/-! ## Whole codes -/

theorem isNormal_optimize (code : Code) : code.optimize.IsNormal := by
  induction code using Code.rec
    (motive_2 := fun cs => ∀ c ∈ optimizeAll cs, c.IsNormal) with
  | decl decls | read targets | write exprs | line text => trivial
  | loop counter size body ih => exact ih
  | block nodes ih =>
    -- what is dissolved came out of this same pass
    have hunfolded : ∀ d ∈ (optimizeAll nodes).flatMap unfold, d.isBlock = false ∧ d.IsNormal := by
      intro d hd
      obtain ⟨c, hc, hd⟩ := List.mem_flatMap.1 hd
      exact (ih c hc).of_mem_unfold d hd
    have hmerged := of_mem_mergeAdjacent (fun hm _ _ => (kind?_of_merge? hm).2) hunfolded
    exact ⟨fun c hc => (hmerged c hc).1, isChain_mergeAdjacent _,
      allNormal_iff.2 fun c hc => (hmerged c hc).2⟩
  | nil c hc => cases hc
  | cons c cs ihc ihcs d hd =>
    rcases List.mem_cons.1 hd with rfl | hd
    · exact ihc
    · exact ihcs d hd

/-- The property is one of all statements of a code, and two that are merged have it together. -/
structure Hereditary (P : Code → Prop) : Prop where
  block {nodes : List Code} : P (.block nodes) ↔ ∀ c ∈ nodes, P c
  loop {counter size : String} {body : Code} : P (.loop counter size body) ↔ P body
  merge {a b c : Code} (h : a.merge? b = some c) (ha : P a) (hb : P b) : P c

/-- Optimizing keeps such a property. -/
theorem Hereditary.optimize {P : Code → Prop} (hP : Hereditary P) {code : Code} (h : P code) :
    P code.optimize := by
  induction code using Code.rec
    (motive_2 := fun cs => (∀ c ∈ cs, P c) → ∀ c ∈ optimizeAll cs, P c) with
  | decl decls | read targets | write exprs | line text => exact h
  | loop counter size body ih => exact hP.loop.2 (ih (hP.loop.1 h))
  | block nodes ih =>
    have hunfold : ∀ {c}, P c → ∀ d ∈ c.unfold, P d := by
      intro c hc
      cases c with
      | block nodes => exact hP.block.1 hc
      | decl _ | read _ | write _ | loop _ _ _ | line _ =>
        intro d hd
        rwa [List.mem_singleton.1 hd]
    refine hP.block.2 (of_mem_mergeAdjacent hP.merge fun d hd => ?_)
    obtain ⟨c, hc, hd⟩ := List.mem_flatMap.1 hd
    exact hunfold (ih (hP.block.1 h) c hc) d hd
  | nil h c hc => cases hc
  | cons c cs ihc ihcs h d hd =>
    obtain ⟨hc, hcs⟩ := List.forall_mem_cons.1 h
    rcases List.mem_cons.1 hd with rfl | hd
    · exact ihc hc
    · exact ihcs hcs d hd

/-- Optimizing leaves a normal code as it is. -/
theorem optimize_of_isNormal {code : Code} (h : code.IsNormal) : code.optimize = code := by
  induction code using Code.rec
    (motive_2 := fun cs => AllNormal cs → optimizeAll cs = cs) with
  | decl decls | read targets | write exprs | line text => rfl
  | loop counter size body ih => rw [optimize, ih h]
  | block nodes ih =>
    obtain ⟨hflat, hchain, hall⟩ := h
    rw [optimize, ih hall, flatMap_unfold_of_flat hflat, mergeAdjacent_of_isChain hchain]
  | nil => rfl
  | cons c cs ihc ihcs hall => rw [optimizeAll, ihc hall.1, ihcs hall.2]

end Code

/-- In an optimized code, also in its loops, no block stands in a block and no two neighbours both
declare, both read or both write. So optimizing it again changes nothing. -/
theorem optimize_normalizes (code : Code) :
    code.optimize.IsNormal ∧ code.optimize.optimize = code.optimize :=
  ⟨code.isNormal_optimize, Code.optimize_of_isNormal code.isNormal_optimize⟩

end ReaderGen
