import ReaderGen.Proofs.NormalForm

/-!
# Merging by a queue

The children of a block can be dissolved and merged in one pass, without a list of all that is to be
merged. What is to come waits in a queue. Each node that is taken from it is merged into the last node that
was put out, if the two can be one; if not, a block gives its children back to the front of the queue, and
any other node is put out itself. Blocks are dissolved at any depth that way. Where the children of the
block are optimized one level is all there is, so the pass gives what `optimize` does.

* `Pass`, `Pass.step`, `Pass.run`: a pass, one node at a time; `Pass.Steps`: what one step does.
* `Pass.outcome`: what a pass comes to, said by the whole of what is left; `Pass.outcome_step`: one node
  does not change it.
* `Pass.run_optimizeAll`, `optimize_block`: a pass over optimized children merges them as `optimize` does.
-/

namespace ReaderGen.Code

/-! ## One node at a time -/

/-- A pass over nodes that are to be merged. -/
structure Pass where
  /-- What has been put out, the last node first. -/
  merged : List Code
  queue : List Code

/-- Merges a node into the last one of those that were put out. -/
def mergeLast? : List Code → Code → Option (List Code)
  | [], _ => none
  | last :: front, node => (last.merge? node).map (· :: front)

/-- Takes one node from the queue. -/
def Pass.step : Pass → Option Pass
  | ⟨_, []⟩ => none
  | ⟨merged, node :: queue⟩ =>
    match mergeLast? merged node with
    | some merged => some ⟨merged, queue⟩
    | none =>
      match node with
      | block nodes => some ⟨merged, nodes ++ queue⟩
      | node => some ⟨node :: merged, queue⟩

/-- What one step does: it merges the node, dissolves it or puts it out. -/
inductive Pass.Steps : Pass → Pass → Prop
  | merge {last together : Code} {front : List Code} {node : Code} {queue : List Code}
      (h : last.merge? node = some together) :
      Steps ⟨last :: front, node :: queue⟩ ⟨together :: front, queue⟩
  | dissolve (merged nodes queue : List Code) :
      Steps ⟨merged, block nodes :: queue⟩ ⟨merged, nodes ++ queue⟩
  | putOut {merged : List Code} {node : Code} (h : ∀ last ∈ merged.head?, last.merge? node = none)
      (hblock : ∀ nodes, node ≠ block nodes) (queue : List Code) :
      Steps ⟨merged, node :: queue⟩ ⟨node :: merged, queue⟩

theorem Pass.steps_of_step {s t : Pass} (h : s.step = some t) : s.Steps t := by
  unfold step at h
  split at h
  · cases h
  · rename_i merged node queue
    split at h
    · rename_i merged' hmerge
      cases h
      cases merged with
      | nil => cases hmerge
      | cons last front =>
        obtain ⟨together, hm, rfl⟩ := Option.map_eq_some_iff.1 hmerge
        exact .merge hm
    · rename_i hmerge
      split at h
      · cases h
        exact .dissolve ..
      · rename_i hblock
        cases h
        refine .putOut (fun last hlast => ?_) hblock queue
        obtain ⟨front, rfl⟩ := List.head?_eq_some_iff.1 hlast
        exact Option.map_eq_none_iff.1 hmerge

/-- A pass goes on as long as there is something in the queue. -/
theorem Pass.queue_eq_nil_of_step {s : Pass} (h : s.step = none) : s.queue = [] := by
  unfold step at h
  split at h
  · rfl
  · split at h
    · cases h
    · split at h <;> cases h

mutual

/-- How many nodes can be taken from a queue before a node and all that it gives back are gone. -/
def weight : Code → Nat
  | block nodes => 1 + weightAll nodes
  | decl _ | read _ | write _ | loop _ _ _ | line _ => 1

def weightAll : List Code → Nat
  | [] => 0
  | node :: rest => weight node + weightAll rest

end

theorem weightAll_append (xs ys : List Code) :
    weightAll (xs ++ ys) = weightAll xs + weightAll ys := by
  induction xs with
  | nil => simp [weightAll]
  | cons x xs ih => rw [List.cons_append, weightAll, weightAll, ih, Nat.add_assoc]

theorem weight_pos (node : Code) : 0 < node.weight := by
  cases node with
  | block nodes => exact Nat.add_pos_left Nat.one_pos _
  | decl _ | read _ | write _ | loop _ _ _ | line _ => exact Nat.one_pos

/-- A block that gives its children back is gone itself. -/
theorem Pass.weightAll_step {s t : Pass} (h : s.step = some t) :
    weightAll t.queue < weightAll s.queue := by
  cases steps_of_step h with
  | merge => exact Nat.lt_add_of_pos_left (weight_pos _)
  | dissolve merged nodes queue =>
    simp only [weightAll, weightAll_append, weight]
    omega
  | putOut => exact Nat.lt_add_of_pos_left (weight_pos _)

/-- Takes nodes from the queue until it is empty. -/
def Pass.run (s : Pass) : List Code :=
  match _h : s.step with
  | some t => t.run
  | none => s.merged.reverse
termination_by weightAll s.queue
decreasing_by exact weightAll_step _h

/-! ## What a pass comes to -/

mutual

/-- The nodes of a code that are no blocks, those of blocks in blocks included. -/
def dissolved : Code → List Code
  | block nodes => dissolvedAll nodes
  | decl decls => [decl decls]
  | read targets => [read targets]
  | write exprs => [write exprs]
  | loop counter size body => [loop counter size body]
  | line text => [line text]

def dissolvedAll : List Code → List Code
  | [] => []
  | node :: rest => dissolved node ++ dissolvedAll rest

end

theorem dissolvedAll_append (xs ys : List Code) :
    dissolvedAll (xs ++ ys) = dissolvedAll xs ++ dissolvedAll ys := by
  induction xs with
  | nil => rfl
  | cons x xs ih => rw [List.cons_append, dissolvedAll, dissolvedAll, ih, List.append_assoc]

theorem dissolved_of_not_block {node : Code} (h : ∀ nodes, node ≠ block nodes) :
    node.dissolved = [node] := by
  cases node with
  | block nodes => exact absurd rfl (h nodes)
  | decl _ | read _ | write _ | loop _ _ _ | line _ => rfl

/-- Nothing is merged with a block. -/
theorem not_block_of_merge? {a b c : Code} (h : a.merge? b = some c) : ∀ nodes, b ≠ block nodes := by
  rintro nodes rfl
  cases a <;> cases h

/-- What is put out in the end: the last node is merged with what is still to come. -/
def Pass.outcome : Pass → List Code
  | ⟨[], queue⟩ => mergeAdjacent (dissolvedAll queue)
  | ⟨last :: front, queue⟩ => front.reverse ++ absorb last (dissolvedAll queue)

/-- Taking one node from the queue changes nothing about it. -/
theorem Pass.outcome_step {s t : Pass} (h : s.step = some t) : t.outcome = s.outcome := by
  cases steps_of_step h with
  | merge hm =>
    simp only [outcome, dissolvedAll, dissolved_of_not_block (not_block_of_merge? hm),
      List.singleton_append, absorb, hm]
  | dissolve merged nodes queue =>
    cases merged <;> simp only [outcome, dissolvedAll, dissolved, dissolvedAll_append]
  | @putOut merged node hm hblock queue =>
    cases merged with
    | nil => simp [outcome, dissolvedAll, dissolved_of_not_block hblock, mergeAdjacent]
    | cons last front =>
      simp [outcome, dissolvedAll, dissolved_of_not_block hblock, absorb, hm last rfl]

/-- So a pass comes to what it said from the beginning. -/
theorem Pass.run_eq_outcome (s : Pass) : s.run = s.outcome := by
  fun_induction run s with
  | case1 s t h ih => rw [ih, outcome_step h]
  | case2 s h =>
    obtain ⟨merged, queue⟩ := s
    obtain rfl : queue = [] := queue_eq_nil_of_step h
    cases merged <;> simp [outcome, dissolvedAll, mergeAdjacent, absorb]

/-! ## Optimized children -/

theorem dissolvedAll_of_flat {nodes : List Code} (h : ∀ c ∈ nodes, c.isBlock = false) :
    dissolvedAll nodes = nodes := by
  induction nodes with
  | nil => rfl
  | cons c cs ih =>
    have hc : ∀ nodes, c ≠ block nodes := by
      rintro nodes rfl
      cases h _ (.head _)
    rw [dissolvedAll, dissolved_of_not_block hc, ih fun d hd => h d (.tail _ hd)]
    rfl

/-- In normal codes there are no blocks beyond the outermost. -/
theorem IsNormal.dissolved_eq_unfold {c : Code} (h : c.IsNormal) : c.dissolved = c.unfold := by
  cases c with
  | block nodes => exact dissolvedAll_of_flat h.1
  | decl _ | read _ | write _ | loop _ _ _ | line _ => rfl

theorem dissolvedAll_eq_flatMap {nodes : List Code} (h : ∀ c ∈ nodes, c.IsNormal) :
    dissolvedAll nodes = nodes.flatMap unfold := by
  induction nodes with
  | nil => rfl
  | cons c cs ih =>
    rw [dissolvedAll, List.flatMap_cons, (h c (.head _)).dissolved_eq_unfold,
      ih fun d hd => h d (.tail _ hd)]

theorem isNormal_of_mem_optimizeAll {nodes : List Code} : ∀ c ∈ optimizeAll nodes, c.IsNormal := by
  induction nodes with
  | nil => exact nofun
  | cons node rest ih => exact List.forall_mem_cons.2 ⟨node.isNormal_optimize, ih⟩

/-- A pass over optimized children merges neighbours among what the outermost blocks hold. -/
theorem Pass.run_optimizeAll (nodes : List Code) :
    (Pass.mk [] (optimizeAll nodes)).run = mergeAdjacent ((optimizeAll nodes).flatMap unfold) := by
  rw [run_eq_outcome, outcome, dissolvedAll_eq_flatMap isNormal_of_mem_optimizeAll]

/-- So a block is optimized by one pass over its optimized children. -/
theorem optimize_block (nodes : List Code) :
    (block nodes).optimize = block (Pass.mk [] (optimizeAll nodes)).run := by
  rw [Pass.run_optimizeAll, optimize]

end ReaderGen.Code
