import ReaderGen.Code.Merge

/-!
# What a code does, in order

The events of a code are what it declares, reads, writes and writes out as it stands, one after the
other, between the beginnings and ends of its loops. Blocks leave no trace in them, nor does it matter
how many declarations, reads or writes make one statement.

* `Event`, `Code.events`: the events of a code.
* `events_merge?`: merging two statements puts their events together.
* `eventsAll_absorb`: so does merging a statement with all that follow it.
* `optimize_keeps_events`: an optimized code does what the code did.
-/

namespace ReaderGen

/-- One thing that a code does. -/
inductive Event
  | decl (d : Decl)
  | read (target : String)
  | write (expr : String)
  | line (text : String)
  /-- A loop begins. -/
  | enter (counter size : String)
  /-- The innermost loop that has begun ends. -/
  | leave
deriving DecidableEq, Repr

namespace Event

def decl? : Event → Option Decl
  | decl d => some d
  | _ => none

def read? : Event → Option String
  | read target => some target
  | _ => none

def write? : Event → Option String
  | write expr => some expr
  | _ => none

end Event

namespace Code

mutual

/-- What a code does, in order. -/
def events : Code → List Event
  | decl decls => decls.map .decl
  | read targets => targets.map .read
  | write exprs => exprs.map .write
  | block nodes => eventsAll nodes
  | loop counter size body => .enter counter size :: (events body ++ [.leave])
  | line text => [.line text]

def eventsAll : List Code → List Event
  | [] => []
  | c :: cs => events c ++ eventsAll cs

end

theorem eventsAll_append (cs ds : List Code) :
    eventsAll (cs ++ ds) = eventsAll cs ++ eventsAll ds := by
  induction cs with
  | nil => rfl
  | cons c cs ih => rw [List.cons_append, eventsAll, eventsAll, ih, List.append_assoc]

/-! ## Merging -/

/-- Two statements merge only if they are of one kind, and then one after the other. -/
theorem events_merge? {a b c : Code} (h : a.merge? b = some c) : c.events = a.events ++ b.events := by
  unfold merge? at h
  split at h
  · cases h; exact List.map_append
  · cases h; exact List.map_append
  · cases h; exact List.map_append
  · cases h

/-- Dissolving a block does not change what is done. -/
theorem eventsAll_unfold (c : Code) : eventsAll c.unfold = c.events := by
  cases c with
  | block nodes => rfl
  | _ => exact List.append_nil _

theorem eventsAll_flatMap_unfold (cs : List Code) : eventsAll (cs.flatMap unfold) = eventsAll cs := by
  induction cs with
  | nil => rfl
  | cons c cs ih => rw [List.flatMap_cons, eventsAll_append, eventsAll_unfold, ih, eventsAll]

/-- The node that takes others in grows by their events, and is put out before the first that it
cannot take in. -/
theorem eventsAll_absorb (node : Code) (rest : List Code) :
    eventsAll (absorb node rest) = node.events ++ eventsAll rest := by
  induction rest generalizing node with
  | nil => rfl
  | cons next rest ih =>
    rw [absorb, eventsAll]
    split
    · rename_i merged hm
      rw [ih, events_merge? hm, List.append_assoc]
    · rw [eventsAll, ih]

theorem eventsAll_mergeAdjacent (cs : List Code) : eventsAll (mergeAdjacent cs) = eventsAll cs := by
  cases cs with
  | nil => rfl
  | cons c cs => exact eventsAll_absorb c cs

theorem events_optimize (code : Code) : code.optimize.events = code.events := by
  induction code using Code.rec
    (motive_2 := fun cs => eventsAll (optimizeAll cs) = eventsAll cs) with
  | decl decls | read targets | write exprs | line text => rfl
  | block nodes ih => rw [optimize, events, eventsAll_mergeAdjacent, eventsAll_flatMap_unfold, ih, events]
  | loop counter size body ih => rw [optimize, events, events, ih]
  | nil => rfl
  | cons c cs ihc ihcs => rw [optimizeAll, eventsAll, eventsAll, ihc, ihcs]

end Code

/-- An optimized code does the same as the code: each declaration, read, write and line once, in the
same order, and in the same loops. -/
theorem optimize_keeps_events (code : Code) : code.optimize.events = code.events :=
  code.events_optimize

end ReaderGen
