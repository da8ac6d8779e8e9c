import Mathlib.Data.List.SplitBy
import ReaderGen.Cpp.Emit
import ReaderGen.Proofs.Events
import ReaderGen.Proofs.NormalForm

/-!
# The lines of an optimized code

What is written for an optimized code depends only on what the code does. Its events fall into runs:
neighbouring declarations, reads or writes, as many as there are, and every other event by itself. In
a normal form each statement is one run, so the lines are those of the runs, however the code was put
together.

* `Cpp.Emitter.runLines`: what is written for a run of events.
* `Code.Filled`: every statement does something; an empty one would be written as a line without an
  event.
* `Code.separated`: between two nodes of a normal form a run ends.
* `lines_eq_runs`: the lines of a normal form, read off its events.
* `lines_optimize_eq_of_events_eq`: codes that do the same are written alike once optimized.
-/

namespace ReaderGen

/-! ## Runs of events -/

namespace Event

def kind? : Event → Option Kind
  | decl _ => some .decl
  | read _ => some .read
  | write _ => some .write
  | line _ | enter _ _ | leave => none

/-- Whether two neighbouring events belong to one statement. -/
def alike (a b : Event) : Bool := Kind.alike a.kind? b.kind?

/-- Events of one kind are one run. -/
theorem splitBy_run {kind : Kind} {run : List Event} (hne : run ≠ [])
    (h : ∀ x ∈ run, x.kind? = some kind) : run.splitBy alike = [run] := by
  refine List.splitBy_of_isChain hne ?_
  refine (List.pairwise_of_forall_mem_list fun x hx y hy => ?_).isChain
  rw [alike, h x hx, h y hy]
  exact decide_eq_true rfl

end Event

/-- What is written for a run of events. -/
def Cpp.Emitter.runLines (e : Emitter) : List Event → List String
  | [] => []
  | .decl d :: run => (e.groups (d :: run.filterMap Event.decl?)).map Group.line
  | .read target :: run => [e.scan (target :: run.filterMap Event.read?)]
  | .write expr :: run => [e.print (expr :: run.filterMap Event.write?)]
  | .line text :: _ => [text]
  | .enter counter size :: _ => [e.header counter size ++ " \x7b"]
  | .leave :: _ => ["\x7d"]

namespace Code

/-! ## Codes without empty statements -/

mutual

/-- Every statement of the code declares, reads or writes something. Blocks may be empty. -/
def Filled : Code → Prop
  | decl decls => decls ≠ []
  | read targets => targets ≠ []
  | write exprs => exprs ≠ []
  | block nodes => AllFilled nodes
  | loop _ _ body => Filled body
  | line _ => True

def AllFilled : List Code → Prop
  | [] => True
  | c :: cs => Filled c ∧ AllFilled cs

end

theorem allFilled_iff {cs : List Code} : AllFilled cs ↔ ∀ c ∈ cs, c.Filled := by
  induction cs with
  | nil => simp [AllFilled]
  | cons c cs ih => simp [AllFilled, ih]

theorem filled_of_merge? {a b c : Code} (h : a.merge? b = some c) (ha : a.Filled) : c.Filled := by
  unfold merge? at h
  split at h
  · cases h; exact List.append_ne_nil_of_left_ne_nil ha _
  · cases h; exact List.append_ne_nil_of_left_ne_nil ha _
  · cases h; exact List.append_ne_nil_of_left_ne_nil ha _
  · cases h

theorem hereditary_filled : Hereditary Filled where
  block := allFilled_iff
  loop := Iff.rfl
  merge h ha _ := filled_of_merge? h ha

theorem Filled.optimize {code : Code} (h : code.Filled) : code.optimize.Filled :=
  hereditary_filled.optimize h

/-! ## Where a run ends -/

theorem events_ne_nil {c : Code} (hb : c.isBlock = false) (h : c.Filled) : c.events ≠ [] := by
  cases c with
  | block nodes => cases hb
  | decl decls | read targets | write exprs => exact mt List.map_eq_nil_iff.1 h
  | loop counter size body => exact List.cons_ne_nil _ _
  | line text => exact List.cons_ne_nil _ _

/-- The events at both ends of a node are of its kind. -/
theorem kind?_of_ends {c : Code} (hb : c.isBlock = false) :
    (∀ x ∈ c.events.head?, x.kind? = c.kind?) ∧ ∀ x ∈ c.events.getLast?, x.kind? = c.kind? := by
  have hall : ∀ {events : List Event}, (∀ x ∈ events, x.kind? = c.kind?) →
      (∀ x ∈ events.head?, x.kind? = c.kind?) ∧ ∀ x ∈ events.getLast?, x.kind? = c.kind? :=
    fun h => ⟨fun x hx => h x (List.mem_of_mem_head? hx),
      fun x hx => h x (List.mem_of_mem_getLast? hx)⟩
  cases c with
  | block nodes => cases hb
  | decl decls | read targets | write exprs =>
    refine hall fun x hx => ?_
    obtain ⟨d, -, rfl⟩ := List.mem_map.1 hx
    rfl
  | line text =>
    refine hall fun x hx => ?_
    rw [List.mem_singleton.1 hx]
    rfl
  | loop counter size body =>
    refine ⟨fun x hx => ?_, fun x hx => ?_⟩
    · cases hx
      rfl
    · rw [events, ← List.cons_append, List.getLast?_concat] at hx
      cases hx
      rfl

/-- Between a node and those after it, if no two neighbours are alike, a run of events ends. -/
theorem separated {c : Code} {cs : List Code} (hflat : ∀ d ∈ c :: cs, d.isBlock = false)
    (hchain : (c :: cs).IsChain (fun a b => Kind.alike a.kind? b.kind? = false))
    (hfilled : AllFilled cs) :
    ∀ x ∈ c.events.getLast?, ∀ y ∈ (eventsAll cs).head?, x.alike y = false := by
  intro x hx y hy
  cases cs with
  | nil => cases hy
  | cons d ds =>
    have hd := hflat d (.tail _ (.head _))
    have hhead : (eventsAll (d :: ds)).head? = d.events.head? := by
      rw [eventsAll, List.head?_append_of_ne_nil _ (events_ne_nil hd hfilled.1)]
    rw [hhead] at hy
    rw [Event.alike, (kind?_of_ends (hflat c (.head _))).2 x hx, (kind?_of_ends hd).1 y hy]
    exact (List.isChain_cons_cons.1 hchain).1

end Code

/-! ## Lines -/

namespace Cpp.Emitter

open Code

/-- The lines of a normal form are those of the runs of its events. -/
theorem lines_eq_runs (e : Emitter) {code : Code} (hn : code.IsNormal) (hf : code.Filled) :
    e.lines code = (code.events.splitBy Event.alike).flatMap e.runLines := by
  have hrun : ∀ (kind : Kind) {run : List Event}, run ≠ [] → (∀ x ∈ run, x.kind? = some kind) →
      (run.splitBy Event.alike).flatMap e.runLines = e.runLines run := by
    intro kind run hne h
    rw [Event.splitBy_run hne h, List.flatMap_singleton]
  induction code using Code.rec
    (motive_2 := fun cs => (∀ c ∈ cs, c.isBlock = false) →
      cs.IsChain (fun a b => Kind.alike a.kind? b.kind? = false) → AllNormal cs → AllFilled cs →
      e.allLines cs = ((eventsAll cs).splitBy Event.alike).flatMap e.runLines) with
  | decl decls =>
    obtain ⟨d, ds, rfl⟩ := List.exists_cons_of_ne_nil hf
    rw [events, hrun .decl (by simp) (by simp [Event.kind?])]
    simp [runLines, lines, List.filterMap_map, Function.comp_def, Event.decl?]
  | read targets =>
    obtain ⟨t, ts, rfl⟩ := List.exists_cons_of_ne_nil hf
    rw [events, hrun .read (by simp) (by simp [Event.kind?])]
    simp [runLines, lines, List.filterMap_map, Function.comp_def, Event.read?]
  | write exprs =>
    obtain ⟨x, xs, rfl⟩ := List.exists_cons_of_ne_nil hf
    rw [events, hrun .write (by simp) (by simp [Event.kind?])]
    simp [runLines, lines, List.filterMap_map, Function.comp_def, Event.write?]
  | line text => rfl
  | block nodes ih => exact ih hn.1 hn.2.1 hn.2.2 hf
  | loop counter size body ih =>
    -- the beginning and the end of a loop are runs of their own
    have hleave : ∀ x ∈ body.events.getLast?, x.alike .leave = false := by
      intro x _
      cases x <;> rfl
    rw [events, ← List.singleton_append, List.splitBy_append, List.splitBy_append_cons _ hleave,
      List.flatMap_append, List.flatMap_append, ← ih hn hf]
    · rfl
    · intro x hx y _
      cases hx
      rfl
  | nil => rfl
  | cons c cs ihc ihcs hflat hchain hnormal hfilled =>
    rw [allLines, eventsAll, List.splitBy_append (separated hflat hchain hfilled.2),
      List.flatMap_append, ihc hnormal.1 hfilled.1,
      ihcs (fun d hd => hflat d (.tail _ hd)) hchain.tail hnormal.2 hfilled.2]

end Cpp.Emitter

/-- Codes without empty statements that do the same, in the same order and in the same loops, are
written alike once they are optimized, however they are divided into blocks and statements, and
whatever the loops, reads and writes look like. -/
theorem lines_optimize_eq_of_events_eq (e : Cpp.Emitter) {code code' : Code} (h : code.Filled)
    (h' : code'.Filled) (hevents : code.events = code'.events) :
    e.lines code.optimize = e.lines code'.optimize := by
  rw [e.lines_eq_runs code.isNormal_optimize h.optimize,
    e.lines_eq_runs code'.isNormal_optimize h'.optimize, code.events_optimize, code'.events_optimize,
    hevents]

/-- Reads are written as calls of a function. -/
def callConfig : Cpp.Config where
  scanner := .custom fun targets => "get(" ++ ", ".intercalate targets ++ ");"

/-- Every statement in a block of its own, and a loop around a single statement. -/
def scatteredCode : Code :=
  .block [.decl [⟨"N", [], .empty⟩], .block [.decl [⟨"M", [], .empty⟩]], .read ["N"], .block [],
    .block [.read ["M"]], .loop "i" "N" (.write ["M"]), .line "return 0;"]

/-- The same in two blocks, and a block in the loop. -/
def gatheredCode : Code :=
  .block [.block [.decl [⟨"N", [], .empty⟩, ⟨"M", [], .empty⟩], .read ["N", "M"]],
    .block [.loop "i" "N" (.block [.block [.write ["M"]]]), .line "return 0;"]]

theorem lines_optimize_eq_of_events_eq_scattered :
    ∃ e, callConfig.emitter? = .ok e ∧ scatteredCode.Filled ∧ gatheredCode.Filled ∧
      scatteredCode.events = gatheredCode.events ∧ e.lines scatteredCode ≠ e.lines gatheredCode ∧
      e.lines scatteredCode.optimize = e.lines gatheredCode.optimize := by
  have h : scatteredCode.Filled := by simp [scatteredCode, Code.Filled, Code.AllFilled]
  have h' : gatheredCode.Filled := by simp [gatheredCode, Code.Filled, Code.AllFilled]
  exact ⟨_, rfl, h, h', by decide, by decide +kernel,
    lines_optimize_eq_of_events_eq _ h h' (by decide)⟩

end ReaderGen
