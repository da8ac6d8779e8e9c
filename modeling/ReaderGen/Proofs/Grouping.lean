import Mathlib.Data.List.SplitBy
import ReaderGen.Cpp.Emit
import ReaderGen.Proofs.Shapes

/-!
# Declarations that share a line

A declaration is put to the group after it if the texts of their types are the same. So groups are cut
where the text changes. As the text of a type tells the number of dimensions, that is where the number of
dimensions changes: each line is for a run of variables with equally many dimensions, as long as it can be.

* `Emitter.Entry`: a variable as it stands in a group, under its type and with its constructor.
* `Group.Lists`: groups that list entries in order, none of them empty, with a new type in each;
  `Lists.cons`, `lists_groups`: one more declaration keeps this, so it holds of all.
* `Group.Lists.eq_splitBy`: there is one way to group entries like that.
* `groups_list_runs`: nothing is lost, and a line is written for each run.
-/

namespace ReaderGen

/-- Whether two variables have equally many dimensions. -/
def Decl.sameRank (c d : Decl) : Bool := c.dims.length == d.dims.length

namespace Cpp.Emitter

/-! ## Entries -/

/-- A variable under its type, with its constructor arguments. -/
structure Entry where
  type : String
  name : String
  ctor : String
deriving DecidableEq, Repr

/-- How a variable is declared. -/
def entry (e : Emitter) (d : Decl) : Entry where
  type := (shape e.std e.scalar d.sizes).type
  name := d.name
  ctor := (shape e.std e.scalar d.sizes).ctor

def Group.entries (g : Group) : List Entry := g.vars.map fun v => ⟨g.type, v.1, v.2⟩

theorem Group.type_of_mem_entries {g : Group} {x : Entry} (h : x ∈ g.entries) : x.type = g.type := by
  obtain ⟨v, -, rfl⟩ := List.mem_map.1 h
  rfl

/-- Two variables have the same type just if they have equally many dimensions. -/
theorem type_entry_eq_iff {e : Emitter} {c d : Decl} :
    (e.entry c).type = (e.entry d).type ↔ c.dims.length = d.dims.length := by
  unfold entry
  rw [type_shape_eq_iff]
  simp [Decl.sizes]

/-! ## One declaration after another -/

/-- The groups list the entries in order, none is empty, and neighbours differ in their type. -/
structure Group.Lists (gs : List Group) (xs : List Entry) : Prop where
  entries : gs.flatMap Group.entries = xs
  filled : ∀ g ∈ gs, g.vars ≠ []
  distinct : gs.IsChain fun g h => g.type ≠ h.type

namespace Group.Lists

theorem nil : Lists [] [] := ⟨rfl, by simp, .nil⟩

/-- One more entry goes to the first group or makes one of its own. -/
theorem cons {gs : List Group} {xs : List Entry} (h : Lists gs xs) (x : Entry) :
    Lists (Group.cons x.type x.name x.ctor gs) (x :: xs) := by
  obtain ⟨rfl, hfilled, hdistinct⟩ := h
  cases gs with
  | nil => exact ⟨rfl, by simp [Group.cons], by simp [Group.cons]⟩
  | cons g gs =>
    by_cases htype : g.type = x.type
    · rw [Group.cons, if_pos htype]
      refine ⟨by simp [Group.entries, htype], ?_, ?_⟩
      · intro g' hg'
        rcases List.mem_cons.1 hg' with rfl | hg'
        · exact List.cons_ne_nil _ _
        · exact hfilled g' (.tail _ hg')
      · -- the group keeps its type, so what stood beside it still differs
        cases gs with
        | nil => simp
        | cons g' gs =>
          obtain ⟨hne, hchain⟩ := List.isChain_cons_cons.1 hdistinct
          exact .cons_cons (htype ▸ hne) hchain
    · rw [Group.cons, if_neg htype]
      refine ⟨by simp [Group.entries], ?_, .cons_cons (Ne.symm htype) hdistinct⟩
      intro g' hg'
      rcases List.mem_cons.1 hg' with rfl | hg'
      · exact List.cons_ne_nil _ _
      · exact hfilled g' hg'

end Group.Lists

theorem lists_groups (e : Emitter) (decls : List Decl) :
    Group.Lists (e.groups decls) (decls.map e.entry) := by
  induction decls with
  | nil => exact .nil
  | cons d decls ih => exact ih.cons (e.entry d)

/-! ## Runs -/

/-- Groups that list entries are cut where the type changes, and nowhere else. -/
theorem Group.Lists.eq_splitBy {gs : List Group} {xs : List Entry} (h : Lists gs xs) :
    gs.map Group.entries = xs.splitBy fun x y => x.type == y.type := by
  symm
  have hne : ∀ g ∈ gs, g.entries ≠ [] := fun g hg => mt List.map_eq_nil_iff.1 (h.filled g hg)
  refine List.splitBy_eq_iff.2 ⟨?_, ?_, ?_, ?_⟩
  · rw [← h.entries, List.flatMap]
  · intro hnil
    obtain ⟨g, hg, hnil⟩ := List.mem_map.1 hnil
    exact hne g hg hnil
  · intro run hrun
    obtain ⟨g, -, rfl⟩ := List.mem_map.1 hrun
    apply List.Pairwise.isChain
    apply List.pairwise_of_forall_mem_list
    intro x hx y hy
    simp [type_of_mem_entries hx, type_of_mem_entries hy]
  · refine (List.isChain_map _).2 (h.distinct.imp_of_mem_imp fun g g' hg hg' htype => ?_)
    have hlast := type_of_mem_entries (List.getLast_mem (hne g hg))
    have hhead := type_of_mem_entries (List.head_mem (hne g' hg'))
    exact ⟨hne g hg, hne g' hg', by simpa [hlast, hhead] using htype⟩

/-- Splitting what a function gives is splitting what it is given. -/
theorem splitBy_map {α β : Type} (f : α → β) (r : β → β → Bool) (l : List α) :
    (l.map f).splitBy r = (l.splitBy fun a b => r (f a) (f b)).map (List.map f) := by
  obtain ⟨hflat, -, hinside, hbetween⟩ :=
    List.splitBy_eq_iff.1 (rfl : l.splitBy (fun a b => r (f a) (f b)) = _)
  refine List.splitBy_eq_iff.2 ⟨?_, ?_, ?_, ?_⟩
  · rw [← List.map_flatten, ← hflat]
  · simp
  · intro run hrun
    obtain ⟨run, hmem, rfl⟩ := List.mem_map.1 hrun
    exact (List.isChain_map f).2 (hinside run hmem)
  · refine (List.isChain_map _).2 (hbetween.imp fun a b ⟨ha, hb, hr⟩ => ?_)
    exact ⟨by simpa using ha, by simpa using hb, by simpa using hr⟩

/-- The groups are the runs of variables with equally many dimensions. -/
theorem entries_groups (e : Emitter) (decls : List Decl) :
    (e.groups decls).map Group.entries = (decls.splitBy Decl.sameRank).map (List.map e.entry) := by
  have hsame : (fun c d => (e.entry c).type == (e.entry d).type) = Decl.sameRank := by
    funext c d
    rw [Bool.eq_iff_iff, beq_iff_eq, type_entry_eq_iff, Decl.sameRank, beq_iff_eq]
  rw [(e.lists_groups decls).eq_splitBy, splitBy_map, hsame]

/-- The groups of declarations list each of them once, in order, under its type and with its constructor.
None is empty, and two neighbours differ in their type. Types are the same just if there are equally many
dimensions, so the groups are the longest runs of declarations with equally many dimensions, and a line
is written for each run. -/
theorem groups_list_runs (e : Emitter) (decls : List Decl) :
    (e.groups decls).flatMap Group.entries = decls.map e.entry ∧
    (∀ g ∈ e.groups decls, g.vars ≠ []) ∧
    (e.groups decls).IsChain (fun g h => g.type ≠ h.type) ∧
    (∀ c d : Decl, (e.entry c).type = (e.entry d).type ↔ c.dims.length = d.dims.length) ∧
    (e.groups decls).map Group.entries = (decls.splitBy Decl.sameRank).map (List.map e.entry) ∧
    (e.lines (.decl decls)).length = (decls.splitBy Decl.sameRank).length := by
  obtain ⟨hentries, hfilled, hdistinct⟩ := e.lists_groups decls
  have hruns := e.entries_groups decls
  have hlength := congrArg List.length hruns
  simp only [List.length_map] at hlength
  refine ⟨hentries, hfilled, hdistinct, fun c d => type_entry_eq_iff, hruns, ?_⟩
  rw [lines, List.length_map, hlength]

/-- Scalars before and after arrays of one dimension, and an array of two. -/
def mixedDecls : List Decl :=
  [⟨"N", [], .empty⟩, ⟨"M", [], .empty⟩, ⟨"A", [⟨"N", "0"⟩], .empty⟩, ⟨"B", [⟨"M", "1"⟩], .empty⟩,
    ⟨"K", [], .empty⟩, ⟨"C", [⟨"N", "0"⟩, ⟨"M", "0"⟩], .empty⟩]

/-- The scalars in front are not joined by the one after the arrays. -/
theorem groups_list_runs_mixed : ∃ e, ({} : Config).emitter? = .ok e ∧
    e.lines (.decl mixedDecls) = ["int N, M;", "vector<int> A(N), B(M);", "int K;",
      "vector<vector<int> > C(N, vector<int>(M));"] ∧
    (mixedDecls.splitBy Decl.sameRank).length = 4 := by
  refine ⟨_, rfl, by decide, ?_⟩
  obtain ⟨-, -, -, -, -, hlength⟩ :=
    groups_list_runs ⟨forHeader, scanfCall "%d", printfCall "%d", "", .int, "    "⟩ mixedDecls
  rw [← hlength]
  decide

end Cpp.Emitter

end ReaderGen
