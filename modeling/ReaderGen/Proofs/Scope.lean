import ReaderGen.Format.Variables
import ReaderGen.Proofs.Description
import ReaderGen.Proofs.Unrolling

/-!
# Which reads can see a declaration

A declaration is visible from where it stands to the end of the innermost loop around it. Scheduling
puts the declaration of a variable as early as it can be, wherever that is, so it may come to stand in
a loop that does not contain all reads of the variable.

* `Code.InScope`: before each read stands a declaration of its variable, and every loop around the
  declaration is also around the read.
* `Format.mentions_laid`: what is declared and read in the code of a format, in order.
* `schedule_inScope_iff`: scheduled code is in scope just if every loop around the first part at
  which a variable can be declared is also around all items of that variable.
* `not_inScope_sizeUsedAfter`: a size that is read in one loop and used by another.
-/

namespace ReaderGen

/-! ## Declarations and reads of a code -/

/-- A variable is declared or read, within loops: from the inside out, how many loops begin before
each of them. -/
inductive Mention
  | decl (name : String) (loops : List Nat)
  | read (name : String) (loops : List Nat)
deriving DecidableEq, Repr

namespace Code

/-- The variable that a target belongs to. -/
def variableOf (target : String) : String := String.ofList (target.toList.takeWhile (· ≠ '['))

mutual

def loopCount : Code → Nat
  | loop _ _ body => loopCount body + 1
  | block nodes => loopCountAll nodes
  | decl _ | read _ | write _ | line _ => 0

def loopCountAll : List Code → Nat
  | [] => 0
  | c :: cs => loopCount c + loopCountAll cs

end

mutual

/-- The variables that a code declares and reads, in order, where a number of loops begin before it,
and some of them are around it. -/
def mentions : Code → Nat → List Nat → List Mention
  | decl decls, _, loops => decls.map fun d => .decl d.name loops
  | read targets, _, loops => targets.map fun target => .read (variableOf target) loops
  | block nodes, begun, loops => mentionsAll nodes begun loops
  | loop _ _ body, begun, loops => mentions body (begun + 1) (begun :: loops)
  | write _, _, _ | line _, _, _ => []

def mentionsAll : List Code → Nat → List Nat → List Mention
  | [], _, _ => []
  | c :: cs, begun, loops => mentions c begun loops ++ mentionsAll cs (begun + loopCount c) loops

end

/-- Each read comes after a declaration of its variable that no loop closes in between: every loop
around the declaration is around the read. -/
def InScope (code : Code) : Prop :=
  ∀ before x loops after, code.mentions 0 [] = before ++ .read x loops :: after →
    ∃ outer, Mention.decl x outer ∈ before ∧ outer ⊆ loops

theorem mentions_preceded (decls : List Decl) (code : Code) (begun : Nat) (loops : List Nat) :
    (preceded decls code).mentions begun loops =
      decls.map (fun d => .decl d.name loops) ++ code.mentions begun loops := by
  cases decls with
  | nil => rfl
  | cons d ds => simp [preceded, mentions, mentionsAll, loopCount]

theorem loopCount_preceded (decls : List Decl) (code : Code) :
    (preceded decls code).loopCount = code.loopCount := by
  cases decls with
  | nil => rfl
  | cons d ds => simp [preceded, loopCount, loopCountAll]

end Code

/-! ## Code laid out along a format -/

/-- The loops around a site, by how many begin before each. -/
def Site.around (s : Site) : List Nat := s.loops.map (·.1)

namespace Format

section Laid

variable (due : Site → List Decl) (target : String → List String → String)

/-- What is declared before a part of a format and read at it. -/
def partMentions (part : Site × Option (String × List String)) : List Mention :=
  (due part.1).map (fun d => .decl d.name part.1.around) ++
    part.2.toList.map fun item => .read (Code.variableOf (target item.1 item.2)) part.1.around

mutual

theorem begun_after : ∀ (f : Format) (s : Site),
    (f.after s).begun = s.begun + (f.laid due target s).loopCount
  | .item .., s | .newline, s => by
    rw [laid, Code.loopCount_preceded]
    rfl
  | .sequence items, s => by
    rw [laid, Code.loopCount_preceded]
    exact begun_afterAll items s.next
  | .loop counter size body, s => by
    have h := begun_after body (s.enter counter)
    rw [laid, Code.loopCount_preceded, Code.loopCount]
    simp only [after, Site.leave, Site.enter] at h ⊢
    omega

theorem begun_afterAll : ∀ (fs : List Format) (s : Site),
    (afterAll fs s).begun = s.begun + Code.loopCountAll (laidAll due target fs s)
  | [], _ => rfl
  | f :: fs, s => by
    rw [afterAll, begun_afterAll fs (f.after s), begun_after f s, laidAll, Code.loopCountAll,
      Nat.add_assoc]

end

mutual

/-- What the code of a format declares and reads, part by part. -/
theorem mentions_laid : ∀ (f : Format) (s : Site),
    (f.laid due target s).mentions s.begun s.around =
      (f.parts s).flatMap (partMentions due target)
  | .item .., s | .newline, s => by
    rw [laid, Code.mentions_preceded]
    simp [parts, partMentions, Code.mentions, Code.mentionsAll]
  | .sequence items, s => by
    rw [laid, Code.mentions_preceded, Code.mentions, parts, List.flatMap_cons,
      ← mentionsAll_laidAll items s.next]
    simp [partMentions, Site.next, Site.around]
  | .loop counter size body, s => by
    rw [laid, Code.mentions_preceded, Code.mentions, parts, List.flatMap_cons,
      ← mentions_laid body (s.enter counter)]
    simp [partMentions, Site.enter, Site.around]

theorem mentionsAll_laidAll : ∀ (fs : List Format) (s : Site),
    Code.mentionsAll (laidAll due target fs s) s.begun s.around =
      (partsAll fs s).flatMap (partMentions due target)
  | [], _ => rfl
  | f :: fs, s => by
    have haround : (f.after s).around = s.around := by rw [Site.around, loops_after f s]; rfl
    rw [laidAll, Code.mentionsAll, mentions_laid f s, ← begun_after due target f s, ← haround,
      mentionsAll_laidAll fs (f.after s), partsAll, List.flatMap_append]

end

variable {due target}

theorem decl_mem_flatMap {parts : List (Site × Option (String × List String))} {x : String}
    {loops : List Nat} : Mention.decl x loops ∈ parts.flatMap (partMentions due target) ↔
      ∃ part ∈ parts, ∃ d ∈ due part.1, d.name = x ∧ part.1.around = loops := by
  simp [partMentions]

/-- A read stands after the declarations of its part. -/
theorem read_of_partMentions {part : Site × Option (String × List String)} {x : String}
    {loops : List Nat} {front back : List Mention}
    (h : partMentions due target part = front ++ .read x loops :: back) :
    ∃ item, part.2 = some item ∧ x = Code.variableOf (target item.1 item.2) ∧
      loops = part.1.around ∧ front = (due part.1).map fun d => .decl d.name part.1.around := by
  obtain ⟨t, item⟩ := part
  rw [partMentions] at h
  generalize hdecls : (due t).map (fun d => Mention.decl d.name t.around) = decls at h ⊢
  have hnot : Mention.read x loops ∉ decls := by
    rw [← hdecls]
    simp
  -- the read is the mention after the declarations, or one of them, which it is not
  rcases List.append_eq_append_iff.1 h with ⟨more, rfl, hmore⟩ | ⟨more, rfl, hmore⟩
  · cases item with
    | none => simp at hmore
    | some item =>
      cases more with
      | nil =>
        obtain ⟨hread, -⟩ := List.cons.inj hmore
        cases hread
        exact ⟨item, rfl, rfl, rfl, List.append_nil _⟩
      | cons m more => simp at hmore
  · cases more with
    | nil =>
      cases item with
      | none => simp at hmore
      | some item =>
        obtain ⟨hread, -⟩ := List.cons.inj hmore
        cases hread
        exact ⟨item, rfl, rfl, rfl, (List.append_nil _).symm⟩
    | cons m more =>
      obtain ⟨rfl, -⟩ := List.cons.inj hmore
      exact absurd (List.mem_append_right _ (.head _)) hnot

end Laid

/-! ## When scheduled code is in scope -/

theorem flatMap_eq_append_cons {α β : Type} {g : α → List β} : ∀ {as : List α}
    {before after : List β} {b : β}, as.flatMap g = before ++ b :: after →
    ∃ ps a qs front back, as = ps ++ a :: qs ∧ g a = front ++ b :: back ∧
      before = ps.flatMap g ++ front
  | [], before, after, b, h => by simp at h
  | a :: as, before, after, b, h => by
    rw [List.flatMap_cons] at h
    rcases List.append_eq_append_iff.1 h with ⟨more, rfl, hmore⟩ | ⟨more, ha, hmore⟩
    · obtain ⟨ps, a', qs, front, back, rfl, hg, rfl⟩ := flatMap_eq_append_cons hmore
      exact ⟨a :: ps, a', qs, front, back, rfl, hg, by simp⟩
    · cases more with
      | nil =>
        obtain ⟨ps, a', qs, front, back, rfl, hg, hnil⟩ :=
          @flatMap_eq_append_cons α β g as [] after b hmore.symm
        exact ⟨a :: ps, a', qs, front, back, rfl, hg, by simp [ha, ← hnil]⟩
      | cons c more =>
        obtain ⟨rfl, -⟩ := List.cons.inj hmore
        exact ⟨[], a, as, before, more, rfl, ha, rfl⟩

/-- The first site at which a variable can be declared comes before all others. -/
theorem number_le_of_find? {f : Format} {d : Decl} {s t : Site}
    (hs : f.sites.find? d.openAt = some s) (ht : t ∈ f.sites) (hopen : d.openAt t = true) :
    s.number ≤ t.number := by
  have hsorted := f.sorted_sites
  obtain ⟨-, as, bs, heq, has⟩ := List.find?_eq_some_iff_append.1 hs
  rw [heq] at ht hsorted
  rcases List.mem_append.1 ht with ht | ht
  · have := has t ht
    rw [hopen] at this
    cases this
  · rcases List.mem_cons.1 ht with rfl | ht
    · exact Nat.le_refl _
    · have hpair := (List.pairwise_append.1 hsorted).2.1
      exact Nat.le_of_lt ((List.pairwise_cons.1 hpair).1 t ht)

/-- The target of an item belongs to the variable of the item. -/
theorem variableOf_target {table : Table} {name : String} {indices : List String}
    (hname : '[' ∉ name.toList) : Code.variableOf (target table name indices) = name := by
  have hplain : ∀ c ∈ name.toList, decide (c ≠ '[') = true := by
    intro c hc
    rw [decide_eq_true_iff]
    rintro rfl
    exact hname hc
  have hwhole : Code.variableOf name = name := by
    rw [Code.variableOf, ← List.append_nil name.toList, List.takeWhile_append_of_pos hplain,
      List.takeWhile_nil, List.append_nil, String.ofList_toList]
  unfold target
  split
  · exact hwhole
  · split
    · exact hwhole
    · rename_i text htext
      obtain ⟨offsets, rfl, -⟩ := subscripts_eq_ok htext
      have hend : ((String.join (offsets.map fun s => "[" ++ s ++ "]")).toList).takeWhile (· ≠ '[') =
          [] := by
        cases offsets with
        | nil => rfl
        | cons s offsets => simp [String.join_cons]
      rw [Code.variableOf, String.toList_append, List.takeWhile_append_of_pos hplain, hend,
        List.append_nil, String.ofList_toList]

section Scheduled

variable {f : Format} {table : Table} {code : Code}

theorem mentions_scheduled (h : f.schedule table = .ok code) : code.mentions 0 [] =
    (f.parts .start).flatMap (partMentions (table.due f.sites) (target table)) := by
  rw [(schedule_eq_laid h).1]
  exact mentions_laid (table.due f.sites) (target table) f .start

/-- A site that does not come after that of a part is that of an earlier part or the same. -/
theorem mem_of_number_le {ps qs : List (Site × Option (String × List String))} {s t : Site}
    {item : Option (String × List String)} (hparts : f.parts .start = ps ++ (t, item) :: qs)
    (hs : s ∈ f.sites) (hst : s.number ≤ t.number) : s ∈ ps.map (·.1) ∨ s = t := by
  have hsites : f.sites = ps.map (·.1) ++ t :: qs.map (·.1) := by simp [sites, hparts]
  have hsorted := f.sorted_sites
  rw [hsites] at hsorted hs
  rcases List.mem_append.1 hs with hs | hs
  · exact .inl hs
  · rcases List.mem_cons.1 hs with rfl | hs
    · exact .inr rfl
    · have hlater := List.pairwise_cons.1 (List.pairwise_append.1 hsorted).2.1
      exact absurd hst (Nat.not_le.2 (hlater.1 s hs))

/-- An item that is not named like a counter around it is one of a variable of the table, which can
be declared before the item or at it. -/
theorem declared_by_item (h : f.schedule table = .ok code) {u : Site} {item : String × List String}
    (hitem : (u, some item) ∈ f.parts .start) (hcounter : item.1 ∉ u.counters) :
    ∃ d ∈ table.decls, d.name = item.1 ∧ ∃ s, f.sites.find? d.openAt = some s ∧
      s.number ≤ u.number := by
  have hfound := (schedule_eq_laid h).2 u item hitem
  obtain ⟨d, hd, hname, w, hw, hopen⟩ := hfound.declared.resolve_left hcounter
  obtain ⟨hw, hwu⟩ := List.mem_filter.1 hw
  obtain ⟨s, hs⟩ : ∃ s, f.sites.find? d.openAt = some s :=
    Option.isSome_iff_exists.1 (List.find?_isSome.2 ⟨w, hw, hopen⟩)
  have hsw := number_le_of_find? hs hw hopen
  exact ⟨d, hd, hname, s, hs, Nat.le_trans hsw (of_decide_eq_true hwu)⟩

/-- So it is declared before any later part. -/
theorem declared_before_item (h : f.schedule table = .ok code)
    {ps qs : List (Site × Option (String × List String))} {t u : Site}
    {part : Option (String × List String)} {item : String × List String}
    (hparts : f.parts .start = ps ++ (t, part) :: qs) (hitem : (u, some item) ∈ f.parts .start)
    (hut : u.number ≤ t.number) (hcounter : item.1 ∉ u.counters) :
    ∃ d ∈ table.decls, d.name = item.1 ∧ ∃ s, f.sites.find? d.openAt = some s ∧
      (s ∈ ps.map (·.1) ∨ s = t) := by
  obtain ⟨d, hd, hname, s, hs, hsu⟩ := declared_by_item h hitem hcounter
  exact ⟨d, hd, hname, s, hs,
    mem_of_number_le hparts (List.mem_of_find?_eq_some hs) (Nat.le_trans hsu hut)⟩

/-- Scheduled code is in scope just if every loop around the first part at which a variable can be
declared is around each item of that variable. -/
theorem inScope_iff (h : f.schedule table = .ok code)
    (hnames : ∀ item ∈ f.items, '[' ∉ item.1.toList)
    (hcounters : ∀ t item, (t, some item) ∈ f.parts .start → item.1 ∉ t.counters) :
    code.InScope ↔ ∀ d ∈ table.decls, ∀ s, f.sites.find? d.openAt = some s →
      ∀ t indices, (t, some (d.name, indices)) ∈ f.parts .start → s.around ⊆ t.around := by
  have hvariable : ∀ t item, (t, some item) ∈ f.parts .start →
      Code.variableOf (target table item.1 item.2) = item.1 := fun t item hpart =>
    variableOf_target (hnames item (List.mem_filterMap.2 ⟨_, hpart, rfl⟩))
  rw [Code.InScope, mentions_scheduled h]
  constructor
  · intro hscope d hd s hs t indices hpart
    obtain ⟨ps, qs, hparts⟩ := List.append_of_mem hpart
    obtain ⟨outer, hdecl, hsub⟩ := hscope
      ((ps ++ [(t, none)]).flatMap (partMentions (table.due f.sites) (target table))) d.name t.around
      (qs.flatMap (partMentions (table.due f.sites) (target table))) (by
        rw [hparts]
        simp [partMentions, hvariable t _ hpart])
    -- there is one declaration of the variable, where it can first be declared
    obtain ⟨part, -, c, hc, hname, rfl⟩ := decl_mem_flatMap.1 hdecl
    obtain ⟨hc, hfind⟩ := Table.mem_due.1 hc
    obtain rfl := Table.eq_of_name hc hd hname
    obtain rfl := Option.some.inj (hs.symm.trans hfind)
    exact hsub
  · intro haround before x loops after hsplit
    obtain ⟨ps, ⟨t, item⟩, qs, front, back, hparts, huses, rfl⟩ := flatMap_eq_append_cons hsplit
    obtain ⟨⟨name, indices⟩, rfl, rfl, rfl, rfl⟩ := read_of_partMentions huses
    have hpart : (t, some (name, indices)) ∈ f.parts .start := by
      rw [hparts]
      simp
    obtain ⟨d, hd, hname, s, hs, hbefore⟩ :=
      declared_before_item h hparts hpart (Nat.le_refl _) (hcounters t _ hpart)
    obtain rfl : d.name = name := hname
    have hdue : d ∈ table.due f.sites s := Table.mem_due.2 ⟨hd, hs⟩
    rw [hvariable t _ hpart]
    refine ⟨s.around, ?_, haround d hd s hs t indices hpart⟩
    rcases hbefore with hmem | rfl
    · obtain ⟨part, hps, rfl⟩ := List.mem_map.1 hmem
      exact List.mem_append_left _ (decl_mem_flatMap.2 ⟨part, hps, d, hdue, rfl, rfl⟩)
    · exact List.mem_append_right _ (List.mem_map_of_mem hdue)

end Scheduled

end Format

/-! ## Descriptions -/

/-- A view of a description that can be scheduled, for the table of its own variables. -/
def described {α : Type} (source : String) (view : Format → Table → Code → α) : Option α := do
  let f ← (Format.read source).toOption
  let table ← f.table.toOption
  let code ← (f.schedule table).toOption
  return view f table code

theorem exists_of_described {α : Type} {source : String} {view : Format → Table → Code → α} {a : α}
    (h : described source view = some a) :
    ∃ f table code, Format.read source = .ok f ∧ f.table = .ok table ∧
      f.schedule table = .ok code ∧ view f table code = a := by
  obtain ⟨f, hf, h⟩ := Option.bind_eq_some_iff.1 h
  obtain ⟨table, ht, h⟩ := Option.bind_eq_some_iff.1 h
  obtain ⟨code, hc, h⟩ := Option.bind_eq_some_iff.1 h
  exact ⟨f, table, code, ok_of_toOption hf, ok_of_toOption ht, ok_of_toOption hc, Option.some.inj h⟩

/-- The code of a format that was read from a text, in which no item has the name of the counter of a
loop around it, is in scope just if every loop around the first part at which a variable can be
declared is also around each item of that variable. -/
theorem schedule_inScope_iff {source : String} {f : Format} {table : Table} {code : Code}
    (hf : Format.read source = .ok f) (h : f.schedule table = .ok code)
    (hcounters : ∀ t item, (t, some item) ∈ f.parts .start → item.1 ∉ t.counters) :
    code.InScope ↔ ∀ d ∈ table.decls, ∀ s, f.sites.find? d.openAt = some s →
      ∀ t indices, (t, some (d.name, indices)) ∈ f.parts .start → s.around ⊆ t.around := by
  refine Format.inScope_iff h (fun item hitem hbracket => ?_) hcounters
  have hchar : Text.isIdentifierPart '[' = false := by decide
  rcases Scanner.part_of_identAt (Format.word_of_read hf hitem) '[' hbracket with hpart | hsign
  · rw [hchar] at hpart
    cases hpart
  · exact absurd hsign (by decide)

/-- A size is read in a loop, and used by a loop within it. -/
def sizeUsedInside : String := "read N; for i upto N \x7b read M; for j upto M \x7b read A[j]; \x7d \x7d"

/-- The array is declared in the outer loop, where its size has been read, and read within it. -/
theorem schedule_inScope_iff_sizeUsedInside : ∃ f table code,
    Format.read sizeUsedInside = .ok f ∧ f.schedule table = .ok code ∧
      code.mentions 0 [] = [.decl "N" [], .decl "M" [], .read "N" [], .read "M" [0],
        .decl "A" [0], .read "A" [1, 0]] ∧
      (∀ t item, (t, some item) ∈ f.parts .start → item.1 ∉ t.counters) ∧
      (code.InScope ↔ ∀ d ∈ table.decls, ∀ s, f.sites.find? d.openAt = some s →
        ∀ t indices, (t, some (d.name, indices)) ∈ f.parts .start → s.around ⊆ t.around) := by
  have hview : described sizeUsedInside (fun f _ code => (code.mentions 0 [],
      decide (∀ item ∈ f.items, ∀ t ∈ f.sites, item.1 ∉ t.counters))) =
      some ([.decl "N" [], .decl "M" [], .read "N" [], .read "M" [0], .decl "A" [0], .read "A" [1, 0]],
        true) := by decide +kernel
  obtain ⟨f, table, code, hf, -, h, hview⟩ := exists_of_described hview
  obtain ⟨hm, hnames⟩ := Prod.mk.inj hview
  have hnames := of_decide_eq_true hnames
  have hcounters : ∀ t item, (t, some item) ∈ f.parts .start → item.1 ∉ t.counters :=
    fun t item hpart => hnames item (List.mem_filterMap.2 ⟨_, hpart, rfl⟩) t
      (List.mem_map.2 ⟨_, hpart, rfl⟩)
  exact ⟨f, table, code, hf, h, hm, hcounters, schedule_inScope_iff hf h hcounters⟩

/-- A size is read in a loop, and used by a loop after it. -/
def sizeUsedAfter : String := "read N; for i upto N \x7b read M; \x7d for j upto M \x7b read A[j]; \x7d"

/-- The array is declared in the first loop, as soon as its size has been read, and read in the
second, where that declaration is not visible. -/
theorem not_inScope_sizeUsedAfter : ∃ f table code,
    Format.read sizeUsedAfter = .ok f ∧ f.table = .ok table ∧ f.schedule table = .ok code ∧
      (∀ item ∈ f.items, ∀ t ∈ f.sites, item.1 ∉ t.counters) ∧ ¬code.InScope := by
  have hview : described sizeUsedAfter (fun f _ code => (code.mentions 0 [],
      decide (∀ item ∈ f.items, ∀ t ∈ f.sites, item.1 ∉ t.counters))) =
      some ([.decl "N" [], .decl "M" [], .read "N" [], .read "M" [0], .decl "A" [0]] ++ [.read "A" [1]],
        true) := by decide +kernel
  obtain ⟨f, table, code, hf, ht, h, hview⟩ := exists_of_described hview
  obtain ⟨hm, hnames⟩ := Prod.mk.inj hview
  refine ⟨f, table, code, hf, ht, h, of_decide_eq_true hnames, fun hscope => ?_⟩
  obtain ⟨outer, hmem, hsub⟩ := hscope _ "A" [1] [] hm
  obtain rfl : outer = [0] := by simpa using hmem
  exact absurd hsub (by simp)

end ReaderGen
