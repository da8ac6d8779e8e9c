import ReaderGen.Proofs.Events
import ReaderGen.Proofs.Scope

/-!
# The table of a format and the code scheduled for it

The table of a format is found on one walk through it, and the code for that table is scheduled on
another. Both walks take an item for a variable at the same places, namely outside of loops that have
its name for a counter, so what the first walk puts into the table the second one declares, and in
time.

* `mem_names_addVariables`: the variables in the table are those that some item outside of such loops
  names.
* `statements_laid`: declarations and reads of a code laid out along a format, part by part.
* `Table.perm_due`: what is due at some site is all of the table, if each variable can be declared
  somewhere.
* `schedule_declares_table`: the code declares the variables of the table, each once, and each before
  it is read.
-/

namespace ReaderGen

/-! ## The variables of a table -/

namespace Format

mutual

/-- The names that a walk adds to a table are those of items outside of loops that have them for a
counter. -/
theorem mem_names_addVariables : ∀ (f : Format) {loops : List Enclosing} {before after : Table}
    {s : Site}, addVariables loops f before = .ok after → loops.map (·.counter) = s.counters →
    ∀ x, x ∈ after.names ↔
      x ∈ before.names ∨ ∃ t indices, (t, some (x, indices)) ∈ f.parts s ∧ x ∉ t.counters
  | .item name indices, loops, before, after, s, h, hloops, x => by
    have hpart : ∀ t is, (t, some (x, is)) ∈ parts (.item name indices) s ↔
        t = s ∧ x = name ∧ is = indices := by
      intro t is
      simp [parts]
    rw [addVariables] at h
    split at h
    · rename_i known
      cases h
      refine ⟨.inl, ?_⟩
      rintro (hx | ⟨t, is, ht, -⟩)
      · exact hx
      · obtain ⟨-, rfl, -⟩ := (hpart t is).1 ht
        exact known
    · split at h
      · rename_i hcounter
        cases h
        refine ⟨.inl, ?_⟩
        rintro (hx | ⟨t, is, ht, hx⟩)
        · exact hx
        · obtain ⟨rfl, rfl, -⟩ := (hpart t is).1 ht
          -- the item is read in a loop of its own name
          rw [← hloops] at hx
          simp only [List.any_eq_true, decide_eq_true_eq] at hcounter
          obtain ⟨l, hl, rfl⟩ := hcounter
          exact absurd (List.mem_map_of_mem hl) hx
      · rename_i hcounter
        obtain ⟨dims, -, h⟩ := ok_of_bind h
        obtain ⟨vars, -, h⟩ := ok_of_bind h
        cases h
        rw [Table.names_push, List.mem_append, List.mem_singleton]
        refine or_congr_right ⟨?_, ?_⟩
        · rintro rfl
          refine ⟨s, indices, (hpart s indices).2 ⟨rfl, rfl, rfl⟩, ?_⟩
          rw [← hloops]
          simpa using hcounter
        · rintro ⟨t, is, ht, -⟩
          exact ((hpart t is).1 ht).2.1
  | .newline, loops, before, after, s, h, _, x => by
    cases h
    simp [parts]
  | .sequence items, loops, before, after, s, h, hloops, x => by
    have hall := mem_names_addAllVariables items (s := s.next) h hloops x
    simpa [parts] using hall
  | .loop counter size body, loops, before, after, s, h, hloops, x => by
    have hcounters : (⟨counter, size⟩ :: loops : List Enclosing).map (·.counter) =
        (s.enter counter).counters := by
      rw [List.map_cons, hloops]
      rfl
    have hbody := mem_names_addVariables body h hcounters x
    simpa [parts] using hbody

theorem mem_names_addAllVariables : ∀ (fs : List Format) {loops : List Enclosing}
    {before after : Table} {s : Site}, addAllVariables loops fs before = .ok after →
    loops.map (·.counter) = s.counters → ∀ x, x ∈ after.names ↔
      x ∈ before.names ∨ ∃ t indices, (t, some (x, indices)) ∈ partsAll fs s ∧ x ∉ t.counters
  | [], loops, before, after, s, h, _, x => by
    cases h
    simp [partsAll]
  | f :: fs, loops, before, after, s, h, hloops, x => by
    obtain ⟨between, hf, hfs⟩ := ok_of_bind h
    have hcounters : loops.map (·.counter) = (f.after s).counters := by
      rw [Site.counters, loops_after, hloops]
      rfl
    rw [mem_names_addAllVariables fs hfs hcounters x, mem_names_addVariables f hf hloops x, partsAll]
    simp only [List.mem_append, or_and_right, exists_or, or_assoc]

end

/-- The items of a format in order, each with its site. -/
def occurrences (f : Format) : List (Site × String × List String) :=
  (f.parts .start).filterMap fun part => part.2.map (part.1, ·)

theorem mem_occurrences {f : Format} {t : Site} {x : String} {indices : List String} :
    (t, x, indices) ∈ f.occurrences ↔ (t, some (x, indices)) ∈ f.parts .start := by
  simp [occurrences]

theorem mem_names_table {f : Format} {table : Table} (h : f.table = .ok table) (x : String) :
    x ∈ table.names ↔ ∃ t indices, (t, x, indices) ∈ f.occurrences ∧ x ∉ t.counters := by
  rw [mem_names_addVariables f (s := .start) h rfl x]
  simp [mem_occurrences, Table.empty, Table.names]

end Format

/-! ## Declarations and reads among the events -/

namespace Event

/-- Whether a loop neither begins nor ends. -/
def isStatement : Event → Bool
  | enter _ _ | leave => false
  | _ => true

end Event

namespace Code

theorem events_preceded (decls : List Decl) (code : Code) :
    (preceded decls code).events = decls.map .decl ++ code.events := by
  cases decls with
  | nil => rfl
  | cons d ds => simp [preceded, events, eventsAll]

end Code

namespace Format

section Laid

variable (due : Site → List Decl) (target : String → List String → String)

/-- What is done at a part of a format: what is due is declared, and an item is read. -/
def partEvents (part : Site × Option (String × List String)) : List Event :=
  (due part.1).map .decl ++ part.2.toList.map fun item => .read (target item.1 item.2)

theorem filter_isStatement_decl (decls : List Decl) :
    (decls.map Event.decl).filter Event.isStatement = decls.map Event.decl :=
  List.filter_eq_self.2 (by simp [Event.isStatement])

mutual

/-- Between the beginnings and ends of its loops, the code of a format does what is done at each of its
parts. -/
theorem statements_laid : ∀ (f : Format) (s : Site),
    (f.laid due target s).events.filter Event.isStatement = (f.parts s).flatMap (partEvents due target)
  | .item .., s | .newline, s => by
    rw [laid, Code.events_preceded, List.filter_append, filter_isStatement_decl]
    simp [parts, partEvents, Code.events, Code.eventsAll, Event.isStatement]
  | .sequence items, s => by
    rw [laid, Code.events_preceded, List.filter_append, filter_isStatement_decl, Code.events,
      statementsAll_laidAll items s.next]
    simp [parts, partEvents]
  | .loop counter size body, s => by
    rw [laid, Code.events_preceded, List.filter_append, filter_isStatement_decl, Code.events]
    simp [parts, partEvents, Event.isStatement, ← statements_laid body (s.enter counter)]

theorem statementsAll_laidAll : ∀ (fs : List Format) (s : Site),
    (Code.eventsAll (laidAll due target fs s)).filter Event.isStatement =
      (partsAll fs s).flatMap (partEvents due target)
  | [], _ => rfl
  | f :: fs, s => by
    rw [laidAll, Code.eventsAll, List.filter_append, statements_laid f s,
      statementsAll_laidAll fs (f.after s), partsAll, List.flatMap_append]

end

end Laid

end Format

/-! ## What is due somewhere -/

/-- A list is put together again from its members, sorted by a key. -/
theorem perm_flatMap_filter {α β : Type} [DecidableEq β] (key : α → Option β) {keys : List β}
    (hkeys : keys.Nodup) {as : List α} (h : ∀ a ∈ as, ∃ k ∈ keys, key a = some k) :
    (keys.flatMap fun k => as.filter fun a => key a = some k).Perm as := by
  induction keys generalizing as with
  | nil =>
    cases as with
    | nil => exact .refl _
    | cons a as => simpa using h a (.head _)
  | cons k ks ih =>
    obtain ⟨hk, hks⟩ := List.nodup_cons.1 hkeys
    have hrest : ∀ a ∈ as.filter (fun a => !decide (key a = some k)), ∃ k ∈ ks, key a = some k := by
      intro a ha
      obtain ⟨ha, hne⟩ := List.mem_filter.1 ha
      obtain ⟨j, hj, hkey⟩ := h a ha
      rcases List.mem_cons.1 hj with rfl | hj
      · simp [hkey] at hne
      · exact ⟨j, hj, hkey⟩
    -- the members with one of the other keys are all among those without this key
    have hsame : (ks.flatMap fun j => as.filter fun a => key a = some j) =
        ks.flatMap fun j => (as.filter fun a => !decide (key a = some k)).filter
          fun a => key a = some j := by
      refine List.flatMap_congr fun j hj => ?_
      rw [List.filter_filter]
      refine List.filter_congr fun a _ => ?_
      by_cases hkey : key a = some j
      · have hjk : j ≠ k := fun hjk => hk (hjk ▸ hj)
        simp [hkey, hjk]
      · simp [hkey]
    rw [List.flatMap_cons, hsame]
    exact ((ih hks hrest).append_left _).trans (List.filter_append_perm _ as)

/-- What is due at some site is all of the table, if each variable can be declared somewhere. -/
theorem Table.perm_due {table : Table} {sites : List Site} (hs : sites.Nodup)
    (h : ∀ d ∈ table.decls, ∃ s, sites.find? d.openAt = some s) :
    (sites.flatMap (table.due sites)).Perm table.decls :=
  perm_flatMap_filter (fun d : Decl => sites.find? d.openAt) hs fun d hd => by
    obtain ⟨s, hfind⟩ := h d hd
    exact ⟨s, List.mem_of_find?_eq_some hfind, hfind⟩

/-! ## Declarations before reads -/

/-- The variable is declared before the read of a number, counted from 0. -/
def Code.DeclaresBefore (code : Code) (x : String) (number : Nat) : Prop :=
  ∃ before target after d, code.events = before ++ .read target :: after ∧
    (before.filterMap Event.read?).length = number ∧ Event.decl d ∈ before ∧ d.name = x

namespace Format

theorem filterMap_isStatement {α : Type} {g : Event → Option α}
    (hg : ∀ e, e.isStatement = false → g e = none) (events : List Event) :
    (events.filter Event.isStatement).filterMap g = events.filterMap g := by
  rw [List.filterMap_filter]
  refine List.filterMap_congr fun e _ => ?_
  cases he : e.isStatement with
  | true => rfl
  | false => simp [hg e he]

theorem decl?_of_not_isStatement (e : Event) (h : e.isStatement = false) : e.decl? = none := by
  cases e <;> simp_all [Event.isStatement, Event.decl?]

theorem read?_of_not_isStatement (e : Event) (h : e.isStatement = false) : e.read? = none := by
  cases e <;> simp_all [Event.isStatement, Event.read?]

theorem reads_partEvents (due : Site → List Decl) (target : String → List String → String)
    (parts : List (Site × Option (String × List String))) :
    (parts.flatMap (partEvents due target)).filterMap Event.read? =
      (parts.filterMap (·.2)).map fun item => target item.1 item.2 := by
  induction parts with
  | nil => rfl
  | cons part parts ih =>
    rw [List.flatMap_cons, List.filterMap_append, ih]
    cases h : part.2 <;>
      simp [partEvents, Event.read?, h, List.filterMap_map, Function.comp_def]

section Scheduled

variable {f : Format} {table : Table} {code : Code}

theorem statements_scheduled (h : f.schedule table = .ok code) :
    code.events.filter Event.isStatement =
      (f.parts .start).flatMap (partEvents (table.due f.sites) (target table)) := by
  rw [(schedule_eq_laid h).1]
  exact statements_laid (table.due f.sites) (target table) f .start

theorem decls_scheduled (h : f.schedule table = .ok code) :
    code.events.filterMap Event.decl? = f.sites.flatMap (table.due f.sites) := by
  rw [← filterMap_isStatement decl?_of_not_isStatement, statements_scheduled h, List.filterMap_flatMap,
    sites, List.flatMap_map]
  refine List.flatMap_congr fun part _ => ?_
  cases part.2 <;> simp [partEvents, Event.decl?, List.filterMap_map, Function.comp_def]

theorem reads_scheduled (h : f.schedule table = .ok code) :
    code.events.filterMap Event.read? = f.occurrences.map fun o => target table o.2.1 o.2.2 := by
  rw [← filterMap_isStatement read?_of_not_isStatement, statements_scheduled h, reads_partEvents,
    occurrences, List.map_filterMap, List.map_filterMap]
  refine List.filterMap_congr fun part _ => ?_
  cases part.2 <;> rfl

/-- The parts before an item hold the items before it. -/
theorem parts_of_occurrence {n : Nat} {t : Site} {item : String × List String}
    (h : f.occurrences[n]? = some (t, item)) :
    ∃ ps qs, f.parts .start = ps ++ (t, some item) :: qs ∧ (ps.filterMap (·.2)).length = n := by
  obtain ⟨hn, hitem⟩ := List.getElem?_eq_some_iff.1 h
  have hsplit : f.occurrences = f.occurrences.take n ++ (t, item) :: f.occurrences.drop (n + 1) := by
    rw [← hitem, List.getElem_cons_drop, List.take_append_drop]
  obtain ⟨front, back, hparts, hfront, hback⟩ := List.filterMap_eq_append_iff.1 hsplit
  obtain ⟨gap, ⟨u, found⟩, qs, rfl, hgap, hfound, -⟩ := List.filterMap_eq_cons_iff.1 hback
  obtain ⟨i, hi, hui⟩ := Option.map_eq_some_iff.1 hfound
  obtain ⟨rfl, rfl⟩ := Prod.mk.inj hui
  obtain rfl : found = some i := hi
  refine ⟨front ++ gap, qs, by rw [hparts, List.append_assoc], ?_⟩
  have hnone : gap.filterMap (·.2) = [] := by
    simpa using hgap
  have hitems : front.filterMap (·.2) = (f.occurrences.take n).map (·.2) := by
    rw [← hfront, List.map_filterMap]
    refine List.filterMap_congr fun part _ => ?_
    cases part.2 <;> rfl
  rw [List.filterMap_append, hnone, List.append_nil, hitems, List.length_map, List.length_take]
  omega

theorem number_le_of_occurrences {m n : Nat} (hmn : m ≤ n) {s t : Site} {i j : String × List String}
    (hm : f.occurrences[m]? = some (s, i)) (hn : f.occurrences[n]? = some (t, j)) :
    s.number ≤ t.number := by
  have hsorted : f.occurrences.Pairwise fun o o' => o.1.number < o'.1.number := by
    refine (pairwise_parts f .start).filterMap _ fun p q hpq o ho o' ho' => ?_
    obtain ⟨i, -, rfl⟩ := Option.map_eq_some_iff.1 ho
    obtain ⟨j, -, rfl⟩ := Option.map_eq_some_iff.1 ho'
    exact hpq
  rcases Nat.eq_or_lt_of_le hmn with rfl | hlt
  · obtain ⟨rfl, -⟩ := Prod.mk.inj (Option.some.inj (hm.symm.trans hn))
    exact Nat.le_refl _
  · obtain ⟨hm', hm⟩ := List.getElem?_eq_some_iff.1 hm
    obtain ⟨hn', hn⟩ := List.getElem?_eq_some_iff.1 hn
    have := List.pairwise_iff_getElem.1 hsorted m n hm' hn' hlt
    rw [hm, hn] at this
    exact Nat.le_of_lt this

/-- A variable is declared before the reads of its first item outside of loops that have its name for a
counter, and of all items after that one. -/
theorem declaresBefore_occurrence (h : f.schedule table = .ok code) {m n : Nat} (hmn : m ≤ n)
    {s t : Site} {x : String} {indices indices' : List String}
    (hm : f.occurrences[m]? = some (s, x, indices)) (hx : x ∉ s.counters)
    (hn : f.occurrences[n]? = some (t, x, indices')) : code.DeclaresBefore x n := by
  obtain ⟨ps, qs, hparts, hlength⟩ := parts_of_occurrence hn
  obtain ⟨d, hd, hname, u, hu, hbefore⟩ := declared_before_item h hparts
    (mem_occurrences.1 (List.mem_of_getElem? hm)) (number_le_of_occurrences hmn hm hn) hx
  have hdue : d ∈ table.due f.sites u := Table.mem_due.2 ⟨hd, hu⟩
  -- the read stands after what is done at the parts before and what is declared at its own
  have hsplit : code.events.filter Event.isStatement =
      (ps.flatMap (partEvents (table.due f.sites) (target table)) ++
        (table.due f.sites t).map .decl) ++ .read (target table x indices') ::
          qs.flatMap (partEvents (table.due f.sites) (target table)) := by
    rw [statements_scheduled h, hparts]
    simp [partEvents]
  obtain ⟨front, back, hevents, hfront, hback⟩ := List.filter_eq_append_iff.1 hsplit
  obtain ⟨gap, after, rfl, hgap, -, -⟩ := List.filter_eq_cons_iff.1 hback
  have hstatements : (front ++ gap).filter Event.isStatement =
      ps.flatMap (partEvents (table.due f.sites) (target table)) ++
        (table.due f.sites t).map .decl := by
    rw [List.filter_append, hfront, List.filter_eq_nil_iff.2 hgap, List.append_nil]
  refine ⟨front ++ gap, _, after, d, by rw [hevents, List.append_assoc], ?_, ?_, hname⟩
  · rw [← filterMap_isStatement read?_of_not_isStatement, hstatements, List.filterMap_append,
      reads_partEvents, ← hlength]
    simp [Event.read?, List.filterMap_map, Function.comp_def]
  · have hmem : Event.decl d ∈ (front ++ gap).filter Event.isStatement := by
      rw [hstatements, List.mem_append]
      rcases hbefore with hu | rfl
      · obtain ⟨part, hpart, rfl⟩ := List.mem_map.1 hu
        exact .inl (List.mem_flatMap.2
          ⟨part, hpart, List.mem_append_left _ (List.mem_map_of_mem hdue)⟩)
      · exact .inr (List.mem_map_of_mem hdue)
    exact (List.mem_filter.1 hmem).1

theorem perm_decls_scheduled (ht : f.table = .ok table) (h : f.schedule table = .ok code) :
    (code.events.filterMap Event.decl?).Perm table.decls := by
  rw [decls_scheduled h]
  refine Table.perm_due (f.sorted_sites.imp fun hlt heq => ?_) fun d hd => ?_
  · rw [heq] at hlt
    exact Nat.lt_irrefl _ hlt
  · -- some item outside of loops of its name has been read, so the variable was declared
    have hname : d.name ∈ table.names := List.mem_map_of_mem hd
    obtain ⟨t, indices, hitem, hcounter⟩ := (mem_names_table ht d.name).1 hname
    have hitem := mem_occurrences.1 hitem
    obtain ⟨ps, qs, hparts⟩ := List.append_of_mem hitem
    obtain ⟨c, hc, hcd, s, hs, -⟩ :=
      declared_before_item h hparts hitem (Nat.le_refl _) hcounter
    obtain rfl := Table.eq_of_name hc hd hcd
    exact ⟨s, hs⟩

end Scheduled

end Format

/-- The code scheduled for the table of a format declares the variables of the table, in some order,
each once. It has a read for each item of the format, in order, and a variable is declared before the
read of its first item outside of loops that have its name for a counter, and so before all reads of
later items. -/
theorem schedule_declares_table {f : Format} {table : Table} {code : Code}
    (ht : f.table = .ok table) (h : f.schedule table = .ok code) :
    ((code.events.filterMap Event.decl?).map (·.name)).Perm table.names ∧
      ((code.events.filterMap Event.decl?).map (·.name)).Nodup ∧
      (code.events.filterMap Event.read? =
        f.occurrences.map fun o => Format.target table o.2.1 o.2.2) ∧
      ∀ x ∈ table.names, ∃ first s indices, f.occurrences[first]? = some (s, x, indices) ∧
        x ∉ s.counters ∧
        (∀ n t is, n < first → f.occurrences[n]? = some (t, x, is) → x ∈ t.counters) ∧
        ∀ n t is, first ≤ n → f.occurrences[n]? = some (t, x, is) → code.DeclaresBefore x n := by
  have hperm := (Format.perm_decls_scheduled ht h).map (·.name)
  refine ⟨hperm, hperm.nodup_iff.2 table.nodup, Format.reads_scheduled h, fun x hx => ?_⟩
  obtain ⟨t, indices, hitem, hcounter⟩ := (Format.mem_names_table ht x).1 hx
  obtain ⟨k, hk⟩ := List.getElem?_of_mem hitem
  -- the first of the items outside of loops that have its name for a counter
  have hexists : ∃ n, ∃ s : Site, ∃ is, f.occurrences[n]? = some (s, x, is) ∧ x ∉ s.counters :=
    ⟨k, t, indices, hk, hcounter⟩
  classical
  obtain ⟨s, is, hfirst, hs⟩ := Nat.find_spec hexists
  refine ⟨Nat.find hexists, s, is, hfirst, hs, fun n t is hn hitem => ?_, fun n t is hn hitem => ?_⟩
  · by_contra hout
    exact Nat.find_min hexists hn ⟨t, is, hitem, hout⟩
  · exact Format.declaresBefore_occurrence h hn hfirst hs hitem

/-- `read N; for A upto N { read A; } read A; for i upto N { read B[i + 1]; }`, the ends of the lines
left out. -/
def ownLoopFormat : Format :=
  .sequence [.item "N" [], .loop "A" "N" (.item "A" []), .item "A" [],
    .loop "i" "N" (.item "B" ["i + 1"])]

def ownLoopTable : Table :=
  ⟨[⟨"N", [], .empty⟩, ⟨"A", [], .empty⟩, ⟨"B", [⟨"N", "1"⟩], .ofList ["N"]⟩], by decide⟩

def ownLoopCode : Code :=
  .block [.decl [⟨"N", [], .empty⟩, ⟨"A", [], .empty⟩],
    .block [.read ["N"],
      .block [.decl [⟨"B", [⟨"N", "1"⟩], .ofList ["N"]⟩], .loop "A" "N" (.read ["A"])],
      .read ["A"], .loop "i" "N" (.read ["B[i]"])]]

/-- `A` is put into the table for its second item, as the first stands in a loop of that name. -/
theorem schedule_declares_table_ownLoop :
    ownLoopFormat.table = .ok ownLoopTable ∧
      ownLoopFormat.schedule ownLoopTable = .ok ownLoopCode ∧
      ((ownLoopCode.events.filterMap Event.decl?).map (·.name)).Perm ownLoopTable.names ∧
      ((ownLoopCode.events.filterMap Event.decl?).map (·.name)).Nodup ∧
      (ownLoopCode.events.filterMap Event.read? =
        ownLoopFormat.occurrences.map fun o => Format.target ownLoopTable o.2.1 o.2.2) ∧
      ∀ x ∈ ownLoopTable.names, ∃ first s indices,
        ownLoopFormat.occurrences[first]? = some (s, x, indices) ∧ x ∉ s.counters ∧
        (∀ n t is, n < first → ownLoopFormat.occurrences[n]? = some (t, x, is) → x ∈ t.counters) ∧
        ∀ n t is, first ≤ n → ownLoopFormat.occurrences[n]? = some (t, x, is) →
          ownLoopCode.DeclaresBefore x n := by
  have ht : ownLoopFormat.table = .ok ownLoopTable := ok_of_toOption (by decide +kernel)
  have h : ownLoopFormat.schedule ownLoopTable = .ok ownLoopCode :=
    ok_of_toOption (by decide +kernel)
  exact ⟨ht, h, schedule_declares_table ht h⟩

end ReaderGen
