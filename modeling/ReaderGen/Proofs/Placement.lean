import Mathlib.Data.List.Nodup
import ReaderGen.Code.Schedule
import ReaderGen.Proofs.Reading

/-!
# Where variables are declared

A walk through a format comes to its parts one after the other, a part before what is inside it. The
code of a format has the shape of the format, and before the code of a part stand the declarations
that become possible there: those of the variables whose sizes depend only on items read earlier, and
whose name is not that of a counter of an enclosing loop.

* `Site`: what a walk knows at a part; `Format.parts`: the parts of a format, in order.
* `Table.due`: the variables for which a part is the first at which they can be declared.
* `Format.laid`: the code of a format with given declarations before each part.
* `Progress.Tracks`: the names that scheduling keeps, in terms of the walk.
* `schedule_eq_laid`: scheduling puts before each part what is due there.
* `schedule_declares_earliest`: so each variable is declared once, as early as it can be.
-/

namespace ReaderGen

/-! ## Walking through a format -/

/-- What a walk through a format knows when it comes to a part. -/
structure Site where
  /-- How many parts come before. -/
  number : Nat
  /-- How many loops begin before. -/
  begun : Nat
  /-- The loops around the part, from the inside out: how many begin before each, and its counter. -/
  loops : List (Nat × String)
  /-- The variables of the items before, in order. -/
  earlier : List String
deriving DecidableEq, Repr

namespace Site

def start : Site := ⟨0, 0, [], []⟩

def counters (s : Site) : List String := s.loops.map (·.2)

/-- One part further. -/
def next (s : Site) : Site := { s with number := s.number + 1 }

/-- After an item. -/
def read (name : String) (s : Site) : Site := { s.next with earlier := s.earlier ++ [name] }

/-- In the body of a loop that begins here. -/
def enter (counter : String) (s : Site) : Site :=
  { s.next with begun := s.begun + 1, loops := (s.begun, counter) :: s.loops }

/-- After a loop that began at another site. -/
def leave (outer s : Site) : Site := { s with loops := outer.loops }

end Site

namespace Format

mutual

/-- Where a walk is after a format. -/
def after : Format → Site → Site
  | .item name _, s => s.read name
  | .newline, s => s.next
  | .sequence items, s => afterAll items s.next
  | .loop counter _ body, s => s.leave (after body (s.enter counter))

def afterAll : List Format → Site → Site
  | [], s => s
  | f :: fs, s => afterAll fs (after f s)

end

mutual

/-- The parts of a format in the order of a walk, each with its site and, if it is an item, with its
variable and indices. -/
def parts : Format → Site → List (Site × Option (String × List String))
  | .item name indices, s => [(s, some (name, indices))]
  | .newline, s => [(s, none)]
  | .sequence items, s => (s, none) :: partsAll items s.next
  | .loop counter _ body, s => (s, none) :: parts body (s.enter counter)

def partsAll : List Format → Site → List (Site × Option (String × List String))
  | [], _ => []
  | f :: fs, s => parts f s ++ partsAll fs (after f s)

end

/-- The sites of the parts of a whole format. -/
def sites (f : Format) : List Site := (f.parts .start).map (·.1)

/-- The items of a whole format. -/
def items (f : Format) : List (String × List String) := (f.parts .start).filterMap (·.2)

end Format

/-! ## What can be declared at a site -/

/-- Everything that the sizes of the variable depend on has been read, and no loop around the site
has the variable as its counter. -/
def Decl.openAt (d : Decl) (s : Site) : Bool :=
  d.after.toList.all (· ∈ s.earlier) && !decide (d.name ∈ s.counters)

theorem Decl.openAt_iff {d : Decl} {s : Site} :
    d.openAt s = true ↔ (∀ x ∈ d.after, x ∈ s.earlier) ∧ d.name ∉ s.counters := by
  simp [openAt, Names.mem_def]

/-- The variables for which a site is the first of the given ones at which they can be declared, in
the order of the table. -/
def Table.due (table : Table) (sites : List Site) (s : Site) : List Decl :=
  table.decls.filter (fun d => sites.find? d.openAt = some s)

/-! ## Code laid out along a format -/

/-- Code with declarations before it. Where there are none, nothing stands there. -/
def Code.preceded (decls : List Decl) (code : Code) : Code :=
  if decls.isEmpty then code else .block [.decl decls, code]

namespace Format

section Laid

variable (due : Site → List Decl) (target : String → List String → String)

mutual

/-- The code of a format: each item is read into its target, loops stay as they are, and before each
part stand the declarations due there. -/
def laid : Format → Site → Code
  | .item name indices, s => .preceded (due s) (.read [target name indices])
  | .newline, s => .preceded (due s) (.block [])
  | .sequence items, s => .preceded (due s) (.block (laidAll items s.next))
  | .loop counter size body, s =>
    .preceded (due s) (.loop counter size (laid body (s.enter counter)))

def laidAll : List Format → Site → List Code
  | [], _ => []
  | f :: fs, s => laid f s :: laidAll fs (after f s)

end

end Laid

/-- The text that an item is read into, where the table has a declaration for it. -/
def target (table : Table) (name : String) (indices : List String) : String :=
  match table.get? name with
  | none => name
  | some d =>
    match subscripts indices d.bases with
    | .error _ => name
    | .ok text => name ++ text

/-! ## Sites along a walk -/

theorem mem_partsAll {part : Site × Option (String × List String)} : ∀ {fs : List Format} {s : Site},
    part ∈ partsAll fs s → ∃ f ∈ fs, ∃ s', part ∈ f.parts s'
  | [], _, h => by cases h
  | f :: fs, s, h => by
    rcases List.mem_append.1 h with h | h
    · exact ⟨f, .head _, s, h⟩
    · obtain ⟨f', hf', hs⟩ := mem_partsAll h
      exact ⟨f', .tail _ hf', hs⟩

mutual

theorem loops_after : ∀ (f : Format) (s : Site), (f.after s).loops = s.loops
  | .item .., _ | .newline, _ | .loop .., _ => rfl
  | .sequence items, s => loops_afterAll items s.next

theorem loops_afterAll : ∀ (fs : List Format) (s : Site), (afterAll fs s).loops = s.loops
  | [], _ => rfl
  | f :: fs, s => (loops_afterAll fs (f.after s)).trans (loops_after f s)

end

mutual

theorem number_lt_after : ∀ (f : Format) (s : Site), s.number < (f.after s).number
  | .item .., s | .newline, s => Nat.lt_succ_self s.number
  | .sequence items, s => number_le_afterAll items s.next
  | .loop counter _ body, s => Nat.lt_of_succ_lt (number_lt_after body (s.enter counter))

theorem number_le_afterAll : ∀ (fs : List Format) (s : Site), s.number ≤ (afterAll fs s).number
  | [], s => Nat.le_refl s.number
  | f :: fs, s =>
    Nat.le_trans (Nat.le_of_lt (number_lt_after f s)) (number_le_afterAll fs (f.after s))

end

/-- What a walk comes to on the way from one site to another, within the loops it started in. -/
structure Between (s u t : Site) : Prop where
  first : s.number ≤ t.number
  last : t.number < u.number
  inside : s.loops <:+ t.loops

theorem Between.counters {s u t : Site} (h : Between s u t) : ∀ x ∈ s.counters, x ∈ t.counters :=
  fun _ hx => (h.inside.map _).subset hx

mutual

theorem between_of_mem_parts : ∀ (f : Format) (s : Site), ∀ p ∈ f.parts s,
    Between s (f.after s) p.1
  | .item .., s, p, hp | .newline, s, p, hp => by
    obtain rfl := List.mem_singleton.1 hp
    exact ⟨Nat.le_refl _, Nat.lt_succ_self _, List.suffix_refl _⟩
  | .sequence items, s, p, hp => by
    rcases List.mem_cons.1 hp with rfl | hp
    · exact ⟨Nat.le_refl _, number_lt_after (.sequence items) s, List.suffix_refl _⟩
    · have h := between_of_mem_partsAll items s.next p hp
      exact ⟨Nat.le_of_lt h.first, h.last, h.inside⟩
  | .loop counter size body, s, p, hp => by
    rcases List.mem_cons.1 hp with rfl | hp
    · exact ⟨Nat.le_refl _, number_lt_after (.loop counter size body) s, List.suffix_refl _⟩
    · have h := between_of_mem_parts body (s.enter counter) p hp
      exact ⟨Nat.le_of_lt h.first, h.last, (List.suffix_cons _ _).trans h.inside⟩

theorem between_of_mem_partsAll : ∀ (fs : List Format) (s : Site), ∀ p ∈ partsAll fs s,
    Between s (afterAll fs s) p.1
  | [], _, _, hp => by cases hp
  | f :: fs, s, p, hp => by
    rcases List.mem_append.1 hp with hp | hp
    · have h := between_of_mem_parts f s p hp
      exact ⟨h.first, Nat.lt_of_lt_of_le h.last (number_le_afterAll fs (f.after s)), h.inside⟩
    · have h := between_of_mem_partsAll fs (f.after s) p hp
      refine ⟨Nat.le_trans (Nat.le_of_lt (number_lt_after f s)) h.first, h.last, ?_⟩
      rw [← loops_after f s]
      exact h.inside

end

end Format

/-! ## What scheduling keeps, in terms of the walk -/

/-- The name of a variable that could be declared at one of the sites. -/
def Table.Opened (table : Table) (sites : List Site) (x : String) : Prop :=
  ∃ d ∈ table.decls, d.name = x ∧ ∃ t ∈ sites, d.openAt t = true

namespace Table

variable {table : Table} {sites : List Site}

theorem eq_of_name {c d : Decl} (hc : c ∈ table.decls) (hd : d ∈ table.decls)
    (h : c.name = d.name) : c = d := List.inj_on_of_nodup_map table.nodup hc hd h

theorem opened_name {d : Decl} (hd : d ∈ table.decls) :
    table.Opened sites d.name ↔ ∃ t ∈ sites, d.openAt t = true := by
  constructor
  · rintro ⟨c, hc, hname, h⟩
    rwa [← eq_of_name hc hd hname]
  · exact fun h => ⟨d, hd, rfl, h⟩

theorem opened_append {more : List Site} {x : String} :
    table.Opened (sites ++ more) x ↔ table.Opened sites x ∨ table.Opened more x := by
  simp only [Opened, List.mem_append, or_and_right, exists_or, and_or_left]

theorem mem_due {s : Site} {d : Decl} :
    d ∈ table.due sites s ↔ d ∈ table.decls ∧ sites.find? d.openAt = some s := by
  simp [due]

end Table

namespace Progress

/-- The names kept by scheduling when a walk has come to a site after others: the counters of the
loops around it, the variables that could be declared before, and the items read before. -/
structure Tracks (table : Table) (before : List Site) (s : Site) (p : Progress) : Prop where
  declared : ∀ x, x ∈ p.declared ↔ x ∈ s.counters ∨ table.Opened before x
  initialized : ∀ x, x ∈ p.initialized ↔ x ∈ s.earlier

variable {table : Table} {before rest : List Site} {s : Site} {p : Progress}

theorem tracks_start : start.Tracks table [] .start :=
  ⟨fun x => by simp [start, Site.start, Site.counters, Table.Opened],
    fun x => by simp [start, Site.start]⟩

theorem mem_ready {d : Decl} :
    d ∈ p.ready table ↔ d ∈ table.decls ∧ d.name ∉ p.declared ∧ ∀ x ∈ d.after, x ∈ p.initialized := by
  simp [ready, Names.contains, Names.subset_iff]

theorem mem_declare {decls : List Decl} {x : String} :
    x ∈ (p.declare decls).declared ↔ x ∈ p.declared ∨ ∃ d ∈ decls, d.name = x := by
  rw [declare]
  generalize p.declared = names
  induction decls generalizing names with
  | nil => simp
  | cons d decls ih =>
    rw [List.foldl_cons, ih, Names.mem_insert, @eq_comm _ x, or_assoc, or_left_comm]
    simp only [List.mem_cons, exists_eq_or_imp]

/-- What is ready is what can be declared here and could not before. -/
theorem Tracks.mem_ready (h : p.Tracks table before s) {d : Decl} :
    d ∈ p.ready table ↔
      d ∈ table.decls ∧ d.openAt s = true ∧ ∀ t ∈ before, d.openAt t = false := by
  rw [Progress.mem_ready, Decl.openAt_iff]
  refine and_congr_right fun hd => ?_
  rw [h.declared, Table.opened_name hd]
  simp only [h.initialized, not_or, not_exists, not_and, Bool.not_eq_true]
  exact ⟨fun ⟨⟨hc, hb⟩, ha⟩ => ⟨⟨ha, hc⟩, hb⟩, fun ⟨⟨ha, hc⟩, hb⟩ => ⟨⟨hc, hb⟩, ha⟩⟩

/-- What is ready is what is due. -/
theorem Tracks.ready_eq_due (h : p.Tracks table before s) (hs : s ∉ before) :
    p.ready table = table.due (before ++ s :: rest) s := by
  refine List.filter_congr fun d hd => ?_
  rw [Bool.eq_iff_iff]
  have hready := h.mem_ready (d := d)
  simp only [ready, List.mem_filter, hd, true_and] at hready
  rw [hready, decide_eq_true_iff, List.find?_append]
  constructor
  · rintro ⟨hopen, hbefore⟩
    have hnone : before.find? d.openAt = none := by
      simpa using hbefore
    rw [hnone, List.find?_cons_of_pos hopen]
    rfl
  · intro hfind
    cases hb : before.find? d.openAt with
    | some t =>
      rw [hb] at hfind
      obtain rfl : t = s := Option.some.inj hfind
      exact absurd (List.mem_of_find?_eq_some hb) hs
    | none =>
      rw [hb, Option.none_or] at hfind
      exact ⟨List.find?_some hfind, by simpa using hb⟩

theorem Tracks.declare (h : p.Tracks table before s) :
    (p.declare (p.ready table)).Tracks table (before ++ [s]) s := by
  refine ⟨fun x => ?_, h.initialized⟩
  rw [mem_declare, h.declared, Table.opened_append, ← or_assoc]
  constructor
  · rintro (hx | ⟨d, hd, rfl⟩)
    · exact .inl hx
    · obtain ⟨hmem, hopen, -⟩ := h.mem_ready.1 hd
      exact .inr ⟨d, hmem, rfl, s, .head _, hopen⟩
  · rintro (hx | ⟨d, hd, rfl, t, ht, hopen⟩)
    · exact .inl hx
    · obtain rfl := List.mem_singleton.1 ht
      by_cases hb : table.Opened before d.name
      · exact .inl (.inr hb)
      · refine .inr ⟨d, h.mem_ready.2 ⟨hd, hopen, fun u hu => ?_⟩, rfl⟩
        rw [Bool.eq_false_iff]
        exact fun ho => hb ⟨d, hd, rfl, u, hu, ho⟩

/-- In a loop whose counter is declared already, nothing changes; else the counter is put in, and no
variable of its name can be declared until it is taken out again. -/
theorem Tracks.counting {counter : String} {body : Progress → Except Error Code × Progress}
    {code : Except Error Code} {p' : Progress} (h : p.Tracks table before s)
    (hr : Format.counting counter p body = (code, p')) :
    ∃ q q', body q = (code, q') ∧ q.Tracks table before (s.enter counter) ∧
      ∀ inside u, u.loops = (s.enter counter).loops → (∀ t ∈ inside, counter ∈ t.counters) →
        q'.Tracks table (before ++ inside) u → p'.Tracks table (before ++ inside) (s.leave u) := by
  have hcounters : (s.enter counter).counters = counter :: s.counters := rfl
  unfold Format.counting at hr
  by_cases hc : counter ∈ p.declared
  · rw [if_pos hc] at hr
    refine ⟨p, p', hr, ⟨fun x => ?_, h.initialized⟩,
      fun inside u hu _ h' => ⟨fun x => ?_, h'.initialized⟩⟩
    · rw [hcounters, List.mem_cons, h.declared, or_assoc]
      refine ⟨.inr, ?_⟩
      rintro (rfl | hx)
      · exact (h.declared _).1 hc
      · exact hx
    · have hucounters : u.counters = counter :: s.counters := by rw [Site.counters, hu]; rfl
      rw [h'.declared, hucounters, List.mem_cons, or_assoc]
      refine ⟨?_, .inr⟩
      rintro (rfl | hx)
      · exact ((h.declared _).1 hc).imp_right fun ho => Table.opened_append.2 (.inl ho)
      · exact hx
  · rw [if_neg hc] at hr
    obtain ⟨hcounter, hopened⟩ := not_or.1 (mt (h.declared counter).2 hc)
    generalize hbody : body { p with declared := p.declared.insert counter } = result at hr
    obtain ⟨code', q'⟩ := result
    cases hr
    refine ⟨_, q', hbody, ⟨fun x => ?_, h.initialized⟩,
      fun inside u hu hin h' => ⟨fun x => ?_, h'.initialized⟩⟩
    · rw [Names.mem_insert, h.declared, hcounters, List.mem_cons, or_assoc]
    · have hucounters : u.counters = counter :: s.counters := by rw [Site.counters, hu]; rfl
      rw [Names.mem_erase, h'.declared, hucounters, List.mem_cons, or_assoc]
      constructor
      · rintro ⟨hx, hne⟩
        exact hx.resolve_left hne
      · refine fun hx => ⟨.inr hx, ?_⟩
        rintro rfl
        -- neither before the loop nor inside it is its counter declared as a variable
        rcases hx with hx | hx
        · exact hcounter hx
        · rcases Table.opened_append.1 hx with hx | ⟨d, -, rfl, t, ht, hopen⟩
          · exact hopened hx
          · exact (Decl.openAt_iff.1 hopen).2 (hin t ht)

/-- Before the code of a part stands what is due there. -/
theorem Tracks.declaring {all : List Site} {body : Progress → Except Error Code × Progress}
    {code : Code} {p' : Progress} (h : p.Tracks table before s)
    (hn : ∀ t ∈ before, t.number < s.number) (hall : before ++ [s] <+: all)
    (hr : Format.declaring table p body = (.ok code, p')) :
    ∃ inner q, body q = (.ok inner, p') ∧ code = .preceded (table.due all s) inner ∧
      q.Tracks table (before ++ [s]) s := by
  obtain ⟨rest, rfl⟩ := hall
  have hs : s ∉ before := fun hmem => Nat.lt_irrefl _ (hn s hmem)
  have hready : p.ready table = table.due (before ++ [s] ++ rest) s := by
    rw [List.append_assoc]
    exact h.ready_eq_due hs
  dsimp only [Format.declaring] at hr
  generalize hbody : body (p.declare (p.ready table)) = result at hr
  obtain ⟨_ | inner, q'⟩ := result
  · cases hr
  · cases hr
    exact ⟨inner, _, hbody, by rw [Code.preceded, ← hready], h.declare⟩

end Progress

/-! ## Scheduling lays the code out along the walk -/

namespace Format

variable {table : Table} {all : List Site}

/-- An item that could be read at a site: the table has a declaration for it, the differences of its
indices and the bases have a canonical form, and its name is a counter there or the variable has been
declared. -/
structure Found (table : Table) (all : List Site) (t : Site) (item : String × List String) : Prop where
  subscripts : ∃ d text, table.get? item.1 = some d ∧ subscripts item.2 d.bases = .ok text
  declared : item.1 ∈ t.counters ∨ table.Opened (all.filter (·.number ≤ t.number)) item.1

theorem readItem_eq_ok {name : String} {indices : List String} {p p' : Progress} {code : Code}
    (h : readItem table name indices p = (.ok code, p')) :
    name ∈ p.declared ∧ code = .read [target table name indices] ∧ p' = p.markRead name ∧
      ∃ d text, table.get? name = some d ∧ subscripts indices d.bases = .ok text := by
  unfold readItem at h
  split at h
  · rename_i hname
    split at h
    · cases h
    · rename_i d hd
      split at h
      · cases h
      · rename_i text htext
        cases h
        exact ⟨hname, by simp only [target, hd, htext], rfl, d, text, hd, htext⟩
  · cases h

theorem numbers_next {before : List Site} {s : Site} (hn : ∀ t ∈ before, t.number < s.number) :
    ∀ t ∈ before ++ [s], t.number < s.number + 1 := by
  intro t ht
  rcases List.mem_append.1 ht with ht | ht
  · exact Nat.lt_succ_of_lt (hn t ht)
  · rw [List.mem_singleton.1 ht]
    exact Nat.lt_succ_self s.number

theorem numbers_after (f : Format) {before : List Site} {s : Site}
    (hn : ∀ t ∈ before, t.number < s.number) :
    ∀ t ∈ before ++ (f.parts s).map (·.1), t.number < (f.after s).number := by
  intro t ht
  rcases List.mem_append.1 ht with ht | ht
  · exact Nat.lt_trans (hn t ht) (number_lt_after f s)
  · obtain ⟨part, hpart, rfl⟩ := List.mem_map.1 ht
    exact (between_of_mem_parts f s part hpart).last

mutual

/-- Scheduling a part of a format lays its code out along the walk. -/
theorem visit_eq_laid : ∀ (f : Format) {before : List Site} {s : Site} {p p' : Progress}
    {code : Code}, p.Tracks table before s → (∀ t ∈ before, t.number < s.number) →
    before ++ (f.parts s).map (·.1) <+: all → visit table f p = (.ok code, p') →
    code = f.laid (table.due all) (target table) s ∧
      p'.Tracks table (before ++ (f.parts s).map (·.1)) (f.after s) ∧
      ∀ t item, (t, some item) ∈ f.parts s → Found table all t item
  | .item name indices, before, s, p, p', code, h, hn, hall, hr => by
    rw [visit] at hr
    obtain ⟨inner, q, hq, rfl, ht⟩ := h.declaring hn hall hr
    obtain ⟨hname, rfl, rfl, hsub⟩ := readItem_eq_ok hq
    refine ⟨rfl, ⟨ht.declared, fun x => ?_⟩, fun t item hmem => ?_⟩
    · rw [Progress.markRead, Names.mem_insert, ht.initialized]
      simp [after, Site.read, or_comm]
    · cases List.mem_singleton.1 hmem
      refine ⟨hsub, ((ht.declared name).1 hname).imp_right ?_⟩
      rintro ⟨d, hd, hdn, u, hu, hopen⟩
      -- the sites of the walk so far are those with a number up to that of the item
      refine ⟨d, hd, hdn, u, List.mem_filter.2 ⟨hall.subset hu, ?_⟩, hopen⟩
      rcases List.mem_append.1 hu with hu | hu
      · exact decide_eq_true (Nat.le_of_lt (hn u hu))
      · exact decide_eq_true (Nat.le_of_eq (by rw [List.mem_singleton.1 hu]))
  | .newline, before, s, p, p', code, h, hn, hall, hr => by
    rw [visit] at hr
    obtain ⟨inner, q, hq, rfl, ht⟩ := h.declaring hn hall hr
    cases hq
    refine ⟨rfl, ⟨ht.declared, ht.initialized⟩, fun t item hmem => ?_⟩
    cases List.mem_singleton.1 hmem
  | .sequence items, before, s, p, p', code, h, hn, hall, hr => by
    have hsites : before ++ ((parts (.sequence items) s).map (·.1)) =
        before ++ [s] ++ (partsAll items s.next).map (·.1) := by simp [parts]
    rw [hsites] at hall ⊢
    rw [visit] at hr
    obtain ⟨inner, q, hq, rfl, ht⟩ := h.declaring hn ((List.prefix_append _ _).trans hall) hr
    generalize hv : visitAll table items q = result at hq
    obtain ⟨_ | codes, q'⟩ := result
    · cases hq
    · cases hq
      have hnext : q.Tracks table (before ++ [s]) s.next := ⟨ht.declared, ht.initialized⟩
      obtain ⟨rfl, hafter, hfound⟩ := visitAll_eq_laid items hnext (numbers_next hn) hall hv
      refine ⟨rfl, hafter, fun t item hmem => ?_⟩
      rcases List.mem_cons.1 hmem with heq | hmem
      · cases heq
      · exact hfound t item hmem
  | .loop counter size body, before, s, p, p', code, h, hn, hall, hr => by
    have hsites : before ++ ((parts (.loop counter size body) s).map (·.1)) =
        before ++ [s] ++ (body.parts (s.enter counter)).map (·.1) := by simp [parts]
    rw [hsites] at hall ⊢
    rw [visit] at hr
    obtain ⟨inner, q, hq, rfl, ht⟩ := h.declaring hn ((List.prefix_append _ _).trans hall) hr
    generalize hv : counting counter q (visit table body) = result at hq
    obtain ⟨_ | bodyCode, q'⟩ := result
    · cases hq
    · cases hq
      obtain ⟨q₁, q₂, hbody, henter, hleave⟩ := ht.counting hv
      obtain ⟨rfl, hafter, hfound⟩ := visit_eq_laid body henter (numbers_next hn) hall hbody
      -- the counter is a counter of every site in the body, so it can be taken out at the end
      refine ⟨rfl, hleave _ _ (loops_after body (s.enter counter)) (fun t hmem => ?_) hafter,
        fun t item hmem => ?_⟩
      · obtain ⟨part, hpart, rfl⟩ := List.mem_map.1 hmem
        exact (between_of_mem_parts body _ part hpart).counters counter (.head _)
      · rcases List.mem_cons.1 hmem with heq | hmem
        · cases heq
        · exact hfound t item hmem

theorem visitAll_eq_laid : ∀ (fs : List Format) {before : List Site} {s : Site} {p p' : Progress}
    {codes : List Code}, p.Tracks table before s → (∀ t ∈ before, t.number < s.number) →
    before ++ (partsAll fs s).map (·.1) <+: all → visitAll table fs p = (.ok codes, p') →
    codes = laidAll (table.due all) (target table) fs s ∧
      p'.Tracks table (before ++ (partsAll fs s).map (·.1)) (afterAll fs s) ∧
      ∀ t item, (t, some item) ∈ partsAll fs s → Found table all t item
  | [], before, s, p, p', codes, h, hn, hall, hr => by
    cases hr
    refine ⟨rfl, by simpa [partsAll, afterAll] using h, fun t item hmem => ?_⟩
    cases hmem
  | f :: fs, before, s, p, p', codes, h, hn, hall, hr => by
    have hsites : before ++ ((partsAll (f :: fs) s).map (·.1)) =
        before ++ (f.parts s).map (·.1) ++ (partsAll fs (f.after s)).map (·.1) := by
      simp [partsAll]
    rw [hsites] at hall ⊢
    rw [visitAll] at hr
    cases hf : visit table f p with | mk first q =>
    rw [hf] at hr
    cases first with
    | error e => cases hr
    | ok code =>
      obtain ⟨rfl, hafter, hfound⟩ :=
        visit_eq_laid f h hn ((List.prefix_append _ _).trans hall) hf
      cases hfs : visitAll table fs q with | mk others q' =>
      dsimp only at hr
      rw [hfs] at hr
      cases others with
      | error e => cases hr
      | ok codes' =>
        cases hr
        obtain ⟨rfl, hend, hfound'⟩ := visitAll_eq_laid fs hafter (numbers_after f hn) hall hfs
        refine ⟨rfl, hend, fun t item hmem => ?_⟩
        rcases List.mem_append.1 hmem with hmem | hmem
        · exact hfound t item hmem
        · exact hfound' t item hmem

end

theorem schedule_eq_laid {f : Format} {code : Code} (h : f.schedule table = .ok code) :
    code = f.laid (table.due f.sites) (target table) .start ∧
      ∀ t item, (t, some item) ∈ f.parts .start → Found table f.sites t item := by
  obtain ⟨result, p, hv⟩ : ∃ result p, visit table f .start = (result, p) := ⟨_, _, rfl⟩
  obtain rfl : result = .ok code := by rw [schedule, hv] at h; exact h
  obtain ⟨hcode, -, hfound⟩ := visit_eq_laid f Progress.tracks_start (by simp)
    (List.prefix_refl _) hv
  exact ⟨hcode, hfound⟩

end Format

/-! ## All declarations of a code -/

namespace Code

mutual

/-- The declarations in a code, in order. -/
def declared : Code → List Decl
  | decl decls => decls
  | block nodes => declaredAll nodes
  | loop _ _ body => declared body
  | read _ | write _ | line _ => []

def declaredAll : List Code → List Decl
  | [] => []
  | c :: cs => declared c ++ declaredAll cs

end

theorem declared_preceded (decls : List Decl) (code : Code) :
    (preceded decls code).declared = decls ++ code.declared := by
  cases decls with
  | nil => rfl
  | cons d ds => simp [preceded, declared, declaredAll]

end Code

namespace Format

variable (due : Site → List Decl) (target : String → List String → String)

mutual

theorem declared_laid : ∀ (f : Format) (s : Site),
    (f.laid due target s).declared = (f.parts s).flatMap (fun part => due part.1)
  | .item .., s | .newline, s => by
    rw [laid, Code.declared_preceded]
    simp [parts, Code.declared, Code.declaredAll]
  | .sequence items, s => by
    rw [laid, Code.declared_preceded, Code.declared, declared_laidAll items s.next]
    simp [parts]
  | .loop counter size body, s => by
    rw [laid, Code.declared_preceded, Code.declared, declared_laid body (s.enter counter)]
    simp [parts]

theorem declared_laidAll : ∀ (fs : List Format) (s : Site),
    Code.declaredAll (laidAll due target fs s) = (partsAll fs s).flatMap (fun part => due part.1)
  | [], _ => rfl
  | f :: fs, s => by
    rw [laidAll, Code.declaredAll, declared_laid f s, declared_laidAll fs (f.after s)]
    simp [partsAll]

end

mutual

/-- A walk comes to no part twice. -/
theorem pairwise_parts : ∀ (f : Format) (s : Site),
    (f.parts s).Pairwise (fun p q => p.1.number < q.1.number)
  | .item .., _ | .newline, _ => List.pairwise_singleton _ _
  | .sequence items, s => by
    refine List.pairwise_cons.2 ⟨fun p hp => ?_, pairwise_partsAll items s.next⟩
    exact (between_of_mem_partsAll items s.next p hp).first
  | .loop counter _ body, s => by
    refine List.pairwise_cons.2 ⟨fun p hp => ?_, pairwise_parts body (s.enter counter)⟩
    exact (between_of_mem_parts body (s.enter counter) p hp).first

theorem pairwise_partsAll : ∀ (fs : List Format) (s : Site),
    (partsAll fs s).Pairwise (fun p q => p.1.number < q.1.number)
  | [], _ => .nil
  | f :: fs, s => by
    refine List.pairwise_append.2 ⟨pairwise_parts f s, pairwise_partsAll fs (f.after s), ?_⟩
    intro p hp q hq
    exact Nat.lt_of_lt_of_le (between_of_mem_parts f s p hp).last
      (between_of_mem_partsAll fs (f.after s) q hq).first

end

theorem sorted_sites (f : Format) : f.sites.Pairwise (fun s t => s.number < t.number) :=
  List.pairwise_map.2 (pairwise_parts f .start)

end Format

/-- Scheduling declares each variable at most once, and directly before the first part of the format
at which everything that it depends on has been read and no loop around has its name for a counter. A
variable without such a part is not declared, nor is anything else; what is declared before the same
part is declared together, in the order of the table. -/
theorem schedule_declares_earliest {f : Format} {table : Table} {code : Code}
    (h : f.schedule table = .ok code) :
    code = f.laid (table.due f.sites) (Format.target table) .start ∧ code.declared.Nodup ∧
      ∀ d, d ∈ code.declared ↔ d ∈ table.decls ∧ ∃ s ∈ f.sites, d.openAt s = true := by
  obtain ⟨hcode, -⟩ := Format.schedule_eq_laid h
  have hdeclared : code.declared = f.sites.flatMap (table.due f.sites) := by
    rw [hcode, Format.declared_laid, Format.sites, List.flatMap_map]
  refine ⟨hcode, ?_, fun d => ?_⟩
  · rw [hdeclared, List.nodup_flatMap]
    refine ⟨fun s _ => (List.Nodup.of_map _ table.nodup).filter _, ?_⟩
    refine f.sorted_sites.imp fun hlt d hs ht => ?_
    -- the first site at which a variable can be declared is one site
    obtain rfl := Option.some.inj ((Table.mem_due.1 hs).2.symm.trans (Table.mem_due.1 ht).2)
    exact Nat.lt_irrefl _ hlt
  · rw [hdeclared, List.mem_flatMap]
    constructor
    · rintro ⟨s, hs, hd⟩
      obtain ⟨hd, hfind⟩ := Table.mem_due.1 hd
      exact ⟨hd, s, hs, List.find?_some hfind⟩
    · rintro ⟨hd, s, hs, hopen⟩
      obtain ⟨t, ht⟩ := Option.isSome_iff_exists.1
        (List.find?_isSome.2 ⟨s, hs, hopen⟩ : (f.sites.find? d.openAt).isSome)
      exact ⟨t, List.mem_of_find?_eq_some ht, Table.mem_due.2 ⟨hd, ht⟩⟩

/-- `read N; for A upto N { read M; } read A;`, the ends of the lines left out. -/
def shadowedFormat : Format :=
  .sequence [.item "N" [], .loop "A" "N" (.sequence [.item "M" []]), .item "A" []]

/-- `A` depends on what is read in the loop that has it for a counter, and `C` on itself. -/
def shadowedTable : Table :=
  ⟨[⟨"A", [], .ofList ["M"]⟩, ⟨"C", [], .ofList ["C"]⟩, ⟨"N", [], .empty⟩, ⟨"M", [], .empty⟩],
    by decide⟩

def shadowedCode : Code :=
  .block [.decl [⟨"N", [], .empty⟩, ⟨"M", [], .empty⟩],
    .block [.read ["N"], .loop "A" "N" (.block [.read ["M"]]),
      .block [.decl [⟨"A", [], .ofList ["M"]⟩], .read ["A"]]]]

/-- `N` and `M` are declared first, `A` only after the loop, and `C` never. -/
theorem schedule_declares_earliest_shadowed :
    shadowedFormat.schedule shadowedTable = .ok shadowedCode ∧
      shadowedCode.declared.map (·.name) = ["N", "M", "A"] ∧
      shadowedCode = shadowedFormat.laid (shadowedTable.due shadowedFormat.sites)
        (Format.target shadowedTable) .start ∧ shadowedCode.declared.Nodup ∧
      ∀ d, d ∈ shadowedCode.declared ↔
        d ∈ shadowedTable.decls ∧ ∃ s ∈ shadowedFormat.sites, d.openAt s = true := by
  have h : shadowedFormat.schedule shadowedTable = .ok shadowedCode :=
    ok_of_toOption (by decide +kernel)
  exact ⟨h, rfl, schedule_declares_earliest h⟩

end ReaderGen
