import ReaderGen.Proofs.FirstUse

/-!
# What stands in the body of a loop

An array is filled in the loops that supply its dimensions, so a declaration in the body of one of
them would make the array anew in each round. Scheduling does not look at loops: it declares an array
where everything that its sizes depend on has been read, which can be in such a body. In the same way
it keeps no record of which names are counters once the table has them: an item may be read into a
variable that a loop around it has for a counter.

* `Site.Reaches`: what changes along a walk, and in which direction.
* `Code.loopHeads`: the loops of a code; `Format.loopHeads_laid`: they are those of the format.
* `Around.Holds`: a loop, an item in it, and the parts between them.
* `schedule_declaresInside_iff`: the declaration of an array is in the body of a loop that supplies one
  of its dimensions just if something that its sizes depend on is not read before that loop.
* `Code.targets`: what a code reads into, and the counters of the loops around.
* `schedule_readsCounter_iff`: a counter is read as a variable just if its name is read both in a loop
  of that name and elsewhere.
-/

namespace ReaderGen

/-! ## Going on from one site to another -/

/-- A walk goes on from one site to another: loops that have begun and items that have been read are
not forgotten, and a loop around the second site is around the first too or begins in between. -/
structure Site.Reaches (s t : Site) : Prop where
  begun : s.begun ≤ t.begun
  earlier : s.earlier ⊆ t.earlier
  around : ∀ k ∈ t.around, k ∈ s.around ∨ s.begun ≤ k ∧ k < t.begun

namespace Site.Reaches

variable {s t u : Site}

theorem refl (s : Site) : s.Reaches s := ⟨Nat.le_refl _, List.Subset.refl _, fun _ => .inl⟩

theorem trans (hst : s.Reaches t) (htu : t.Reaches u) : s.Reaches u := by
  refine ⟨Nat.le_trans hst.begun htu.begun, List.Subset.trans hst.earlier htu.earlier, ?_⟩
  intro k hk
  have hbegun := hst.begun
  have hbegun' := htu.begun
  rcases htu.around k hk with hk | ⟨hlo, hhi⟩
  · rcases hst.around k hk with hk | ⟨hlo, hhi⟩
    · exact .inl hk
    · exact .inr ⟨hlo, by omega⟩
  · exact .inr ⟨by omega, hhi⟩

theorem next (s : Site) : s.Reaches s.next := ⟨Nat.le_refl _, List.Subset.refl _, fun _ => .inl⟩

theorem read (name : String) (s : Site) : s.Reaches (s.read name) :=
  ⟨Nat.le_refl _, List.subset_append_left _ _, fun _ => .inl⟩

theorem enter (counter : String) (s : Site) : s.Reaches (s.enter counter) := by
  refine ⟨Nat.le_succ _, List.Subset.refl _, fun k hk => ?_⟩
  rcases List.mem_cons.1 hk with rfl | hk
  · exact .inr ⟨Nat.le_refl _, Nat.lt_succ_self _⟩
  · exact .inl hk

/-- Leaving a loop, a walk is back in the loops around it. -/
theorem leave (h : s.Reaches t) (hloops : u.loops <:+ s.loops) : s.Reaches (u.leave t) :=
  ⟨h.begun, h.earlier, fun _ hk => .inl ((hloops.map _).subset hk)⟩

end Site.Reaches

namespace Format

open Site (Reaches)

mutual

theorem reaches_after : ∀ (f : Format) (s : Site), s.Reaches (f.after s)
  | .item name _, s => .read name s
  | .newline, s => .next s
  | .sequence items, s => (Reaches.next s).trans (reaches_afterAll items s.next)
  | .loop counter _ body, s =>
    ((Reaches.enter counter s).trans (reaches_after body (s.enter counter))).leave
      (List.suffix_refl _)

theorem reaches_afterAll : ∀ (fs : List Format) (s : Site), s.Reaches (afterAll fs s)
  | [], s => .refl s
  | f :: fs, s => (reaches_after f s).trans (reaches_afterAll fs (f.after s))

end

mutual

theorem reaches_of_mem_parts : ∀ (f : Format) (s : Site), ∀ p ∈ f.parts s,
    s.Reaches p.1 ∧ p.1.Reaches (f.after s)
  | .item .., s, p, hp | .newline, s, p, hp => by
    obtain rfl := List.mem_singleton.1 hp
    exact ⟨.refl s, reaches_after _ s⟩
  | .sequence items, s, p, hp => by
    rcases List.mem_cons.1 hp with rfl | hp
    · exact ⟨.refl s, reaches_after (.sequence items) s⟩
    · obtain ⟨hfirst, hlast⟩ := reaches_of_mem_partsAll items s.next p hp
      exact ⟨(Reaches.next s).trans hfirst, hlast⟩
  | .loop counter size body, s, p, hp => by
    rcases List.mem_cons.1 hp with rfl | hp
    · exact ⟨.refl s, reaches_after (.loop counter size body) s⟩
    · obtain ⟨hfirst, hlast⟩ := reaches_of_mem_parts body (s.enter counter) p hp
      have hinside := (between_of_mem_parts body (s.enter counter) p hp).inside
      exact ⟨(Reaches.enter counter s).trans hfirst,
        hlast.leave ((List.suffix_cons _ _).trans hinside)⟩

theorem reaches_of_mem_partsAll : ∀ (fs : List Format) (s : Site), ∀ p ∈ partsAll fs s,
    s.Reaches p.1 ∧ p.1.Reaches (afterAll fs s)
  | [], _, _, hp => by cases hp
  | f :: fs, s, p, hp => by
    rcases List.mem_append.1 hp with hp | hp
    · obtain ⟨hfirst, hlast⟩ := reaches_of_mem_parts f s p hp
      exact ⟨hfirst, hlast.trans (reaches_afterAll fs (f.after s))⟩
    · obtain ⟨hfirst, hlast⟩ := reaches_of_mem_partsAll fs (f.after s) p hp
      exact ⟨(reaches_after f s).trans hfirst, hlast⟩

end

mutual

/-- A walk goes from each part to all later ones. -/
theorem pairwise_reaches : ∀ (f : Format) (s : Site),
    (f.parts s).Pairwise (fun p q => p.1.Reaches q.1)
  | .item .., _ | .newline, _ => List.pairwise_singleton _ _
  | .sequence items, s => by
    refine List.pairwise_cons.2 ⟨fun p hp => ?_, pairwise_reachesAll items s.next⟩
    exact (Reaches.next s).trans (reaches_of_mem_partsAll items s.next p hp).1
  | .loop counter _ body, s => by
    refine List.pairwise_cons.2 ⟨fun p hp => ?_, pairwise_reaches body (s.enter counter)⟩
    exact (Reaches.enter counter s).trans (reaches_of_mem_parts body (s.enter counter) p hp).1

theorem pairwise_reachesAll : ∀ (fs : List Format) (s : Site),
    (partsAll fs s).Pairwise (fun p q => p.1.Reaches q.1)
  | [], _ => .nil
  | f :: fs, s => by
    refine List.pairwise_append.2 ⟨pairwise_reaches f s, pairwise_reachesAll fs (f.after s), ?_⟩
    intro p hp q hq
    exact (reaches_of_mem_parts f s p hp).2.trans (reaches_of_mem_partsAll fs (f.after s) q hq).1

end

theorem reaches_of_number_le {f : Format} {s t : Site} (hs : s ∈ f.sites) (ht : t ∈ f.sites)
    (h : s.number ≤ t.number) : s.Reaches t := by
  have hreaches : f.sites.Pairwise Reaches := List.pairwise_map.2 (f.pairwise_reaches .start)
  obtain ⟨i, hi, rfl⟩ := List.mem_iff_getElem.1 hs
  obtain ⟨j, hj, rfl⟩ := List.mem_iff_getElem.1 ht
  rcases Nat.lt_trichotomy i j with hij | rfl | hij
  · exact List.pairwise_iff_getElem.1 hreaches i j hi hj hij
  · exact .refl _
  · have := List.pairwise_iff_getElem.1 f.sorted_sites j i hj hi hij
    omega

/-- A loop around a part has begun before it. -/
theorem lt_begun_of_around {f : Format} {t : Site} (ht : t ∈ f.sites) {k : Nat} (hk : k ∈ t.around) :
    k < t.begun := by
  obtain ⟨p, hp, rfl⟩ := List.mem_map.1 ht
  rcases (reaches_of_mem_parts f .start p hp).1.around k hk with hk | hk
  · cases hk
  · exact hk.2

end Format

/-! ## A loop and an item in it -/

namespace Code

mutual

/-- The counters and sizes of the loops of a code, in the order in which they begin. -/
def loopHeads : Code → List (String × String)
  | loop counter size body => (counter, size) :: loopHeads body
  | block nodes => loopHeadsAll nodes
  | decl _ | read _ | write _ | line _ => []

def loopHeadsAll : List Code → List (String × String)
  | [] => []
  | c :: cs => loopHeads c ++ loopHeadsAll cs

end

mutual

theorem length_loopHeads : ∀ c : Code, c.loopHeads.length = c.loopCount
  | loop _ _ body => congrArg (· + 1) (length_loopHeads body)
  | block nodes => length_loopHeadsAll nodes
  | decl _ | read _ | write _ | line _ => rfl

theorem length_loopHeadsAll : ∀ cs : List Code, (loopHeadsAll cs).length = loopCountAll cs
  | [] => rfl
  | c :: cs => by
    rw [loopHeadsAll, loopCountAll, List.length_append, length_loopHeads c, length_loopHeadsAll cs]

end

theorem loopHeads_preceded (decls : List Decl) (code : Code) :
    (preceded decls code).loopHeads = code.loopHeads := by
  cases decls with
  | nil => rfl
  | cons d ds => simp [preceded, loopHeads, loopHeadsAll]

end Code

namespace Format

section Laid

variable (due : Site → List Decl) (target : String → List String → String)

mutual

/-- A loop around an item of a part of a format is around that part, or is a loop of its code: the
one with as many loops of the code before it. -/
theorem loopHeads_laid : ∀ (f : Format) {loops : List Around} {s : Site},
    ∀ u ∈ f.usesFrom loops s, ∀ l ∈ u.loops, l ∈ loops ∨ ∃ k, l.site.begun = s.begun + k ∧
      (f.laid due target s).loopHeads[k]? = some (l.counter, l.size)
  | .item name indices, loops, s, u, hu, l, hl => by
    cases List.mem_singleton.1 hu
    exact .inl hl
  | .newline, loops, s, u, hu, l, hl => by cases hu
  | .sequence items, loops, s, u, hu, l, hl => by
    rw [laid, Code.loopHeads_preceded]
    exact loopHeads_laidAll items (s := s.next) u hu l hl
  | .loop counter size body, loops, s, u, hu, l, hl => by
    rw [laid, Code.loopHeads_preceded, Code.loopHeads]
    rcases loopHeads_laid body u hu l hl with hl | ⟨k, hk, hhead⟩
    · rcases List.mem_cons.1 hl with rfl | hl
      · exact .inr ⟨0, rfl, rfl⟩
      · exact .inl hl
    · refine .inr ⟨k + 1, ?_, hhead⟩
      simp only [Site.enter] at hk
      omega

theorem loopHeads_laidAll : ∀ (fs : List Format) {loops : List Around} {s : Site},
    ∀ u ∈ usesFromAll loops fs s, ∀ l ∈ u.loops, l ∈ loops ∨ ∃ k, l.site.begun = s.begun + k ∧
      (Code.loopHeadsAll (laidAll due target fs s))[k]? = some (l.counter, l.size)
  | [], loops, s, u, hu, l, hl => by cases hu
  | f :: fs, loops, s, u, hu, l, hl => by
    rw [laidAll, Code.loopHeadsAll]
    rcases List.mem_append.1 hu with hu | hu
    · refine (loopHeads_laid f u hu l hl).imp_right ?_
      rintro ⟨k, hk, hhead⟩
      obtain ⟨hlt, -⟩ := List.getElem?_eq_some_iff.1 hhead
      exact ⟨k, hk, by rw [List.getElem?_append_left hlt, hhead]⟩
    · refine (loopHeads_laidAll fs u hu l hl).imp_right ?_
      rintro ⟨k, hk, hhead⟩
      refine ⟨(f.laid due target s).loopHeads.length + k, ?_, ?_⟩
      · rw [hk, begun_after due target f s, Code.length_loopHeads, Nat.add_assoc]
      · rw [List.getElem?_append_right (Nat.le_add_right _ _), Nat.add_sub_cancel_left, hhead]

end

end Laid

/-- A loop begins at one of the given parts and has an item in its body: whatever comes between the
beginning and the item is in the body too. -/
structure Around.Holds (l : Around) (parts : List (Site × Option (String × List String))) (u : Use) :
    Prop where
  begins : ∃ item, (l.site, item) ∈ parts
  outer : l.site.loops <:+ u.site.loops
  between : ∀ p ∈ parts, l.site.number < p.1.number → p.1.number ≤ u.site.number →
    l.site.begun ∈ p.1.around

mutual

/-- A loop around an item of a part of a format is around that part, or begins in it. -/
theorem holds_of_mem_usesFrom : ∀ (f : Format) {loops : List Around} {s : Site},
    ∀ u ∈ f.usesFrom loops s, ∀ l ∈ u.loops, l ∈ loops ∨ l.Holds (f.parts s) u
  | .item name indices, loops, s, u, hu, l, hl => by
    cases List.mem_singleton.1 hu
    exact .inl hl
  | .newline, loops, s, u, hu, l, hl => by cases hu
  | .sequence items, loops, s, u, hu, l, hl => by
    refine (holds_of_mem_usesFromAll items u hu l hl).imp_right fun h => ?_
    obtain ⟨item, hbegins⟩ := h.begins
    have hfirst := (between_of_mem_partsAll items s.next _ hbegins).first
    refine ⟨⟨item, .tail _ hbegins⟩, h.outer, fun p hp hlp hpu => ?_⟩
    rcases List.mem_cons.1 hp with rfl | hp
    · simp only [Site.next] at hfirst hlp
      omega
    · exact h.between p hp hlp hpu
  | .loop counter size body, loops, s, u, hu, l, hl => by
    have hinside : ∀ p ∈ body.parts (s.enter counter), (s.enter counter).loops <:+ p.1.loops :=
      fun p hp => (between_of_mem_parts body (s.enter counter) p hp).inside
    rcases holds_of_mem_usesFrom body u hu l hl with hl | h
    · rcases List.mem_cons.1 hl with rfl | hl
      · -- the loop itself: all parts of the body are in it
        refine .inr ⟨⟨none, .head _⟩, ?_, fun p hp hlp _ => ?_⟩
        · exact (List.suffix_cons _ _).trans (hinside _ (part_of_mem_usesFrom hu))
        · rcases List.mem_cons.1 hp with rfl | hp
          · exact absurd hlp (Nat.lt_irrefl _)
          · exact ((hinside p hp).map _).subset (.head _)
      · exact .inl hl
    · obtain ⟨item, hbegins⟩ := h.begins
      have hfirst := (between_of_mem_parts body (s.enter counter) _ hbegins).first
      refine .inr ⟨⟨item, .tail _ hbegins⟩, h.outer, fun p hp hlp hpu => ?_⟩
      rcases List.mem_cons.1 hp with rfl | hp
      · simp only [Site.enter, Site.next] at hfirst hlp
        omega
      · exact h.between p hp hlp hpu

theorem holds_of_mem_usesFromAll : ∀ (fs : List Format) {loops : List Around} {s : Site},
    ∀ u ∈ usesFromAll loops fs s, ∀ l ∈ u.loops, l ∈ loops ∨ l.Holds (partsAll fs s) u
  | [], loops, s, u, hu, l, hl => by cases hu
  | f :: fs, loops, s, u, hu, l, hl => by
    rcases List.mem_append.1 hu with hu | hu
    · refine (holds_of_mem_usesFrom f u hu l hl).imp_right fun h => ?_
      obtain ⟨item, hbegins⟩ := h.begins
      have hlast := (between_of_mem_parts f s _ (part_of_mem_usesFrom hu)).last
      refine ⟨⟨item, List.mem_append_left _ hbegins⟩, h.outer, fun p hp hlp hpu => ?_⟩
      rcases List.mem_append.1 hp with hp | hp
      · exact h.between p hp hlp hpu
      · have hfirst := (between_of_mem_partsAll fs (f.after s) p hp).first
        simp only at hlast
        omega
    · refine (holds_of_mem_usesFromAll fs u hu l hl).imp_right fun h => ?_
      obtain ⟨item, hbegins⟩ := h.begins
      have hfirst := (between_of_mem_partsAll fs (f.after s) _ hbegins).first
      refine ⟨⟨item, List.mem_append_right _ hbegins⟩, h.outer, fun p hp hlp hpu => ?_⟩
      rcases List.mem_append.1 hp with hp | hp
      · have hlast := (between_of_mem_parts f s p hp).last
        simp only at hfirst
        omega
      · exact h.between p hp hlp hpu

end

theorem holds_of_mem_uses {f : Format} {u : Use} {l : Around} (hu : u ∈ f.uses) (hl : l ∈ u.loops) :
    l.Holds (f.parts .start) u :=
  (holds_of_mem_usesFrom f u hu l hl).resolve_left List.not_mem_nil

end Format

/-! ## Declarations in the body of a loop -/

/-- A declaration of the variable stands in the body of a loop: the one with the given number of loops
that begin before it. -/
def Code.DeclaresInside (code : Code) (x : String) (k : Nat) : Prop :=
  ∃ loops, Mention.decl x loops ∈ code.mentions 0 [] ∧ k ∈ loops

namespace Format

section Scheduled

variable {f : Format} {table : Table} {code : Code}

/-- A variable has one declaration, at the first site where it can be declared. -/
theorem declaresInside_iff_around (h : f.schedule table = .ok code) {d : Decl} {s : Site}
    (hd : d ∈ table.decls) (hs : f.sites.find? d.openAt = some s) (k : Nat) :
    code.DeclaresInside d.name k ↔ k ∈ s.around := by
  unfold Code.DeclaresInside
  rw [mentions_scheduled h]
  constructor
  · rintro ⟨loops, hdecl, hk⟩
    obtain ⟨part, -, c, hc, hname, rfl⟩ := decl_mem_flatMap.1 hdecl
    obtain ⟨hc, hfind⟩ := Table.mem_due.1 hc
    obtain rfl := Table.eq_of_name hc hd hname
    obtain rfl := Option.some.inj (hs.symm.trans hfind)
    exact hk
  · intro hk
    obtain ⟨part, hpart, rfl⟩ := List.mem_map.1 (List.mem_of_find?_eq_some hs)
    exact ⟨_, decl_mem_flatMap.2 ⟨part, hpart, d, Table.mem_due.2 ⟨hd, hs⟩, rfl, rfl⟩, hk⟩

/-- A loop around an item is the loop of the code with the same number. -/
theorem loopHeads_scheduled (h : f.schedule table = .ok code) {u : Use} (hu : u ∈ f.uses)
    {l : Around} (hl : l ∈ u.loops) : code.loopHeads[l.site.begun]? = some (l.counter, l.size) := by
  rw [(schedule_eq_laid h).1]
  obtain ⟨k, hk, hhead⟩ := (loopHeads_laid (table.due f.sites) (target table) f u hu l
    hl).resolve_left List.not_mem_nil
  rw [hk, ← hhead]
  exact congrArg _ (Nat.zero_add k)

/-- The declaration of a variable is in the body of a loop around its first use just if something that
its sizes depend on is not read before that loop. -/
theorem declaresInside_iff (h : f.schedule table = .ok code) {d : Decl} (hd : d ∈ table.decls)
    {u : Use} (hu : u ∈ f.uses) (hname : d.name = u.name) (hfree : u.Free) {l : Around}
    (hl : l ∈ u.loops) :
    code.DeclaresInside d.name l.site.begun ↔ ∃ y ∈ d.after, y ∉ l.site.earlier := by
  have hfree' : u.name ∉ u.site.counters := by
    rw [← counters_of_mem_uses hu]
    exact hfree
  obtain ⟨c, hc, hcname, s, hs, hsu⟩ := declared_by_item h (part_of_mem_usesFrom hu) hfree'
  obtain rfl := Table.eq_of_name hc hd (hcname.trans hname.symm)
  obtain ⟨⟨item, hbegins⟩, houter, hbetween⟩ := holds_of_mem_uses hu hl
  have hsite : l.site ∈ f.sites := List.mem_map.2 ⟨_, hbegins, rfl⟩
  have hmem : s ∈ f.sites := List.mem_of_find?_eq_some hs
  rw [declaresInside_iff_around h hd hs]
  constructor
  · intro hk
    by_contra hall
    push Not at hall
    -- it could be declared where the loop begins, and what is declared there is not in the loop
    have hcounter : c.name ∉ l.site.counters := by
      rw [hname]
      intro hx
      apply hfree'
      exact (houter.map _).subset hx
    have hle := number_le_of_find? hs hsite (Decl.openAt_iff.2 ⟨hall, hcounter⟩)
    have hbegun := (reaches_of_number_le hmem hsite hle).begun
    have hlt := lt_begun_of_around hmem hk
    omega
  · rintro ⟨y, hy, hunread⟩
    have hread : y ∈ s.earlier := (Decl.openAt_iff.1 (List.find?_some hs)).1 y hy
    -- what is declared after the loop has begun, and not after the item, is in the loop
    have hlt : l.site.number < s.number := by
      by_contra hle
      exact hunread ((reaches_of_number_le hmem hsite (by omega)).earlier hread)
    obtain ⟨part, hpart, rfl⟩ := List.mem_map.1 hmem
    exact hbetween part hpart hlt hsu

end Scheduled

end Format

/-- Every array has the sizes of the loops that supply the dimensions at its first use. Each of these
is a loop of the code, and has the declaration of the array in its body just if something that the
sizes depend on is not read before that loop. -/
theorem schedule_declaresInside_iff {f : Format} {table : Table} {code : Code}
    (ht : f.table = .ok table) (h : f.schedule table = .ok code) :
    ∀ d ∈ table.decls, ∃ n u, f.FirstUse n u ∧ u.name = d.name ∧
      u.suppliers.map (·.size) = d.sizes ∧ ∀ l ∈ u.suppliers,
        code.loopHeads[l.site.begun]? = some (l.counter, l.size) ∧
        (code.DeclaresInside d.name l.site.begun ↔ ∃ y ∈ d.after, y ∉ l.site.earlier) := by
  intro d hd
  obtain ⟨n, u, hfirst, hdeclares⟩ := Format.exists_firstUse ht hd
  refine ⟨n, u, hfirst, hdeclares.name.symm, hdeclares.sizes, fun l hl => ?_⟩
  have hl := Format.Use.mem_loops_of_supplier hl
  exact ⟨Format.loopHeads_scheduled h hfirst.mem hl,
    Format.declaresInside_iff h hd hfirst.mem hdeclares.name hfirst.free hl⟩

/-- Both sizes are read before the loops. -/
def sizesFirst : String :=
  "read N, M; for i upto N \x7b for j upto M \x7b read A[i][j + 1]; \x7d \x7d"

/-- The array is declared before both loops. -/
theorem schedule_declaresInside_iff_sizesFirst : ∃ f table code,
    Format.read sizesFirst = .ok f ∧ f.table = .ok table ∧ f.schedule table = .ok code ∧
      code.mentions 0 [] = [.decl "N" [], .decl "M" [], .read "N" [], .read "M" [], .decl "A" [],
        .read "A" [1, 0]] ∧
      ∀ d ∈ table.decls, ∃ n u, f.FirstUse n u ∧ u.name = d.name ∧
        u.suppliers.map (·.size) = d.sizes ∧ ∀ l ∈ u.suppliers,
          code.loopHeads[l.site.begun]? = some (l.counter, l.size) ∧
          (code.DeclaresInside d.name l.site.begun ↔ ∃ y ∈ d.after, y ∉ l.site.earlier) := by
  have hview : described sizesFirst (fun _ _ code => code.mentions 0 []) =
      some [.decl "N" [], .decl "M" [], .read "N" [], .read "M" [], .decl "A" [],
        .read "A" [1, 0]] := by decide +kernel
  obtain ⟨f, table, code, hf, ht, h, hmentions⟩ := exists_of_described hview
  exact ⟨f, table, code, hf, ht, h, hmentions, schedule_declaresInside_iff ht h⟩

/-- The length of the rows is read in the loop over the rows. -/
def rowsOfAnyLength : String :=
  "read N; for i upto N \x7b read M; for j upto M \x7b read A[i][j]; \x7d \x7d"

/-- The array is declared in the loop over the rows, which supplies its first dimension, so that each
round makes a new array. -/
theorem declaresInside_rowsOfAnyLength : ∃ f table code,
    Format.read rowsOfAnyLength = .ok f ∧ f.table = .ok table ∧ f.schedule table = .ok code ∧
      ∃ n u, f.FirstUse n u ∧ u.name = "A" ∧ ∃ l ∈ u.suppliers,
        code.DeclaresInside "A" l.site.begun := by
  have hview : described rowsOfAnyLength (fun f _ code =>
      ((f.firstUse? 2).map fun u => (u.name, u.suppliers.map (·.site.begun)),
        decide (Mention.decl "A" [0] ∈ code.mentions 0 []))) =
        some (some ("A", [0, 1]), true) := by decide +kernel
  obtain ⟨f, table, code, hf, ht, h, hview⟩ := exists_of_described hview
  obtain ⟨huse, hdecl⟩ := Prod.mk.inj hview
  obtain ⟨u, hu, heq⟩ := Option.map_eq_some_iff.1 huse
  obtain ⟨hname, hsuppliers⟩ := Prod.mk.inj heq
  obtain ⟨l, hl, hbegun⟩ : ∃ l ∈ u.suppliers, l.site.begun = 0 :=
    List.mem_map.1 (by rw [hsuppliers]; exact .head _)
  refine ⟨f, table, code, hf, ht, h, 2, u, Format.firstUse?_eq_some_iff.1 hu, hname, l, hl, [0],
    of_decide_eq_true hdecl, ?_⟩
  rw [hbegun]
  exact .head _

/-! ## Reads in the body of a loop -/

namespace Code

mutual

/-- The texts that a code reads into, each with the counters of the loops around it. -/
def targets : Code → List String → List (String × List String)
  | read texts, counters => texts.map (·, counters)
  | block nodes, counters => targetsAll nodes counters
  | loop counter _ body, counters => targets body (counter :: counters)
  | decl _, _ | write _, _ | line _, _ => []

def targetsAll : List Code → List String → List (String × List String)
  | [], _ => []
  | c :: cs, counters => targets c counters ++ targetsAll cs counters

end

/-- A variable is read, bare or subscripted, in the body of a loop that has it for a counter. -/
def ReadsCounter (code : Code) (x : String) : Prop :=
  ∃ text counters, (text, counters) ∈ code.targets [] ∧ variableOf text = x ∧ x ∈ counters

theorem targets_preceded (decls : List Decl) (code : Code) (counters : List String) :
    (preceded decls code).targets counters = code.targets counters := by
  cases decls with
  | nil => rfl
  | cons d ds => simp [preceded, targets, targetsAll]

end Code

namespace Format

section Laid

variable (due : Site → List Decl) (target : String → List String → String)

mutual

/-- The code of a format reads each item into its target, within the loops that are around it. -/
theorem targets_laid : ∀ (f : Format) (s : Site), (f.laid due target s).targets s.counters =
    (f.parts s).filterMap fun part => part.2.map fun item => (target item.1 item.2, part.1.counters)
  | .item .., s | .newline, s => by
    rw [laid, Code.targets_preceded]
    simp [parts, Code.targets, Code.targetsAll]
  | .sequence items, s => by
    rw [laid, Code.targets_preceded, Code.targets, parts]
    exact targetsAll_laidAll items s.next
  | .loop counter size body, s => by
    rw [laid, Code.targets_preceded, Code.targets, parts]
    exact targets_laid body (s.enter counter)

theorem targetsAll_laidAll : ∀ (fs : List Format) (s : Site),
    Code.targetsAll (laidAll due target fs s) s.counters = (partsAll fs s).filterMap fun part =>
      part.2.map fun item => (target item.1 item.2, part.1.counters)
  | [], _ => rfl
  | f :: fs, s => by
    have hcounters : (f.after s).counters = s.counters := by
      rw [Site.counters, loops_after f s]
      rfl
    rw [laidAll, Code.targetsAll, targets_laid f s, ← hcounters, targetsAll_laidAll fs (f.after s),
      partsAll, List.filterMap_append]

end

end Laid

/-- An item of the name is in a loop that has the name for a counter. -/
def ReadInOwnLoop (f : Format) (x : String) : Prop := ∃ u ∈ f.uses, u.name = x ∧ ¬u.Free

/-- An item of the name is in no loop that has the name for a counter. -/
def ReadOutside (f : Format) (x : String) : Prop := ∃ u ∈ f.uses, u.name = x ∧ u.Free

instance (f : Format) (x : String) : Decidable (f.ReadInOwnLoop x) :=
  inferInstanceAs (Decidable (∃ u ∈ f.uses, u.name = x ∧ ¬u.Free))

instance (f : Format) (x : String) : Decidable (f.ReadOutside x) :=
  inferInstanceAs (Decidable (∃ u ∈ f.uses, u.name = x ∧ u.Free))

section Scheduled

variable {f : Format} {table : Table} {code : Code}

theorem targets_scheduled (h : f.schedule table = .ok code) :
    code.targets [] = f.uses.map fun u => (target table u.name u.indices, u.counters) := by
  have hlaid := targets_laid (table.due f.sites) (target table) f .start
  rw [← (schedule_eq_laid h).1] at hlaid
  calc code.targets []
      = f.occurrences.map fun o => (target table o.2.1 o.2.2, o.1.counters) := by
        rw [occurrences, List.map_filterMap]
        simp only [Option.map_map]
        exact hlaid
    _ = f.uses.map fun u => (target table u.name u.indices, u.site.counters) := by
        rw [occurrences_eq_uses, List.map_map]
        rfl
    _ = f.uses.map fun u => (target table u.name u.indices, u.counters) :=
        List.map_congr_left fun u hu => by rw [counters_of_mem_uses hu]

theorem readsCounter_iff (h : f.schedule table = .ok code)
    (hnames : ∀ item ∈ f.items, '[' ∉ item.1.toList) (x : String) :
    code.ReadsCounter x ↔ f.ReadInOwnLoop x := by
  have hvariable : ∀ u ∈ f.uses, Code.variableOf (target table u.name u.indices) = u.name :=
    fun u hu => variableOf_target
      (hnames _ (List.mem_filterMap.2 ⟨_, part_of_mem_usesFrom hu, rfl⟩))
  unfold Code.ReadsCounter ReadInOwnLoop
  rw [targets_scheduled h]
  constructor
  · rintro ⟨text, counters, hmem, rfl, hcounter⟩
    obtain ⟨u, hu, heq⟩ := List.mem_map.1 hmem
    cases heq
    rw [hvariable u hu] at hcounter ⊢
    exact ⟨u, hu, rfl, not_not.2 hcounter⟩
  · rintro ⟨u, hu, rfl, hcounter⟩
    exact ⟨_, _, List.mem_map.2 ⟨u, hu, rfl⟩, hvariable u hu, not_not.1 hcounter⟩

/-- What is read in a loop of its own name can be scheduled only if the table has it, as a variable
that is read elsewhere. -/
theorem readOutside_of_schedule (ht : f.table = .ok table) (h : f.schedule table = .ok code)
    {x : String} (hx : f.ReadInOwnLoop x) : f.ReadOutside x := by
  obtain ⟨u, hu, rfl, -⟩ := hx
  obtain ⟨d, -, hd, -⟩ := ((schedule_eq_laid h).2 _ _ (part_of_mem_usesFrom hu)).subscripts
  rw [table_eq_foldlM] at ht
  have hname : u.name ∈ table.names := Table.get?_isSome_iff.1 (Option.isSome_iff_exists.2 ⟨d, hd⟩)
  rcases ((names_of_foldlM ht).2 u.name).1 hname with hempty | ⟨v, hv, hfree, hv'⟩
  · cases hempty
  · exact ⟨v, hv, hv', hfree⟩

end Scheduled

end Format

/-- A variable that is read only in loops of its own name is refused. Where scheduling succeeds, a
counter is read as a variable just if an item of its name stands in a loop of that name and another
one does not. -/
theorem schedule_readsCounter_iff {f : Format} {table : Table} (ht : f.table = .ok table)
    (hnames : ∀ item ∈ f.items, '[' ∉ item.1.toList) (x : String) :
    (f.ReadInOwnLoop x → ¬f.ReadOutside x → ∃ e, f.schedule table = .error e) ∧
      ∀ code, f.schedule table = .ok code →
        (code.ReadsCounter x ↔ f.ReadInOwnLoop x ∧ f.ReadOutside x) := by
  constructor
  · intro hinside houtside
    cases h : f.schedule table with
    | error e => exact ⟨e, rfl⟩
    | ok code => exact absurd (Format.readOutside_of_schedule ht h hinside) houtside
  · intro code h
    rw [Format.readsCounter_iff h hnames x]
    exact ⟨fun hinside => ⟨hinside, Format.readOutside_of_schedule ht h hinside⟩, And.left⟩

/-- A counter is read in its loop and nowhere else. -/
def counterOnly : String := "read N; for i upto N \x7b read i; \x7d"

theorem schedule_readsCounter_iff_counterOnly : ∃ f table,
    Format.read counterOnly = .ok f ∧ f.table = .ok table ∧ table.names = ["N"] ∧
      (∀ item ∈ f.items, '[' ∉ item.1.toList) ∧ f.ReadInOwnLoop "i" ∧ ¬f.ReadOutside "i" ∧
      ∃ e, f.schedule table = .error e := by
  have hview : ((Format.read counterOnly).toOption.bind fun f => f.table.toOption.map fun table =>
      (table.names, f.items, decide (f.ReadInOwnLoop "i"), decide (f.ReadOutside "i"))) =
        some (["N"], [("N", []), ("i", [])], true, false) := by decide +kernel
  obtain ⟨f, hf, hview⟩ := Option.bind_eq_some_iff.1 hview
  obtain ⟨table, ht, hview⟩ := Option.map_eq_some_iff.1 hview
  simp only [Prod.mk.injEq, decide_eq_true_eq, decide_eq_false_iff_not] at hview
  obtain ⟨htable, hitems, hinside, houtside⟩ := hview
  have ht := ok_of_toOption ht
  have hnames : ∀ item ∈ f.items, '[' ∉ item.1.toList := by
    rw [hitems]
    decide +kernel
  exact ⟨f, table, ok_of_toOption hf, ht, htable, hnames, hinside, houtside,
    (schedule_readsCounter_iff ht hnames "i").1 hinside houtside⟩

/-- The same name is a variable before the loop and the counter in it. -/
def variableAndCounter : String := "read i; for i upto 3 \x7b read i; \x7d"

theorem readsCounter_variableAndCounter : ∃ f table code,
    Format.read variableAndCounter = .ok f ∧ f.table = .ok table ∧ f.schedule table = .ok code ∧
      code.ReadsCounter "i" := by
  have hview : described variableAndCounter (fun _ _ code => code.targets []) =
      some [("i", []), ("i", ["i"])] := by decide +kernel
  obtain ⟨f, table, code, hf, ht, h, htargets⟩ := exists_of_described hview
  refine ⟨f, table, code, hf, ht, h, "i", ["i"], ?_, by decide +kernel, .head _⟩
  rw [htargets]
  exact .tail _ (.head _)

end ReaderGen
