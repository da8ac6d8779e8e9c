import ReaderGen.Proofs.Agreement

/-!
# When scheduling succeeds, and how it fails

Scheduling decides by the names it has declared and read so far. The outcome can be told without
them, item by item: an item can be read where the table has a declaration for it, where everything
that its declaration depends on was read earlier (or a loop around it has its name for a counter), and
where its indices less the bases have a canonical form. The first item that cannot be read gives the
error.

* `failure?`: the error of a result; `failure?_mapM`: a list fails with the first failure in it.
* `Table.Serves`, `Table.Refuses`: an item can be read at a site, or fails there with an error.
* `Table.fault?`: the same as a function; `fault?_eq_none_iff`, `fault?_eq_some_iff`.
* `Format.failure?_visit`: a part of a format fails with the first fault of its items.
* `schedule_outcome`: when scheduling succeeds and with which error it fails.
-/

namespace ReaderGen

/-! ## Failures -/

section Failure

variable {ε α β : Type}

/-- The error of a result, if it is one. -/
def failure? : Except ε α → Option ε
  | .ok _ => none
  | .error e => some e

theorem failure?_eq_none_iff {r : Except ε α} : failure? r = none ↔ ∃ a, r = .ok a := by
  cases r <;> simp [failure?]

theorem failure?_eq_some_iff {r : Except ε α} {e : ε} : failure? r = some e ↔ r = .error e := by
  cases r <;> simp [failure?]

theorem failure?_map (f : α → β) (r : Except ε α) : failure? (r.map f) = failure? r := by
  cases r <;> rfl

theorem failure?_mapM (f : α → Except ε β) (l : List α) :
    failure? (l.mapM f) = l.findSome? (fun a => failure? (f a)) := by
  induction l with
  | nil => rfl
  | cons a l ih =>
    rw [List.mapM_cons, List.findSome?_cons, ← ih]
    cases f a with
    | error e => rfl
    | ok b => cases l.mapM f <;> rfl

end Failure

/-! ## One item -/

/-- An index, counted from a base. -/
def offset (index base : String) : Except ExprError String := simplify (index ++ " - (" ++ base ++ ")")

namespace Table

section Item

variable (table : Table) (s : Site) (name : String) (indices : List String)

/-- The item can be read at the site: the table has its declaration, a loop around has its name for a
counter or all that the declaration depends on was read earlier, and every index can be counted from
the base of its dimension. -/
def Serves : Prop :=
  ∃ d, table.get? name = some d ∧ (name ∈ s.counters ∨ ∀ x ∈ d.after, x ∈ s.earlier) ∧
    ∀ pair ∈ indices.zip d.bases, ∃ text, offset pair.1 pair.2 = .ok text

/-- The item cannot be read at the site, for the given error. -/
inductive Refuses : Error → Prop
  /-- No loop around has the name for a counter, and there is no declaration or it depends on
  something that was not read earlier. -/
  | undeclared (hcounter : name ∉ s.counters)
      (hunread : ∀ d, table.get? name = some d → ∃ x ∈ d.after, x ∉ s.earlier) :
      Refuses (.scheduling (.undeclared name))
  | notInTable (hcounter : name ∈ s.counters) (hmissing : table.get? name = none) :
      Refuses (.scheduling (.notInTable name))
  /-- The first index that cannot be counted from its base gives the error. -/
  | expr {d : Decl} {before rest : List (String × String)} {index base : String} {e : ExprError}
      (hd : table.get? name = some d)
      (hready : name ∈ s.counters ∨ ∀ x ∈ d.after, x ∈ s.earlier)
      (hzip : indices.zip d.bases = before ++ (index, base) :: rest)
      (hbefore : ∀ pair ∈ before, ∃ text, offset pair.1 pair.2 = .ok text)
      (herror : offset index base = .error e) : Refuses (.expr e)

/-- What an item fails with at a site, if it fails. -/
def fault? : Option Error :=
  match table.get? name with
  | none => some (.scheduling (if name ∈ s.counters then .notInTable name else .undeclared name))
  | some d =>
    if name ∈ s.counters ∨ ∀ x ∈ d.after.toList, x ∈ s.earlier then
      ((indices.zip d.bases).findSome? fun pair => failure? (offset pair.1 pair.2)).map .expr
    else some (.scheduling (.undeclared name))

end Item

variable {table : Table} {s : Site} {name : String} {indices : List String}

theorem get?_of_mem {d : Decl} (hd : d ∈ table.decls) : table.get? d.name = some d := by
  obtain ⟨c, hc⟩ := Option.isSome_iff_exists.1 (get?_isSome_iff.2 (List.mem_map_of_mem hd))
  obtain ⟨hmem, hname⟩ := mem_of_get? hc
  rw [hc, eq_of_name hmem hd hname]

theorem fault?_of_missing (h : table.get? name = none) :
    table.fault? s name indices =
      some (.scheduling (if name ∈ s.counters then .notInTable name else .undeclared name)) := by
  rw [fault?, h]

theorem fault?_of_ready {d : Decl} (h : table.get? name = some d)
    (hready : name ∈ s.counters ∨ ∀ x ∈ d.after, x ∈ s.earlier) :
    table.fault? s name indices =
      ((indices.zip d.bases).findSome? fun pair => failure? (offset pair.1 pair.2)).map .expr := by
  rw [fault?, h]
  exact if_pos hready

theorem fault?_of_unread {d : Decl} (h : table.get? name = some d)
    (hready : ¬ (name ∈ s.counters ∨ ∀ x ∈ d.after, x ∈ s.earlier)) :
    table.fault? s name indices = some (.scheduling (.undeclared name)) := by
  rw [fault?, h]
  exact if_neg hready

theorem fault?_eq_none_iff : table.fault? s name indices = none ↔ table.Serves s name indices := by
  cases hd : table.get? name with
  | none => simp [fault?_of_missing hd, Serves, hd]
  | some d =>
    by_cases hready : name ∈ s.counters ∨ ∀ x ∈ d.after, x ∈ s.earlier
    · simp [fault?_of_ready hd hready, Serves, hd, hready, failure?_eq_none_iff]
    · simp [fault?_of_unread hd hready, Serves, hd, hready]

theorem fault?_eq_some_iff {e : Error} :
    table.fault? s name indices = some e ↔ table.Refuses s name indices e := by
  constructor
  · intro h
    cases hd : table.get? name with
    | none =>
      rw [fault?_of_missing hd] at h
      by_cases hcounter : name ∈ s.counters
      · rw [if_pos hcounter] at h
        cases h
        exact .notInTable hcounter hd
      · rw [if_neg hcounter] at h
        cases h
        exact .undeclared hcounter (by simp [hd])
    | some d =>
      by_cases hready : name ∈ s.counters ∨ ∀ x ∈ d.after, x ∈ s.earlier
      · rw [fault?_of_ready hd hready, Option.map_eq_some_iff] at h
        obtain ⟨e', hfind, rfl⟩ := h
        obtain ⟨before, pair, rest, hzip, herror, hbefore⟩ := List.findSome?_eq_some_iff.1 hfind
        exact .expr hd hready hzip (fun pair hpair => failure?_eq_none_iff.1 (hbefore pair hpair))
          (failure?_eq_some_iff.1 herror)
      · rw [fault?_of_unread hd hready] at h
        cases h
        obtain ⟨hcounter, hunread⟩ := not_or.1 hready
        refine .undeclared hcounter fun d' hd' => ?_
        rw [hd] at hd'
        cases hd'
        simpa using hunread
  · intro h
    cases h with
    | undeclared hcounter hunread =>
      cases hd : table.get? name with
      | none => rw [fault?_of_missing hd, if_neg hcounter]
      | some d =>
        obtain ⟨x, hx, hne⟩ := hunread d hd
        exact fault?_of_unread hd (not_or.2 ⟨hcounter, fun hall => hne (hall x hx)⟩)
    | notInTable hcounter hmissing => rw [fault?_of_missing hmissing, if_pos hcounter]
    | expr hd hready hzip hbefore herror =>
      rw [fault?_of_ready hd hready, Option.map_eq_some_iff]
      refine ⟨_, List.findSome?_eq_some_iff.2 ⟨_, _, _, hzip, failure?_eq_some_iff.2 herror, ?_⟩, rfl⟩
      exact fun pair hpair => failure?_eq_none_iff.2 (hbefore pair hpair)

end Table

/-! ## What was read stays read -/

namespace Format

mutual

/-- What was read before a part has been read after it, and at every part inside. -/
theorem earlier_of_parts : ∀ (f : Format) (s : Site),
    s.earlier ⊆ (f.after s).earlier ∧ ∀ part ∈ f.parts s, part.1.earlier ⊆ (f.after s).earlier
  | .item name indices, s => by
    have h : s.earlier ⊆ (s.read name).earlier := List.subset_append_left _ _
    refine ⟨h, fun part hpart => ?_⟩
    cases List.mem_singleton.1 hpart
    exact h
  | .newline, s => by
    refine ⟨List.Subset.refl _, fun part hpart => ?_⟩
    cases List.mem_singleton.1 hpart
    exact List.Subset.refl _
  | .sequence items, s => by
    obtain ⟨hafter, hparts⟩ := earlier_of_partsAll items s.next
    refine ⟨hafter, fun part hpart => ?_⟩
    rcases List.mem_cons.1 hpart with rfl | hpart
    · exact hafter
    · exact hparts part hpart
  | .loop counter size body, s => by
    obtain ⟨hafter, hparts⟩ := earlier_of_parts body (s.enter counter)
    refine ⟨hafter, fun part hpart => ?_⟩
    rcases List.mem_cons.1 hpart with rfl | hpart
    · exact hafter
    · exact hparts part hpart

theorem earlier_of_partsAll : ∀ (fs : List Format) (s : Site),
    s.earlier ⊆ (afterAll fs s).earlier ∧
      ∀ part ∈ partsAll fs s, part.1.earlier ⊆ (afterAll fs s).earlier
  | [], s => ⟨List.Subset.refl _, fun part hpart => by cases hpart⟩
  | f :: fs, s => by
    obtain ⟨hafter, hparts⟩ := earlier_of_parts f s
    obtain ⟨hafterAll, hpartsAll⟩ := earlier_of_partsAll fs (f.after s)
    refine ⟨List.Subset.trans hafter hafterAll, fun part hpart => ?_⟩
    rcases List.mem_append.1 hpart with hpart | hpart
    · exact List.Subset.trans (hparts part hpart) hafterAll
    · exact hpartsAll part hpart

end

/-! ## The first fault -/

variable {table : Table}

theorem failure?_subscripts (indices bases : List String) :
    failure? (subscripts indices bases) =
      (indices.zip bases).findSome? fun pair => failure? (offset pair.1 pair.2) := by
  rw [← failure?_mapM, subscripts]
  exact failure?_map _ _

/-- An item that is declared fails as it should, and so does one that is not. -/
theorem failure?_readItem {s : Site} {q : Progress} {name : String} {indices : List String}
    (h : name ∈ q.declared ↔
      name ∈ s.counters ∨ ∃ d, table.get? name = some d ∧ ∀ x ∈ d.after, x ∈ s.earlier) :
    failure? (readItem table name indices q).1 = table.fault? s name indices := by
  unfold readItem
  cases hd : table.get? name with
  | none =>
    rw [Table.fault?_of_missing hd]
    by_cases hcounter : name ∈ s.counters <;> simp [h, hd, hcounter, failure?]
  | some d =>
    by_cases hready : name ∈ s.counters ∨ ∀ x ∈ d.after, x ∈ s.earlier
    · rw [Table.fault?_of_ready hd hready, ← failure?_subscripts, if_pos (by simpa [h, hd] using hready)]
      cases hsub : subscripts indices d.bases <;> simp [failure?, hsub]
    · rw [Table.fault?_of_unread hd hready, if_neg (by simpa [h, hd] using hready)]
      rfl

theorem failure?_declaring (p : Progress) (body : Progress → Except Error Code × Progress) :
    failure? (declaring table p body).1 = failure? (body (p.declare (p.ready table))).1 := by
  dsimp only [declaring]
  generalize body (p.declare (p.ready table)) = result
  obtain ⟨_ | code, q⟩ := result <;> rfl

/-- The fault of a part: that of its item. -/
def partFault? (table : Table) (part : Site × Option (String × List String)) : Option Error :=
  part.2.bind fun item => table.fault? part.1 item.1 item.2

theorem earlier_next {before : List Site} {s : Site} (he : ∀ t ∈ before, t.earlier ⊆ s.earlier) :
    ∀ t ∈ before ++ [s], t.earlier ⊆ s.earlier := by
  intro t ht
  rcases List.mem_append.1 ht with ht | ht
  · exact he t ht
  · rw [List.mem_singleton.1 ht]
    exact List.Subset.refl _

theorem earlier_after (f : Format) {before : List Site} {s : Site}
    (he : ∀ t ∈ before, t.earlier ⊆ s.earlier) :
    ∀ t ∈ before ++ (f.parts s).map (·.1), t.earlier ⊆ (f.after s).earlier := by
  obtain ⟨hafter, hparts⟩ := earlier_of_parts f s
  intro t ht
  rcases List.mem_append.1 ht with ht | ht
  · exact List.Subset.trans (he t ht) hafter
  · obtain ⟨part, hpart, rfl⟩ := List.mem_map.1 ht
    exact hparts part hpart

/-- Whether an item is declared can be told from its site: a declaration that was possible at an
earlier site is possible here, as what was read stays read, or the name is now that of a counter. -/
theorem mem_declared_iff {before : List Site} {s : Site} {q : Progress}
    (h : q.Tracks table (before ++ [s]) s) (he : ∀ t ∈ before, t.earlier ⊆ s.earlier) (name : String) :
    name ∈ q.declared ↔
      name ∈ s.counters ∨ ∃ d, table.get? name = some d ∧ ∀ x ∈ d.after, x ∈ s.earlier := by
  rw [h.declared]
  by_cases hcounter : name ∈ s.counters
  · exact iff_of_true (.inl hcounter) (.inl hcounter)
  simp only [hcounter, false_or]
  constructor
  · rintro ⟨d, hd, rfl, t, ht, hopen⟩
    refine ⟨d, Table.get?_of_mem hd, fun x hx => earlier_next he t ht ?_⟩
    exact (Decl.openAt_iff.1 hopen).1 x hx
  · rintro ⟨d, hd, hafter⟩
    obtain ⟨hmem, rfl⟩ := Table.mem_of_get? hd
    exact ⟨d, hmem, rfl, s, by simp, Decl.openAt_iff.2 ⟨hafter, hcounter⟩⟩

mutual

/-- A part of a format fails with the first fault of its items. -/
theorem failure?_visit : ∀ (f : Format) {before : List Site} {s : Site} {p : Progress},
    p.Tracks table before s → (∀ t ∈ before, t.number < s.number) →
    (∀ t ∈ before, t.earlier ⊆ s.earlier) →
    failure? (visit table f p).1 = (f.parts s).findSome? (partFault? table)
  | .item name indices, before, s, p, h, hn, he => by
    rw [visit, failure?_declaring, parts, List.findSome?_singleton]
    exact failure?_readItem (mem_declared_iff h.declare he name)
  | .newline, before, s, p, h, hn, he => by
    rw [visit, failure?_declaring]
    rfl
  | .sequence items, before, s, p, h, hn, he => by
    have hnext : (p.declare (p.ready table)).Tracks table (before ++ [s]) s.next :=
      ⟨h.declare.declared, h.declare.initialized⟩
    rw [visit, failure?_declaring]
    exact (failure?_map Code.block _).trans
      (failure?_visitAll items hnext (numbers_next hn) (earlier_next he))
  | .loop counter size body, before, s, p, h, hn, he => by
    rw [visit, failure?_declaring]
    refine (failure?_map (Code.loop counter size) _).trans ?_
    cases hc : counting counter (p.declare (p.ready table)) (visit table body) with | mk code p' =>
    obtain ⟨q, q', hbody, henter, -⟩ := h.declare.counting hc
    have hinner := failure?_visit body henter (numbers_next hn) (earlier_next he)
    rwa [hbody] at hinner

/-- So do parts that stand one after the other. -/
theorem failure?_visitAll : ∀ (fs : List Format) {before : List Site} {s : Site} {p : Progress},
    p.Tracks table before s → (∀ t ∈ before, t.number < s.number) →
    (∀ t ∈ before, t.earlier ⊆ s.earlier) →
    failure? (visitAll table fs p).1 = (partsAll fs s).findSome? (partFault? table)
  | [], before, s, p, h, hn, he => rfl
  | f :: fs, before, s, p, h, hn, he => by
    rw [visitAll, partsAll, List.findSome?_append, ← failure?_visit f h hn he]
    cases hf : visit table f p with | mk first q =>
    cases first with
    | error e => rfl
    | ok code =>
      obtain ⟨-, hafter, -⟩ := visit_eq_laid f h hn (List.prefix_refl _) hf
      rw [← failure?_visitAll fs hafter (numbers_after f hn) (earlier_after f he)]
      dsimp only
      cases hfs : visitAll table fs q with | mk others q' =>
      cases others <;> rfl

end

theorem failure?_schedule (f : Format) (table : Table) :
    failure? (f.schedule table) =
      f.occurrences.findSome? fun o => table.fault? o.1 o.2.1 o.2.2 := by
  rw [schedule, failure?_visit f Progress.tracks_start (by simp) (by simp), occurrences,
    ← List.head?_filterMap, ← List.head?_filterMap, List.filterMap_filterMap]
  congr 2
  funext part
  rcases part with ⟨s, _ | item⟩ <;> rfl

end Format

/-- Scheduling succeeds exactly if each item can be read where it stands: the table has its variable,
a loop around has its name for a counter or everything that the variable depends on was read earlier,
and its indices less the bases have a canonical form. Else the error is that of the first item which
cannot be read. -/
theorem schedule_outcome (f : Format) (table : Table) :
    ((∃ code, f.schedule table = .ok code) ↔
      ∀ s name indices, (s, name, indices) ∈ f.occurrences → table.Serves s name indices) ∧
    ∀ e, f.schedule table = .error e ↔
      ∃ before s name indices rest, f.occurrences = before ++ (s, name, indices) :: rest ∧
        (∀ o ∈ before, table.Serves o.1 o.2.1 o.2.2) ∧ table.Refuses s name indices e := by
  constructor
  · rw [← failure?_eq_none_iff, Format.failure?_schedule, List.findSome?_eq_none_iff]
    simp only [Table.fault?_eq_none_iff, Prod.forall]
  · intro e
    rw [← failure?_eq_some_iff, Format.failure?_schedule, List.findSome?_eq_some_iff]
    constructor
    · rintro ⟨before, ⟨s, name, indices⟩, rest, heq, hfault, hbefore⟩
      exact ⟨before, s, name, indices, rest, heq,
        fun o ho => Table.fault?_eq_none_iff.1 (hbefore o ho), Table.fault?_eq_some_iff.1 hfault⟩
    · rintro ⟨before, s, name, indices, rest, heq, hbefore, hrefuses⟩
      exact ⟨before, (s, name, indices), rest, heq, Table.fault?_eq_some_iff.2 hrefuses,
        fun o ho => Table.fault?_eq_none_iff.2 (hbefore o ho)⟩

end ReaderGen
