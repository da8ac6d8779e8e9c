import ReaderGen.Proofs.Placement

/-!
# What scheduling leaves behind

Scheduling a part of a format puts names among those that are declared and those that have been read, and
goes on from there to the next part. A counter is put in before the body of its loop and taken out after
it, however the body ends, unless the name was there before. So whatever state a part is met in, and
whether it succeeds or fails at some depth, no counter of its loops is left over.

* `Progress.Grows`: what may change from one state to a later one; `refl`, `trans`.
* `Progress.grows_declare`, `grows_readItem`, `Grows.counting`: what each step changes.
* `Format.grows_visit`: what a part of a format changes.
* `Format.reads_visit`: a part that succeeds has read all its items.
* `visit_keeps_frame`: the state after a part, on success and on failure.
-/

namespace ReaderGen

namespace Format

mutual

/-- The names of the items of a format. -/
def itemNames : Format → List String
  | .item name _ => [name]
  | .newline => []
  | .sequence items => itemNamesAll items
  | .loop _ _ body => itemNames body

def itemNamesAll : List Format → List String
  | [] => []
  | f :: fs => itemNames f ++ itemNamesAll fs

end

mutual

/-- The counters of the loops of a format. -/
def loopCounters : Format → List String
  | .item _ _ | .newline => []
  | .sequence items => loopCountersAll items
  | .loop counter _ body => counter :: loopCounters body

def loopCountersAll : List Format → List String
  | [] => []
  | f :: fs => loopCounters f ++ loopCountersAll fs

end

end Format

/-- A variable of the table whose sizes are known once the given names have been read. -/
def Table.Settles (table : Table) (read : Names) (x : String) : Prop :=
  ∃ d ∈ table.decls, d.name = x ∧ ∀ y ∈ d.after, y ∈ read

/-! ## Steps -/

namespace Progress

/-- What may change while items with the given names are read: nothing is forgotten, what is newly
declared is a variable of the table whose sizes are known by now, and what is newly read is one of the
items. -/
structure Grows (table : Table) (names : List String) (p q : Progress) : Prop where
  declared : ∀ x ∈ p.declared, x ∈ q.declared
  settled : ∀ x ∈ q.declared, x ∉ p.declared → table.Settles q.initialized x
  initialized : ∀ x ∈ p.initialized, x ∈ q.initialized
  read : ∀ x ∈ q.initialized, x ∉ p.initialized → x ∈ names

namespace Grows

variable {table : Table} {names more : List String} {p q r : Progress}

theorem refl (p : Progress) : p.Grows table names p :=
  ⟨fun _ h => h, fun _ h hn => absurd h hn, fun _ h => h, fun _ h hn => absurd h hn⟩

theorem mono (h : p.Grows table names q) (hsub : names ⊆ more) : p.Grows table more q :=
  { h with read := fun x hx hn => hsub (h.read x hx hn) }

theorem trans (h : p.Grows table names q) (h' : q.Grows table names r) : p.Grows table names r where
  declared x hx := h'.declared x (h.declared x hx)
  settled x hx hn := by
    by_cases hq : x ∈ q.declared
    · -- what was known in between is still known
      obtain ⟨d, hd, hname, hafter⟩ := h.settled x hq hn
      exact ⟨d, hd, hname, fun y hy => h'.initialized y (hafter y hy)⟩
    · exact h'.settled x hx hq
  initialized x hx := h'.initialized x (h.initialized x hx)
  read x hx hn := by
    by_cases hq : x ∈ q.initialized
    · exact h.read x hq hn
    · exact h'.read x hx hq

end Grows

variable {table : Table} {names : List String} {p : Progress}

theorem grows_declare : p.Grows table names (p.declare (p.ready table)) where
  declared x hx := mem_declare.2 (.inl hx)
  settled x hx hn := by
    obtain ⟨d, hd, hname⟩ := (mem_declare.1 hx).resolve_left hn
    obtain ⟨hmem, -, hafter⟩ := mem_ready.1 hd
    exact ⟨d, hmem, hname, hafter⟩
  initialized x hx := hx
  read x hx hn := absurd hx hn

theorem grows_markRead {name : String} (h : name ∈ names) : p.Grows table names (p.markRead name) where
  declared x hx := hx
  settled x hx hn := absurd hx hn
  initialized x hx := Names.mem_insert.2 (.inr hx)
  read x hx hn := by
    rw [(Names.mem_insert.1 hx).resolve_right hn]
    exact h

/-- An item marks its name as read, or fails and changes nothing. -/
theorem grows_readItem {name : String} (indices : List String) (h : name ∈ names) :
    p.Grows table names (Format.readItem table name indices p).2 := by
  unfold Format.readItem
  split
  · split
    · exact .refl p
    · split
      · exact .refl p
      · exact grows_markRead h
  · exact .refl p

theorem Grows.declaring {code : Progress → Except Error Code × Progress}
    (h : (p.declare (p.ready table)).Grows table names (code (p.declare (p.ready table))).2) :
    p.Grows table names (Format.declaring table p code).2 := by
  have hstate : (Format.declaring table p code).2 = (code (p.declare (p.ready table))).2 := by
    dsimp only [Format.declaring]
    generalize code (p.declare (p.ready table)) = result
    obtain ⟨_ | inner, q⟩ := result <;> rfl
  rw [hstate]
  exact grows_declare.trans h

/-- The counter is taken out of what the body leaves behind only if it was not there before the loop. -/
theorem Grows.counting {counter : String} {body : Progress → Except Error Code × Progress}
    (h : ∀ q : Progress, q.Grows table names (body q).2) :
    p.Grows table names (Format.counting counter p body).2 := by
  unfold Format.counting
  by_cases hc : counter ∈ p.declared
  · rw [if_pos hc]
    exact h p
  · rw [if_neg hc]
    have hbody := h { p with declared := p.declared.insert counter }
    refine ⟨fun x hx => ?_, fun x hx hn => ?_, hbody.initialized, hbody.read⟩
    · have hne : x ≠ counter := by
        rintro rfl
        exact hc hx
      exact Names.mem_erase.2 ⟨hbody.declared x (Names.mem_insert.2 (.inr hx)), hne⟩
    · obtain ⟨hx, hne⟩ := Names.mem_erase.1 hx
      refine hbody.settled x hx fun hin => ?_
      rcases Names.mem_insert.1 hin with heq | hin
      · exact hne heq
      · exact hn hin

end Progress

/-! ## Parts of a format -/

namespace Format

section Growth

variable (table : Table)

mutual

/-- Whatever is known when a part is met, and however it ends. -/
theorem grows_visit : ∀ (f : Format) (p : Progress), p.Grows table f.itemNames (visit table f p).2
  | .item name indices, p => by
    rw [visit]
    exact .declaring (Progress.grows_readItem indices (.head _))
  | .newline, p => by
    rw [visit]
    exact .declaring (.refl _)
  | .sequence items, p => by
    rw [visit]
    exact .declaring (grows_visitAll items _)
  | .loop counter size body, p => by
    rw [visit]
    exact .declaring (.counting (grows_visit body))

theorem grows_visitAll : ∀ (fs : List Format) (p : Progress),
    p.Grows table (itemNamesAll fs) (visitAll table fs p).2
  | [], p => .refl p
  | f :: fs, p => by
    have hfirst := (grows_visit f p).mono (List.subset_append_left (itemNames f) (itemNamesAll fs))
    rw [visitAll]
    cases hf : visit table f p with | mk first q =>
    rw [hf] at hfirst
    cases first with
    | error e => exact hfirst
    | ok code =>
      have hrest := (grows_visitAll fs q).mono (List.subset_append_right (itemNames f) (itemNamesAll fs))
      dsimp only
      cases hfs : visitAll table fs q with | mk others r =>
      rw [hfs] at hrest
      cases others with
      | error e => exact hfirst.trans hrest
      | ok codes => exact hfirst.trans hrest

end

end Growth

/-! ## Parts that succeed -/

variable {table : Table}

theorem declaring_eq_ok {p q : Progress} {body : Progress → Except Error Code × Progress} {code : Code}
    (h : declaring table p body = (.ok code, q)) :
    ∃ inner, body (p.declare (p.ready table)) = (.ok inner, q) := by
  dsimp only [declaring] at h
  generalize body (p.declare (p.ready table)) = result at h ⊢
  obtain ⟨_ | inner, r⟩ := result
  · cases h
  · cases h
    exact ⟨inner, rfl⟩

theorem initialized_counting {counter : String} {p q : Progress}
    {body : Progress → Except Error Code × Progress} {code : Except Error Code}
    (h : counting counter p body = (code, q)) :
    ∃ p' q', body p' = (code, q') ∧ q.initialized = q'.initialized := by
  unfold counting at h
  split at h
  · exact ⟨p, q, h, rfl⟩
  · cases h
    exact ⟨_, _, rfl, rfl⟩

mutual

/-- A part that succeeds has read all its items. -/
theorem reads_visit : ∀ (f : Format) {p q : Progress} {code : Code}, visit table f p = (.ok code, q) →
    ∀ x ∈ f.itemNames, x ∈ q.initialized
  | .item name indices, p, q, code, h, x, hx => by
    rw [visit] at h
    obtain ⟨inner, h⟩ := declaring_eq_ok h
    obtain ⟨-, -, rfl, -⟩ := readItem_eq_ok h
    exact Names.mem_insert.2 (.inl (List.mem_singleton.1 hx))
  | .newline, p, q, code, h, x, hx => by cases hx
  | .sequence items, p, q, code, h, x, hx => by
    rw [visit] at h
    obtain ⟨inner, h⟩ := declaring_eq_ok h
    generalize hv : visitAll table items (p.declare (p.ready table)) = result at h
    obtain ⟨_ | codes, r⟩ := result
    · cases h
    · cases h
      exact reads_visitAll items hv x hx
  | .loop counter size body, p, q, code, h, x, hx => by
    rw [visit] at h
    obtain ⟨inner, h⟩ := declaring_eq_ok h
    generalize hv : counting counter (p.declare (p.ready table)) (visit table body) = result at h
    obtain ⟨_ | bodyCode, r⟩ := result
    · cases h
    · cases h
      obtain ⟨p', q', hbody, heq⟩ := initialized_counting hv
      rw [heq]
      exact reads_visit body hbody x hx

theorem reads_visitAll : ∀ (fs : List Format) {p q : Progress} {codes : List Code},
    visitAll table fs p = (.ok codes, q) → ∀ x ∈ itemNamesAll fs, x ∈ q.initialized
  | [], p, q, codes, h, x, hx => by cases hx
  | f :: fs, p, q, codes, h, x, hx => by
    rw [visitAll] at h
    cases hf : visit table f p with | mk first r =>
    rw [hf] at h
    cases first with
    | error e => cases h
    | ok code =>
      dsimp only at h
      cases hfs : visitAll table fs r with | mk others r' =>
      rw [hfs] at h
      cases others with
      | error e => cases h
      | ok codes' =>
        cases h
        rcases List.mem_append.1 hx with hx | hx
        · -- what the first part has read is not forgotten by the others
          have hgrows := grows_visitAll table fs r
          rw [hfs] at hgrows
          exact hgrows.initialized x (reads_visit f hf x hx)
        · exact reads_visitAll fs hfs x hx

end

end Format

/-- Whatever has been declared and read when a part of a format is met, and whether scheduling it
succeeds or fails: nothing that was declared is forgotten; what is newly declared is a variable of the
table, and all that its sizes depend on has been read; what is newly read is an item of the part, and all
its items have been read if it succeeds. So a counter of a loop in the part is not declared afterwards,
unless it was before or is such a variable. -/
theorem visit_keeps_frame (table : Table) (f : Format) (p : Progress) :
    (∀ x ∈ p.declared, x ∈ (f.visit table p).2.declared) ∧
    (∀ x ∈ (f.visit table p).2.declared, x ∉ p.declared →
      ∃ d ∈ table.decls, d.name = x ∧ ∀ y ∈ d.after, y ∈ (f.visit table p).2.initialized) ∧
    (∀ x ∈ p.initialized, x ∈ (f.visit table p).2.initialized) ∧
    (∀ x ∈ (f.visit table p).2.initialized, x ∉ p.initialized → x ∈ f.itemNames) ∧
    (∀ code, (f.visit table p).1 = .ok code → ∀ x ∈ f.itemNames, x ∈ (f.visit table p).2.initialized) ∧
    ∀ counter ∈ f.loopCounters, counter ∈ (f.visit table p).2.declared → counter ∈ p.declared ∨
      ∃ d ∈ table.decls, d.name = counter ∧ ∀ y ∈ d.after, y ∈ (f.visit table p).2.initialized := by
  obtain ⟨hdeclared, hsettled, hinitialized, hread⟩ := f.grows_visit table p
  refine ⟨hdeclared, hsettled, hinitialized, hread, fun code hcode => ?_, fun counter _ hcounter => ?_⟩
  · exact f.reads_visit (Prod.ext hcode rfl)
  · by_cases hbefore : counter ∈ p.declared
    · exact .inl hbefore
    · exact .inr (hsettled counter hcounter hbefore)

/-- Two loops with one counter around an item that can be read and one that cannot. -/
def failingFormat : Format :=
  .loop "i" "2" (.loop "i" "3" (.sequence [.item "N" [], .item "X" []]))

def failingTable : Table := ⟨[⟨"N", [], .empty⟩, ⟨"i", [⟨"X", "0"⟩], .ofList ["X"]⟩], by decide⟩

/-- The counter is gone after the failure, though the table has a variable of its name. -/
theorem visit_keeps_frame_failing :
    failingFormat.visit failingTable .start =
      (.error (.scheduling (.undeclared "X")), ⟨.ofList ["N"], .ofList ["N"]⟩) ∧
    "i" ∈ failingFormat.loopCounters ∧ "i" ∉ (failingFormat.visit failingTable .start).2.declared ∧
    ∃ d ∈ failingTable.decls, d.name = "N" ∧
      ∀ y ∈ d.after, y ∈ (failingFormat.visit failingTable .start).2.initialized := by
  have hvisit : failingFormat.visit failingTable .start =
      (.error (.scheduling (.undeclared "X")), ⟨.ofList ["N"], .ofList ["N"]⟩) := by decide
  obtain ⟨-, hsettled, -, -, -, hcounter⟩ := visit_keeps_frame failingTable failingFormat .start
  refine ⟨hvisit, .head _, fun hi => ?_, hsettled "N" (by rw [hvisit]; decide) (by decide)⟩
  rcases hcounter "i" (.head _) hi with hstart | ⟨d, hd, hname, hafter⟩
  · exact absurd hstart (by decide)
  · rw [hvisit] at hafter
    revert d
    decide

end ReaderGen
