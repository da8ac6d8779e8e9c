import ReaderGen.Proofs.Agreement

/-!
# The first use of a variable

The table of a format is filled by going through the items in order. An item in a loop that has its
name for a counter is no use of a variable, and neither is one whose variable is in the table. So what
the table says of a variable is found at its first use: each index there has a loop that supplies the
size of a dimension, namely the innermost one whose counter occurs in the index.

* `Use`, `Format.uses`: the items of a format, each with the loops around it.
* `addVariables_eq_foldlM`: a table is filled use by use.
* `FirstUse`, `firstUse?`: the first use of a variable; `declares_of_firstUse`: it gives the declaration.
* `Use.suppliers`: the loops that supply the dimensions; `Declares.sizes`: their sizes are those of the
  dimensions.
-/

namespace ReaderGen

theorem forall₂_of_mapM {ε α β : Type} {g : α → Except ε β} : ∀ {xs : List α} {ys : List β},
    xs.mapM g = .ok ys → List.Forall₂ (fun x y => g x = .ok y) xs ys
  | [], ys, h => by
    cases h
    exact .nil
  | x :: xs, ys, h => by
    rw [List.mapM_cons] at h
    obtain ⟨y, hy, h⟩ := ok_of_bind h
    obtain ⟨ys, hys, h⟩ := ok_of_bind h
    cases h
    exact .cons hy (forall₂_of_mapM hys)

namespace Format

/-! ## Items and the loops around them -/

/-- A loop around a part of a format, and where it begins. -/
structure Around extends Enclosing where
  site : Site
deriving DecidableEq, Repr

/-- An item of a format, where it stands, and the loops around it, from the inside out. -/
structure Use where
  site : Site
  loops : List Around
  name : String
  indices : List String
deriving DecidableEq, Repr

mutual

/-- The items of a part of a format in the order of a walk. -/
def usesFrom (loops : List Around) : Format → Site → List Use
  | .item name indices, s => [⟨s, loops, name, indices⟩]
  | .newline, _ => []
  | .sequence items, s => usesFromAll loops items s.next
  | .loop counter size body, s => usesFrom (⟨⟨counter, size⟩, s⟩ :: loops) body (s.enter counter)

def usesFromAll (loops : List Around) : List Format → Site → List Use
  | [], _ => []
  | f :: fs, s => usesFrom loops f s ++ usesFromAll loops fs (after f s)

end

/-- The items of a whole format. -/
def uses (f : Format) : List Use := f.usesFrom [] .start

mutual

theorem map_usesFrom : ∀ (f : Format) (loops : List Around) (s : Site),
    (f.usesFrom loops s).map (fun u => (u.site, u.name, u.indices)) =
      (f.parts s).filterMap fun part => part.2.map (part.1, ·)
  | .item .., _, _ | .newline, _, _ => rfl
  | .sequence items, loops, s => map_usesFromAll items loops s.next
  | .loop counter _ body, _, s => map_usesFrom body _ (s.enter counter)

theorem map_usesFromAll : ∀ (fs : List Format) (loops : List Around) (s : Site),
    (usesFromAll loops fs s).map (fun u => (u.site, u.name, u.indices)) =
      (partsAll fs s).filterMap fun part => part.2.map (part.1, ·)
  | [], _, _ => rfl
  | f :: fs, loops, s => by
    simp only [usesFromAll, partsAll, List.map_append, List.filterMap_append, map_usesFrom f,
      map_usesFromAll fs]

end

theorem occurrences_eq_uses (f : Format) :
    f.occurrences = f.uses.map fun u => (u.site, u.name, u.indices) :=
  (map_usesFrom f [] .start).symm

/-- An item is a part of the format. -/
theorem part_of_mem_usesFrom {f : Format} {loops : List Around} {s : Site} {u : Use}
    (hu : u ∈ f.usesFrom loops s) : (u.site, some (u.name, u.indices)) ∈ f.parts s := by
  have h : (u.site, u.name, u.indices) ∈
      (f.parts s).filterMap fun part => part.2.map (part.1, ·) := by
    rw [← map_usesFrom f loops s]
    exact List.mem_map.2 ⟨u, hu, rfl⟩
  obtain ⟨⟨t, item⟩, hpart, hitem⟩ := List.mem_filterMap.1 h
  obtain ⟨item, rfl, heq⟩ := Option.map_eq_some_iff.1 hitem
  cases heq
  exact hpart

mutual

theorem indices_of_mem_usesFrom : ∀ (f : Format) {loops : List Around} {s : Site},
    ∀ u ∈ f.usesFrom loops s, u.indices ⊆ f.exprs
  | .item name indices, loops, s, u, hu => by
    cases List.mem_singleton.1 hu
    exact List.Subset.refl _
  | .newline, loops, s, u, hu => by cases hu
  | .sequence items, _, s, u, hu => indices_of_mem_usesFromAll items u hu
  | .loop counter size body, _, s, u, hu =>
    List.subset_cons_of_subset _ (indices_of_mem_usesFrom body u hu)

theorem indices_of_mem_usesFromAll : ∀ (fs : List Format) {loops : List Around} {s : Site},
    ∀ u ∈ usesFromAll loops fs s, u.indices ⊆ exprsAll fs
  | [], loops, s, u, hu => by cases hu
  | f :: fs, loops, s, u, hu => by
    rcases List.mem_append.1 hu with hu | hu
    · exact List.subset_append_of_subset_left _ (indices_of_mem_usesFrom f u hu)
    · exact List.subset_append_of_subset_right _ (indices_of_mem_usesFromAll fs u hu)

end

mutual

/-- The site of an item knows the loops around it. -/
theorem loops_of_mem_usesFrom : ∀ (f : Format) {loops : List Around} {s : Site},
    loops.map (fun l => (l.site.begun, l.counter)) = s.loops → ∀ u ∈ f.usesFrom loops s,
      u.loops.map (fun l => (l.site.begun, l.counter)) = u.site.loops
  | .item name indices, loops, s, h, u, hu => by
    cases List.mem_singleton.1 hu
    exact h
  | .newline, loops, s, h, u, hu => by cases hu
  | .sequence items, _, s, h, u, hu => loops_of_mem_usesFromAll items (s := s.next) h u hu
  | .loop counter size body, loops, s, h, u, hu => by
    refine loops_of_mem_usesFrom body ?_ u hu
    rw [List.map_cons, h]
    rfl

theorem loops_of_mem_usesFromAll : ∀ (fs : List Format) {loops : List Around} {s : Site},
    loops.map (fun l => (l.site.begun, l.counter)) = s.loops → ∀ u ∈ usesFromAll loops fs s,
      u.loops.map (fun l => (l.site.begun, l.counter)) = u.site.loops
  | [], loops, s, h, u, hu => by cases hu
  | f :: fs, loops, s, h, u, hu => by
    rcases List.mem_append.1 hu with hu | hu
    · exact loops_of_mem_usesFrom f h u hu
    · exact loops_of_mem_usesFromAll fs (by rw [h, loops_after]) u hu

end

namespace Use

/-- The loops around the item, without their places. -/
def enclosing (u : Use) : List Enclosing := u.loops.map (·.toEnclosing)

def counters (u : Use) : List String := u.loops.map (·.counter)

/-- The item is a use of a variable: no loop around it has its name for a counter. -/
def Free (u : Use) : Prop := u.name ∉ u.counters

instance : DecidablePred Free := fun u => inferInstanceAs (Decidable (u.name ∉ u.counters))

/-- Adds the variable of an item to a table, if it is new there. -/
def add (table : Table) (u : Use) : Except ExprError Table :=
  addVariables u.enclosing (.item u.name u.indices) table

/-- What the item, as a use of a variable, says of it. -/
structure Declares (u : Use) (d : Decl) : Prop where
  name : d.name = u.name
  dims : u.indices.mapM (dimension u.enclosing u.name) = .ok d.dims
  after : ∃ vars, d.dims.mapM (fun dim => freeVars dim.size) = .ok vars ∧ d.after = .unions vars

end Use

theorem counters_of_mem_uses {f : Format} {u : Use} (h : u ∈ f.uses) :
    u.counters = u.site.counters := by
  rw [Site.counters, ← loops_of_mem_usesFrom f rfl u h, List.map_map]
  rfl

/-! ## Filling a table -/

mutual

/-- A table is filled use by use. -/
theorem addVariables_eq_foldlM : ∀ (f : Format) (loops : List Around) (s : Site) (table : Table),
    addVariables (loops.map (·.toEnclosing)) f table = (f.usesFrom loops s).foldlM Use.add table
  | .item name indices, loops, s, table => by
    rw [usesFrom, List.foldlM_cons]
    simp only [List.foldlM_nil, bind_pure]
    rfl
  | .newline, _, _, _ => rfl
  | .sequence items, loops, s, table => addAllVariables_eq_foldlM items loops s.next table
  | .loop counter size body, loops, s, table =>
    addVariables_eq_foldlM body (⟨⟨counter, size⟩, s⟩ :: loops) (s.enter counter) table

theorem addAllVariables_eq_foldlM : ∀ (fs : List Format) (loops : List Around) (s : Site)
    (table : Table), addAllVariables (loops.map (·.toEnclosing)) fs table =
      (usesFromAll loops fs s).foldlM Use.add table
  | [], _, _, _ => rfl
  | f :: fs, loops, s, table => by
    rw [addAllVariables, usesFromAll, List.foldlM_append, addVariables_eq_foldlM f loops s]
    exact bind_congr fun table => addAllVariables_eq_foldlM fs loops (f.after s) table

end

theorem table_eq_foldlM (f : Format) : f.table = f.uses.foldlM Use.add .empty :=
  addVariables_eq_foldlM f [] .start .empty

/-- What one item does to a table. -/
theorem Use.add_eq_ok {table table' : Table} {u : Use} (h : u.add table = .ok table') :
    table' = table ∧ (u.name ∈ table.names ∨ ¬u.Free) ∨
      u.name ∉ table.names ∧ u.Free ∧ ∃ d, u.Declares d ∧ table'.decls = table.decls ++ [d] := by
  have hcounter : u.enclosing.any (·.counter = u.name) = true ↔ ¬u.Free := by
    simp [enclosing, Free, counters]
  unfold add at h
  rw [addVariables] at h
  split at h
  · rename_i known
    cases h
    exact .inl ⟨rfl, .inl known⟩
  · rename_i new
    split at h
    · rename_i own
      cases h
      exact .inl ⟨rfl, .inr (hcounter.1 own)⟩
    · rename_i free
      obtain ⟨dims, hdims, h⟩ := ok_of_bind h
      obtain ⟨vars, hvars, h⟩ := ok_of_bind h
      cases h
      have hfree : u.Free := by
        by_contra hnot
        exact free (hcounter.2 hnot)
      exact .inr ⟨new, hfree, _, ⟨rfl, hdims, vars, hvars, rfl⟩, rfl⟩

/-- What is in a table stays there, and the uses bring their variables in. -/
theorem names_of_foldlM : ∀ {us : List Use} {table table' : Table},
    us.foldlM Use.add table = .ok table' →
      table.decls ⊆ table'.decls ∧
      ∀ x, x ∈ table'.names ↔ x ∈ table.names ∨ ∃ u ∈ us, u.Free ∧ u.name = x
  | [], table, table', h => by
    cases h
    simp
  | u :: us, table, table', h => by
    obtain ⟨between, hu, hus⟩ := ok_of_bind h
    obtain ⟨hdecls, hnames⟩ := names_of_foldlM hus
    rcases Use.add_eq_ok hu with ⟨rfl, hold⟩ | ⟨-, hfree, d, hd, hpush⟩
    · refine ⟨hdecls, fun x => ?_⟩
      rw [hnames]
      constructor
      · rintro (hx | ⟨v, hv, hx⟩)
        · exact .inl hx
        · exact .inr ⟨v, .tail _ hv, hx⟩
      · rintro (hx | ⟨v, hv, hfree, rfl⟩)
        · exact .inl hx
        · rcases List.mem_cons.1 hv with rfl | hv
          · exact .inl (hold.resolve_right (not_not.2 hfree))
          · exact .inr ⟨v, hv, hfree, rfl⟩
    · refine ⟨fun c hc => hdecls (by rw [hpush]; exact List.mem_append_left _ hc), fun x => ?_⟩
      have hbetween : between.names = table.names ++ [u.name] := by
        rw [Table.names, hpush, List.map_append, List.map_singleton, hd.name]
        rfl
      rw [hnames, hbetween, List.mem_append, List.mem_singleton, or_assoc]
      refine or_congr_right ?_
      simp [hfree, eq_comm]

/-! ## First uses -/

/-- The item with this number, counted from 0, is the first use of its variable. -/
structure FirstUse (f : Format) (n : Nat) (u : Use) : Prop where
  item : f.uses[n]? = some u
  free : u.Free
  first : ∀ v ∈ f.uses.take n, v.name = u.name → ¬v.Free

theorem FirstUse.split {f : Format} {n : Nat} {u : Use} (h : f.FirstUse n u) :
    f.uses = f.uses.take n ++ u :: f.uses.drop (n + 1) := by
  obtain ⟨hn, rfl⟩ := List.getElem?_eq_some_iff.1 h.item
  rw [List.getElem_cons_drop, List.take_append_drop]

theorem FirstUse.mem {f : Format} {n : Nat} {u : Use} (h : f.FirstUse n u) : u ∈ f.uses :=
  List.mem_of_getElem? h.item

/-- The item with this number, if it is the first use of its variable. -/
def firstUse? (f : Format) (n : Nat) : Option Use :=
  f.uses[n]?.filter fun u => u.Free ∧ ∀ v ∈ f.uses.take n, v.name = u.name → ¬v.Free

theorem firstUse?_eq_some_iff {f : Format} {n : Nat} {u : Use} :
    f.firstUse? n = some u ↔ f.FirstUse n u := by
  rw [firstUse?, Option.filter_eq_some_iff, decide_eq_true_eq]
  exact ⟨fun h => ⟨h.1, h.2.1, h.2.2⟩, fun h => ⟨h.item, h.free, h.first⟩⟩

section Table

variable {f : Format} {table : Table}

/-- The table has the declaration that the first use of a variable gives. -/
theorem declares_of_firstUse (ht : f.table = .ok table) {n : Nat} {u : Use} (h : f.FirstUse n u) :
    ∃ d ∈ table.decls, u.Declares d := by
  rw [table_eq_foldlM, h.split, List.foldlM_append] at ht
  obtain ⟨before, hbefore, ht⟩ := ok_of_bind ht
  obtain ⟨between, hu, hrest⟩ := ok_of_bind ht
  -- no item before it is a use of the variable
  have hnew : u.name ∉ before.names := by
    rw [(names_of_foldlM hbefore).2]
    rintro (hx | ⟨v, hv, hfree, hname⟩)
    · cases hx
    · exact h.first v hv hname hfree
  rcases Use.add_eq_ok hu with ⟨-, hold⟩ | ⟨-, -, d, hd, hpush⟩
  · exact absurd h.free (hold.resolve_left hnew)
  · refine ⟨d, (names_of_foldlM hrest).1 ?_, hd⟩
    rw [hpush]
    exact List.mem_append_right _ (.head _)

/-- Every declaration in the table comes from a first use. -/
theorem exists_firstUse (ht : f.table = .ok table) {d : Decl} (hd : d ∈ table.decls) :
    ∃ n u, f.FirstUse n u ∧ u.Declares d := by
  have hname : d.name ∈ table.names := List.mem_map_of_mem hd
  have hfold := ht
  rw [table_eq_foldlM] at hfold
  rw [(names_of_foldlM hfold).2] at hname
  obtain ⟨u, hu, hfree, hname⟩ := hname.resolve_left (by simp [Table.empty, Table.names])
  obtain ⟨v, hv⟩ : ∃ v, f.uses.find? (fun v => v.Free ∧ v.name = d.name) = some v :=
    Option.isSome_iff_exists.1 (List.find?_isSome.2 ⟨u, hu, by simp [hfree, hname]⟩)
  obtain ⟨hfound, as, bs, hsplit, has⟩ := List.find?_eq_some_iff_append.1 hv
  simp only [decide_eq_true_eq] at hfound
  have hfirst : f.FirstUse as.length v := by
    refine ⟨by simp [hsplit], hfound.1, fun w hw hwv hwfree => ?_⟩
    rw [hsplit, List.take_left] at hw
    simpa [hwfree, hwv, hfound.2] using has w hw
  obtain ⟨c, hc, hdeclares⟩ := declares_of_firstUse ht hfirst
  -- the table has one declaration of that name
  obtain rfl := Table.eq_of_name hc hd (hdeclares.name.trans hfound.2)
  exact ⟨as.length, v, hfirst, hdeclares⟩

end Table

/-! ## Where sizes and bases come from -/

namespace Use

/-- The loop that an index takes its range from: the innermost one whose counter occurs in it. -/
def supplier? (u : Use) (index : String) : Option Around :=
  match freeVars index with
  | .ok vars => u.loops.find? fun l => vars.contains l.counter
  | .error _ => none

/-- The loops that supply the dimensions of the variable. -/
def suppliers (u : Use) : List Around := u.indices.filterMap u.supplier?

theorem mem_loops_of_supplier {u : Use} {l : Around} (h : l ∈ u.suppliers) : l ∈ u.loops := by
  obtain ⟨index, -, hl⟩ := List.mem_filterMap.1 h
  unfold supplier? at hl
  split at hl
  · exact List.mem_of_find?_eq_some hl
  · cases hl

/-- A loop around the item gives a dimension its size, and what is left of the index after the counter
has been taken off gives it its base. Neither depends on a counter. -/
structure Supplies (u : Use) (index : String) (l : Around) (dim : Dimension) : Prop where
  loop : u.supplier? index = some l
  size : dim.size = l.size
  base : offsetFrom index l.counter = .ok (some dim.base)
  fixedSize : usesCounter u.enclosing dim.size = .ok false
  fixedBase : usesCounter u.enclosing dim.base = .ok false

theorem supplies_of_dimension {u : Use} {index : String} {dim : Dimension}
    (h : dimension u.enclosing u.name index = .ok dim) : ∃ l, u.Supplies index l dim := by
  unfold dimension at h
  obtain ⟨vars, hvars, h⟩ := ok_of_bind h
  split at h
  · cases h
  rename_i l' hfind
  rw [enclosing, List.find?_map] at hfind
  obtain ⟨l, hl, rfl⟩ := Option.map_eq_some_iff.1 hfind
  obtain ⟨usedSize, hsize, h⟩ := ok_of_bind h
  split at h
  · cases h
  rename_i hfixedSize
  obtain ⟨offset, hoffset, h⟩ := ok_of_bind h
  split at h
  · cases h
  rename_i base
  obtain ⟨usedBase, hbase, h⟩ := ok_of_bind h
  split at h
  · cases h
  rename_i hfixedBase
  cases h
  rw [Bool.not_eq_true] at hfixedSize hfixedBase
  subst hfixedSize hfixedBase
  refine ⟨l, ?_, rfl, hoffset, hsize, hbase⟩
  unfold supplier?
  rw [hvars]
  exact hl

namespace Declares

variable {u : Use} {d : Decl}

theorem supplied (h : u.Declares d) :
    List.Forall₂ (fun index dim => ∃ l, u.Supplies index l dim) u.indices d.dims :=
  (forall₂_of_mapM h.dims).imp fun _ _ => supplies_of_dimension

/-- The sizes of the dimensions are those of the loops that supply them. -/
theorem sizes (h : u.Declares d) : u.suppliers.map (·.size) = d.sizes := by
  have hdims := h.supplied
  unfold suppliers Decl.sizes
  generalize u.indices = indices at hdims
  generalize d.dims = dims at hdims
  induction hdims with
  | nil => rfl
  | cons hdim _ ih =>
    obtain ⟨l, hl⟩ := hdim
    rw [List.filterMap_cons, hl.loop, List.map_cons, List.map_cons, ih, hl.size]

end Declares

end Use

end Format

end ReaderGen
