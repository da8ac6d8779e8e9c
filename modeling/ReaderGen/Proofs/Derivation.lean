import ReaderGen.Proofs.Cancellation

/-!
# A table describes first uses

The table that is derived from a format lists its variables in the order of their first uses, and says of
each what its first use says: the sizes of the loops that supply its dimensions, what its indices are
beside the counters of these loops, and which variables the sizes depend on. No later use has a say.

* `Format.names_eq_of_foldlM`: the names of a table that is filled use by use.
* `Format.Use.Supplies.value`: an index is worth the counter and the base.
* `Format.Use.namesNoCounter_of_usesCounter`: neither size nor base names a counter of a loop around.
* `table_describes_firstUses`: the whole of it.
-/

namespace ReaderGen

/-! ## Names in order -/

theorem eraseDups_of_nodup {α : Type} [DecidableEq α] : ∀ {xs : List α}, xs.Nodup → xs.eraseDups = xs
  | [], _ => List.eraseDups_nil
  | x :: xs, h => by
    obtain ⟨hx, hxs⟩ := List.nodup_cons.1 h
    have hfilter : xs.filter (fun y => !y == x) = xs :=
      List.filter_eq_self.2 fun y hy => by simpa using ne_of_mem_of_not_mem hy hx
    rw [List.eraseDups_cons, hfilter, eraseDups_of_nodup hxs]

namespace Format

/-- A use adds its name at the end if it is new, so names stand in the order in which they come up. -/
theorem names_eq_of_foldlM : ∀ {us : List Use} {table table' : Table},
    us.foldlM Use.add table = .ok table' →
      table'.names = (table.names ++ (us.filter (·.Free)).map (·.name)).eraseDups
  | [], table, table', h => by
    cases h
    have hnodup : table.names.Nodup := table.nodup
    simpa using (eraseDups_of_nodup hnodup).symm
  | u :: us, table, table', h => by
    obtain ⟨between, hu, hus⟩ := ok_of_bind h
    have hrest := names_eq_of_foldlM hus
    rcases Use.add_eq_ok hu with ⟨rfl, hold⟩ | ⟨hnew, hfree, d, hd, hpush⟩
    · by_cases hfree : u.Free
      · have hmem : u.name ∈ between.names := hold.resolve_right (not_not.2 hfree)
        rw [hrest, List.filter_cons_of_pos (by simpa using hfree), List.map_cons, List.eraseDups_append,
          List.eraseDups_append]
        simp [List.removeAll, hmem]
      · rw [hrest, List.filter_cons_of_neg (by simpa using hfree)]
    · have hbetween : between.names = table.names ++ [u.name] := by
        rw [Table.names, hpush, List.map_append, List.map_singleton, hd.name]
        rfl
      rw [hrest, hbetween, List.filter_cons_of_pos (by simpa using hfree), List.map_cons,
        List.append_assoc, List.singleton_append]

/-! ## What a loop supplies -/

namespace Use

/-- The text names no counter of a loop around the item. -/
def NamesNoCounter (u : Use) (text : String) : Prop :=
  ∃ vars, freeVars text = .ok vars ∧ ∀ x ∈ u.counters, x ∉ vars

theorem namesNoCounter_of_usesCounter {u : Use} {text : String}
    (h : usesCounter u.enclosing text = .ok false) : u.NamesNoCounter text := by
  obtain ⟨vars, hvars, h⟩ := ok_of_bind h
  have hnone : u.enclosing.any (fun l => vars.contains l.counter) = false := Except.ok.inj h
  refine ⟨vars, hvars, fun x hx hmem => ?_⟩
  obtain ⟨l, hl, rfl⟩ := List.mem_map.1 hx
  have hfound : u.enclosing.any (fun l => vars.contains l.counter) = true :=
    List.any_eq_true.2 ⟨l.toEnclosing, List.mem_map_of_mem hl, Names.contains_iff.2 hmem⟩
  rw [hnone] at hfound
  cases hfound

/-- An index is worth the counter and the base, wherever it is worth something. -/
theorem Supplies.value {u : Use} {index : String} {l : Around} {dim : Dimension}
    (h : u.Supplies index l dim) {v : Valuation} {x : Int} (hx : textValue? v index = some x) :
    ∃ c y, textValue? v l.counter = some c ∧ textValue? v dim.base = some y ∧ x = c + y := by
  obtain ⟨p, hp, hcoeff, hbase⟩ := h.polynomial
  obtain ⟨e, he, hrenders⟩ := renders_polynomialOf hp
  rw [textValue?_of_parse he] at hx
  obtain ⟨hdefined, hvalue⟩ := hrenders.value v x hx
  have hcounter := h.isVariable_counter
  refine ⟨v.var l.counter, (p.erase (.ofAtom (.var l.counter))).eval (Atom.worth v), ?_, ?_, ?_⟩
  · rw [textValue?_of_parse (Expr.parse_eq_name_iff.2 hcounter)]
    rfl
  · rw [hbase, textValue?_text (hrenders.legible.erase _)]
    exact Poly.value?_tree (hrenders.legible.erase _) (hdefined.erase _)
  · have hworth : (Monomial.ofAtom (.var l.counter)).eval (Atom.worth v) = v.var l.counter := by
      simp [Monomial.eval, Monomial.ofAtom, Atom.worth_var hcounter]
    rw [← hvalue, Poly.eval_eq_coeff_add_erase _ p (.ofAtom (.var l.counter)), hcoeff, hworth, one_mul]

end Use

end Format

/-- The names of a derived table are those of the items that stand in no loop of their own name, each
once, in the order of their first such item. That first item decides the entry: each index gives a
dimension, whose size is that of the innermost loop around that has its counter in the index, and whose
base is what the index is worth beside the counter. Neither size nor base depends on a counter of a loop
around, and the variables to be read before are those of the sizes. -/
theorem table_describes_firstUses {f : Format} {table : Table} (h : f.table = .ok table) :
    table.names = ((f.uses.filter (·.Free)).map (·.name)).eraseDups ∧
      ∀ d ∈ table.decls, ∃ n u, f.FirstUse n u ∧ u.name = d.name ∧
        d.sizes.length = u.indices.length ∧ d.bases.length = u.indices.length ∧
        (∀ (k : Nat) index size base, u.indices[k]? = some index → d.sizes[k]? = some size →
          d.bases[k]? = some base →
          ∃ l, u.supplier? index = some l ∧ size = l.size ∧
            u.NamesNoCounter size ∧ u.NamesNoCounter base ∧
            ∀ v x, textValue? v index = some x →
              ∃ c y, textValue? v l.counter = some c ∧ textValue? v base = some y ∧ x = c + y) ∧
        ∀ x, x ∈ d.after ↔ ∃ size ∈ d.sizes, ∃ vars, freeVars size = .ok vars ∧ x ∈ vars := by
  constructor
  · rw [Format.table_eq_foldlM] at h
    simpa [Table.names, Table.empty] using Format.names_eq_of_foldlM h
  intro d hd
  obtain ⟨n, u, hfirst, hdeclares⟩ := Format.exists_firstUse h hd
  obtain ⟨hlength, hdims⟩ := ok_of_mapM hdeclares.dims
  refine ⟨n, u, hfirst, hdeclares.name.symm, by simp [Decl.sizes, hlength],
    by simp [Decl.bases, hlength], ?_, ?_⟩
  · intro k index size base hindex hsize hbase
    obtain ⟨dim, hdim, rfl⟩ : ∃ dim, d.dims[k]? = some dim ∧ dim.size = size := by
      simpa [Decl.sizes] using hsize
    obtain rfl : dim.base = base := by simpa [Decl.bases, hdim] using hbase
    obtain ⟨l, hl⟩ := Format.Use.supplies_of_dimension (hdims k index dim hindex hdim)
    exact ⟨l, hl.loop, hl.size, Format.Use.namesNoCounter_of_usesCounter hl.fixedSize,
      Format.Use.namesNoCounter_of_usesCounter hl.fixedBase, fun v x hx => hl.value hx⟩
  · intro x
    obtain ⟨sets, hsets, hafter⟩ := hdeclares.after
    obtain ⟨hto, hfrom⟩ := exists_mem_of_mapM hsets
    rw [hafter, Names.mem_unions]
    constructor
    · rintro ⟨vars, hvars, hx⟩
      obtain ⟨dim, hdim, hfree⟩ := hfrom vars hvars
      exact ⟨dim.size, List.mem_map_of_mem hdim, vars, hfree, hx⟩
    · rintro ⟨size, hsize, vars, hfree, hx⟩
      obtain ⟨dim, hdim, rfl⟩ := List.mem_map.1 hsize
      obtain ⟨vars', hvars', hfree'⟩ := hto dim hdim
      obtain rfl : vars = vars' := Except.ok.inj (hfree.symm.trans hfree')
      exact ⟨vars, hvars', hx⟩

/-- A counter is read in its own loop and after it, the inner of two loops has the counter of the outer
one, and the second use of an array has an index that no dimension can be found for. -/
def crossedUses : Format :=
  .sequence [.item "N" [], .loop "i" "N" (.sequence [.item "i" [],
    .loop "i" "M - 1" (.item "A" ["i + K / 2"]), .item "A" ["2 * i"]]), .item "i" []]

theorem table_describes_firstUses_crossed : ∃ table, crossedUses.table = .ok table ∧
    table.decls.map (fun d => d.text) = ["N", "A[M - 1; from K / 2] after M", "i"] ∧
    table.names = ((crossedUses.uses.filter (·.Free)).map (·.name)).eraseDups ∧
    ∀ d ∈ table.decls, ∃ n u, crossedUses.FirstUse n u ∧ u.name = d.name ∧
      d.bases.length = u.indices.length := by
  have hview : (crossedUses.table.toOption.map fun table => table.decls.map (fun d => d.text)) =
      some ["N", "A[M - 1; from K / 2] after M", "i"] := by decide +kernel
  obtain ⟨table, htable, hdecls⟩ := Option.map_eq_some_iff.1 hview
  have htable := ok_of_toOption htable
  obtain ⟨hnames, hentries⟩ := table_describes_firstUses htable
  refine ⟨table, htable, hdecls, hnames, fun d hd => ?_⟩
  obtain ⟨n, u, hfirst, hname, -, hbases, -⟩ := hentries d hd
  exact ⟨n, u, hfirst, hname, hbases⟩

end ReaderGen
