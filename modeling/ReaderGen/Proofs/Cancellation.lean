import ReaderGen.Proofs.FirstUse
import ReaderGen.Proofs.Rereading
import ReaderGen.Proofs.Stability
import ReaderGen.Proofs.Uniqueness

/-!
# What the first read of an array is subscripted by

An array is indexed from the bases that its first use gives it: each base is what is left of an index
after the counter of a loop has been taken off. So at that first use, index less base should be the
counter. The base is written out and read again before it is taken off, though, and what is read need
not be what was written. It is just if the base is settled, and only then the counter is left.

* `Poly.eval_eq_coeff_add_erase`: a polynomial is one of its terms and the rest.
* `Poly.Lowered.text_sub_eq_iff`: when the rest, written out and read again, can be taken off.
* `Supplies.offset_eq_counter_iff`: for one index, when the counter is left.
* `join_brackets_inj`: texts in brackets, one after the other, are known from the joined text.
* `schedule_reads_counters_iff`: when the first read is subscripted by the counters.
-/

namespace ReaderGen

/-! ## Taking a term out of a polynomial -/

namespace Poly

theorem eval_eq_coeff_add_erase (f : Atom → Int) (p : Poly) (m : Monomial) :
    p.eval f = p.coeff m * m.eval f + (p.erase m).eval f := by
  by_cases h : ∃ t ∈ p.terms, t.monomial = m
  · obtain ⟨t, ht, rfl⟩ := h
    obtain ⟨as, bs, hsplit, has, hbs⟩ := exists_split ht
    have hrest : (p.erase t.monomial).terms = as ++ bs := by
      show p.terms.filter (·.monomial ≠ t.monomial) = as ++ bs
      rw [hsplit, List.filter_append, List.filter_cons_of_neg (by simp),
        List.filter_eq_self.2 fun u hu => decide_eq_true (has u hu),
        List.filter_eq_self.2 fun u hu => decide_eq_true (hbs u hu)]
    rw [eval, eval, coeff_of_mem ht, hrest, hsplit, evalTerms_append, evalTerms_append,
      evalTerms_cons, Term.eval]
    ring
  · have hne : ∀ t ∈ p.terms, t.monomial ≠ m := fun t ht heq => h ⟨t, ht, heq⟩
    have hrest : (p.erase m).terms = p.terms :=
      List.filter_eq_self.2 fun t ht => decide_eq_true (hne t ht)
    rw [eval, eval, coeff_eq_zero hne, hrest, zero_mul, zero_add]

theorem coeff_of_offset? {p q : Poly} {x : String} (h : p.offset? x = some q) :
    p.coeff (.ofAtom (.var x)) = 1 := by
  simp only [offset?, Option.ite_none_right_eq_some] at h
  exact h.1

theorem mem_vars {p : Poly} {x : String} :
    x ∈ p.vars ↔ ∃ t ∈ p.terms, ∃ a ∈ t.monomial.factors, x ∈ a.vars := by
  unfold vars
  rw [Names.mem_unions]
  constructor
  · rintro ⟨names, hnames, hx⟩
    obtain ⟨t, ht, hnames⟩ := List.mem_flatMap.1 hnames
    obtain ⟨a, ha, rfl⟩ := List.mem_map.1 hnames
    exact ⟨t, ht, a, ha, hx⟩
  · rintro ⟨t, ht, a, ha, hx⟩
    exact ⟨a.vars, List.mem_flatMap.2 ⟨t, ht, List.mem_map_of_mem ha⟩, hx⟩

/-- The polynomial that spells a variable is the variable. -/
theorem Lowered.eq_atom_of_text {p : Poly} (h : p.Lowered) {x : String} (hx : Word.IsVariable x)
    (htext : p.text = x) : p = .atom (.var x) := by
  have hparse := Poly.parse_text h.legible
  rw [htext, Expr.parse_eq_name_iff.2 hx] at hparse
  have htree : p.tree = .name x := (Except.ok.inj hparse).symm
  have hpoly := h.toPoly_tree (by rw [htree]; exact (Expr.everywhere_leaf rfl).2 trivial)
  rw [htree] at hpoly
  exact (Except.ok.inj hpoly).symm

theorem text_atom_var (x : String) : (atom (.var x)).text = x := by
  simp [text, written, atom, Monomial.ofAtom, Monomial.one, termText, factorsText, factorText, moreText,
    Atom.var]

/-- Of a polynomial, what stands beside a variable is written out, read again and taken off. That
leaves the variable just if what was read is what was written. -/
theorem Lowered.text_sub_eq_iff {p q r : Poly} {x : String} (hp : p.Lowered) (hx : Word.IsVariable x)
    (hcoeff : p.coeff (.ofAtom (.var x)) = 1)
    (hq : (p.erase (.ofAtom (.var x))).tree.toPoly = .ok q) (hsub : p.sub q = some r)
    (hr : r.Lowered) :
    r.text = x ↔ (p.erase (.ofAtom (.var x))).tree.Everywhere Expr.Settled := by
  have hrest : (p.erase (.ofAtom (.var x))).Lowered := hp.erase _
  have heval : ∀ f, r.eval f = f (.var x) + (p.erase (.ofAtom (.var x))).eval f - q.eval f := by
    intro f
    have hmonomial : (Monomial.ofAtom (.var x)).eval f = f (.var x) := by
      simp [Monomial.eval, Monomial.ofAtom]
    rw [eval_sub f hsub, eval_eq_coeff_add_erase f p (.ofAtom (.var x)), hcoeff, hmonomial, one_mul]
  constructor
  · intro htext
    have hvariable := hr.eq_atom_of_text hx htext
    have hreread : q = p.erase (.ofAtom (.var x)) := by
      refine eq_of_eval fun f => ?_
      have hf := heval f
      rw [hvariable, eval_atom] at hf
      omega
    exact hrest.settled_of_stable hq (by rw [hreread])
  · intro hsettled
    rw [hrest.toPoly_tree hsettled] at hq
    obtain rfl := Except.ok.inj hq
    have hvariable : r = .atom (.var x) := by
      refine eq_of_eval fun f => ?_
      rw [heval f, eval_atom]
      ring
    rw [hvariable, text_atom_var]

end Poly

/-- The variables of an atom that lowering makes are words that stand for a variable. -/
theorem Atom.Lowered.isVariable {a : Atom} (h : a.Lowered) : ∀ x ∈ a.vars, Word.IsVariable x := by
  induction h with
  | @var y hy =>
    intro x hx
    obtain rfl : x = y := by simpa [Atom.var] using hx
    exact hy
  | @subscript a i ha hc hi hfits iha ihi =>
    intro x hx
    rcases Names.mem_union.1 hx with hx | hx
    · exact iha x hx
    · obtain ⟨t, ht, b, hb, hx⟩ := Poly.mem_vars.1 hx
      exact ihi t ht b hb x hx
  | @division part p q hp hq hpf hqf happly ihp ihq =>
    intro x hx
    rcases Names.mem_union.1 hx with hx | hx
    · obtain ⟨t, ht, b, hb, hx⟩ := Poly.mem_vars.1 hx
      exact ihp t ht b hb x hx
    · obtain ⟨t, ht, b, hb, hx⟩ := Poly.mem_vars.1 hx
      exact ihq t ht b hb x hx

/-! ## One index -/

namespace Format.Use.Supplies

variable {u : Use} {index : String} {l : Around} {dim : Dimension}

/-- The index is the counter and the base. -/
theorem polynomial (h : u.Supplies index l dim) : ∃ p, polynomialOf index = .ok p ∧
    p.coeff (.ofAtom (.var l.counter)) = 1 ∧
      dim.base = (p.erase (.ofAtom (.var l.counter))).text := by
  obtain ⟨p, hp, hbase⟩ := ok_of_bind h.base
  obtain ⟨q, hq, htext⟩ := Option.map_eq_some_iff.1 (Except.ok.inj hbase)
  refine ⟨p, hp, Poly.coeff_of_offset? hq, ?_⟩
  rw [← Poly.eq_of_offset? hq, htext]

/-- The counter is a word that stands for a variable. -/
theorem isVariable_counter (h : u.Supplies index l dim) : Word.IsVariable l.counter := by
  obtain ⟨p, hp, hcoeff, -⟩ := h.polynomial
  have hterm : (⟨.ofAtom (.var l.counter), 1⟩ : Term) ∈ p.terms :=
    Poly.mem_terms_iff.2 ⟨one_ne_zero, hcoeff⟩
  have hatom : (Atom.var l.counter).Lowered :=
    (lowered_of_polynomialOf hp).atoms _ hterm _ (.head _)
  exact hatom.isVariable l.counter (by simp [Atom.var])

/-- Index less base is the counter just if the base is settled: only then it is read as what it was
written for. -/
theorem offset_eq_counter_iff (h : u.Supplies index l dim) (hindex : CanonicalText index) {s : String}
    (hs : simplify (index ++ " - (" ++ dim.base ++ ")") = .ok s) :
    s = l.counter ↔ ∃ e, Expr.parse dim.base = .ok e ∧ e.Everywhere Expr.Settled := by
  obtain ⟨p₀, hp₀, rfl⟩ := hindex.lowered
  obtain ⟨p, hp, hcoeff, hbase⟩ := h.polynomial
  obtain ⟨q, hq⟩ := usesCounter_eq_ok h.fixedBase
  have hlowered := lowered_of_polynomialOf hp
  have hrest := hlowered.erase (.ofAtom (.var l.counter))
  rw [hbase] at hs hq ⊢
  rw [hrest.polynomialOf_text] at hq
  rw [hp₀.polynomialOf_text] at hp
  have hq := Expr.toPoly_of_polynomial hq
  have hp := Expr.toPoly_of_polynomial hp
  obtain ⟨r, hr, htext⟩ := ok_of_bind hs
  obtain rfl : r.text = s := Except.ok.inj htext
  have hdifference := lowered_of_polynomialOf hr
  -- the index is read as `p` again, and the base as `q`
  have hsub : p.sub q = some r := by
    rw [polynomialOf, Poly.parse_difference hp₀.legible hrest.legible] at hr
    have hr := Expr.toPoly_of_polynomial hr
    rw [Expr.toPoly, hp, Expr.toPoly, hq] at hr
    exact orOverflow_eq_ok hr
  rw [hlowered.text_sub_eq_iff h.isVariable_counter hcoeff hq hsub hdifference,
    Poly.parse_text hrest.legible]
  simp only [Except.ok.injEq, exists_eq_left']

end Format.Use.Supplies

/-! ## Texts in brackets -/

/-- The text in brackets. -/
def bracketed (s : String) : List Char := '[' :: (s.toList ++ [']'])

/-- A bracketed text without a bracket to open inside is known from what it begins. -/
theorem bracketed_append_inj {a b : String} (ha : '[' ∉ a.toList) (hb : '[' ∉ b.toList)
    {as bs : List String} (h : bracketed a ++ as.flatMap bracketed = bracketed b ++ bs.flatMap bracketed) :
    a = b ∧ as.flatMap bracketed = bs.flatMap bracketed := by
  -- what stands before the next bracket to open
  have hfirst : ∀ {s : String}, '[' ∉ s.toList → ∀ ss : List String,
      ((s.toList ++ [']']) ++ ss.flatMap bracketed).takeWhile (· ≠ '[') = s.toList ++ [']'] := by
    intro s hs ss
    have hplain : ∀ c ∈ s.toList ++ [']'], decide (c ≠ '[') = true := by
      intro c hc
      rw [decide_eq_true_iff]
      rintro rfl
      rcases List.mem_append.1 hc with hc | hc
      · exact hs hc
      · exact absurd (List.mem_singleton.1 hc) (by decide)
    have hend : (ss.flatMap bracketed).takeWhile (· ≠ '[') = [] := by
      cases ss with
      | nil => rfl
      | cons t ts => simp [bracketed]
    rw [List.takeWhile_append_of_pos hplain, hend, List.append_nil]
  have h : (a.toList ++ [']']) ++ as.flatMap bracketed = (b.toList ++ [']']) ++ bs.flatMap bracketed :=
    (List.cons.inj h).2
  have htake := congrArg (List.takeWhile (· ≠ '[')) h
  rw [hfirst ha, hfirst hb] at htake
  rw [htake] at h
  exact ⟨String.toList_inj.1 (List.append_cancel_right htake), List.append_cancel_left h⟩

theorem flatMap_bracketed_inj : ∀ {as bs : List String}, (∀ a ∈ as, '[' ∉ a.toList) →
    (∀ b ∈ bs, '[' ∉ b.toList) → as.flatMap bracketed = bs.flatMap bracketed → as = bs
  | [], [], _, _, _ => rfl
  | [], b :: bs, _, _, h => by cases h
  | a :: as, [], _, _, h => by cases h
  | a :: as, b :: bs, has, hbs, h => by
    obtain ⟨rfl, hrest⟩ := bracketed_append_inj (has a (.head _)) (hbs b (.head _)) h
    rw [flatMap_bracketed_inj (fun c hc => has c (.tail _ hc)) (fun c hc => hbs c (.tail _ hc)) hrest]

theorem count_flatMap_bracketed (ss : List String) : (ss.flatMap bracketed).count '[' =
    ss.length + (ss.map fun s => s.toList.count '[').sum := by
  induction ss with
  | nil => rfl
  | cons s ss ih =>
    rw [List.flatMap_cons, List.count_append, ih, bracketed, List.count_cons_self, List.count_append]
    simp
    omega

/-- Texts in brackets, one after the other, are known from the joined text and their number, if there
are no brackets inside those on one side. -/
theorem join_brackets_inj {as bs : List String} (has : ∀ a ∈ as, '[' ∉ a.toList)
    (hlen : as.length = bs.length) :
    String.join (as.map fun s => "[" ++ s ++ "]") = String.join (bs.map fun s => "[" ++ s ++ "]") ↔
      as = bs := by
  have hchars : ∀ ss : List String,
      (String.join (ss.map fun s => "[" ++ s ++ "]")).toList = ss.flatMap bracketed := by
    intro ss
    rw [String.toList_join, List.flatMap_map]
    exact List.flatMap_congr fun s _ => by simp [bracketed]
  refine ⟨fun h => ?_, fun h => by rw [h]⟩
  have h := congrArg String.toList h
  rw [hchars, hchars] at h
  -- the brackets that open are counted: there are none to spare for the other side
  have hbs : ∀ b ∈ bs, '[' ∉ b.toList := by
    have hcount := congrArg (List.count '[') h
    rw [count_flatMap_bracketed, count_flatMap_bracketed] at hcount
    have hzero : (as.map fun s => s.toList.count '[').sum = 0 := by
      simpa [List.sum_eq_zero_iff, List.count_eq_zero] using has
    have hzero' : (bs.map fun s => s.toList.count '[').sum = 0 := by omega
    simpa [List.sum_eq_zero_iff, List.count_eq_zero] using hzero'
  exact flatMap_bracketed_inj has hbs h

/-! ## All indices of a first use -/

theorem Word.IsVariable.no_bracket {x : String} (h : Word.IsVariable x) : '[' ∉ x.toList := by
  intro hbracket
  have hchar : Text.isIdentifierPart '[' = false := by decide
  rcases Scanner.part_of_identAt h.1 '[' hbracket with hpart | hsign
  · rw [hchar] at hpart
    cases hpart
  · exact absurd hsign (by decide)

namespace Format

/-- All indices less their bases are the counters just if all bases are settled. -/
theorem Use.offsets_eq_counters_iff {u : Use} {indices : List String} {dims : List Dimension}
    (h : List.Forall₂ (fun index dim => ∃ l, u.Supplies index l dim) indices dims)
    (hindices : ∀ index ∈ indices, CanonicalText index) {offsets : List String}
    (hoffsets : (indices.zip (dims.map (·.base))).mapM
      (fun pair => simplify (pair.1 ++ " - (" ++ pair.2 ++ ")")) = .ok offsets) :
    (indices.filterMap u.supplier?).length = offsets.length ∧
      (∀ l ∈ indices.filterMap u.supplier?, Word.IsVariable l.counter) ∧
      ((indices.filterMap u.supplier?).map (·.counter) = offsets ↔
        ∀ dim ∈ dims, ∃ e, Expr.parse dim.base = .ok e ∧ e.Everywhere Expr.Settled) := by
  induction h generalizing offsets with
  | nil =>
    cases hoffsets
    simp
  | @cons index dim indices dims hl _ ih =>
    obtain ⟨l, hl⟩ := hl
    rw [List.map_cons, List.zip_cons_cons, List.mapM_cons] at hoffsets
    obtain ⟨s, hs, hoffsets⟩ := ok_of_bind hoffsets
    obtain ⟨rest, hrest, hoffsets⟩ := ok_of_bind hoffsets
    obtain rfl : s :: rest = offsets := Except.ok.inj hoffsets
    obtain ⟨hlength, hvariable, hiff⟩ := ih (fun i hi => hindices i (.tail _ hi)) hrest
    have hfirst := hl.offset_eq_counter_iff (hindices index (.head _)) hs
    rw [List.filterMap_cons, hl.loop]
    refine ⟨congrArg Nat.succ hlength, List.forall_mem_cons.2 ⟨hl.isVariable_counter, hvariable⟩, ?_⟩
    rw [List.map_cons, List.cons.injEq, List.forall_mem_cons, ← hiff, ← hfirst, @eq_comm _ s]

end Format

/-- The text that an item would be read into if its loops gave the subscripts. -/
def Format.Use.countersText (u : Format.Use) : String :=
  u.name ++ String.join (u.suppliers.map fun l => "[" ++ l.counter ++ "]")

/-- The first read of a variable is subscripted by the counters of the loops that supply its
dimensions just if all its bases are settled, that is, hold no minus sign directly before what is
divided. -/
theorem schedule_reads_counters_iff {name source : String} {color : Bool} {f : Format} {table : Table}
    {code : Code} (hf : Format.parse name source color = .ok f) (ht : f.table = .ok table)
    (h : f.schedule table = .ok code) {n : Nat} {u : Format.Use} (hu : f.FirstUse n u) :
    ∃ d ∈ table.decls, d.name = u.name ∧ u.suppliers.map (·.size) = d.sizes ∧
      ((code.events.filterMap Event.read?)[n]? = some u.countersText ↔
        ∀ base ∈ d.bases, ∃ e, Expr.parse base = .ok e ∧ e.Everywhere Expr.Settled) := by
  obtain ⟨d, hd, hdeclares⟩ := Format.declares_of_firstUse ht hu
  refine ⟨d, hd, hdeclares.name, hdeclares.sizes, ?_⟩
  -- what the read is into, as the table says
  obtain ⟨c, text, hc, htext⟩ :=
    ((Format.schedule_eq_laid h).2 _ _ (Format.part_of_mem_usesFrom hu.mem)).subscripts
  have hget := Table.mem_of_get? hc
  obtain rfl := Table.eq_of_name hget.1 hd (hget.2.trans hdeclares.name.symm)
  have hread : (code.events.filterMap Event.read?)[n]? = some (u.name ++ text) := by
    rw [Format.reads_scheduled h, Format.occurrences_eq_uses, List.map_map, List.getElem?_map, hu.item]
    simp [Format.target, hc, htext]
  have hindices : ∀ index ∈ u.indices, CanonicalText index := fun index hindex =>
    Format.canonicalText_of_read (Format.read_of_parse hf)
      (Format.indices_of_mem_usesFrom f u hu.mem hindex)
  obtain ⟨offsets, hoffsets, htext⟩ := ok_of_bind htext
  obtain rfl := Except.ok.inj htext
  obtain ⟨hlength, hvariable, hiff⟩ :=
    Format.Use.offsets_eq_counters_iff hdeclares.supplied hindices hoffsets
  have hplain : ∀ x ∈ u.suppliers.map (·.counter), '[' ∉ x.toList := by
    intro x hx
    obtain ⟨l, hl, rfl⟩ := List.mem_map.1 hx
    exact (hvariable l hl).no_bracket
  have hcount : (u.suppliers.map (·.counter)).length = offsets.length := by
    rw [List.length_map]
    exact hlength
  have hjoin := join_brackets_inj hplain hcount
  rw [List.map_map] at hjoin
  rw [hread, Decl.bases, List.forall_mem_map, ← hiff, Option.some.injEq, Format.Use.countersText,
    String.append_right_inj, eq_comm]
  exact hjoin

/-- A quotient is taken off one counter, and twice a remainder off the other. -/
def signedOffsets : String :=
  "read N, K; for i upto N \x7b for j upto K \x7b read A[i - N / K][j - 2 * (K % N)]; \x7d \x7d"

theorem schedule_reads_counters_iff_signedOffsets : ∃ f table code,
    Format.parse "format" signedOffsets false = .ok f ∧ f.table = .ok table ∧
      f.schedule table = .ok code ∧
      code.events.filterMap Event.read? = ["N", "K", "A[i][j]"] ∧ ∃ u, f.FirstUse 2 u ∧
        ∃ d ∈ table.decls, d.name = u.name ∧ u.suppliers.map (·.size) = d.sizes ∧
          ∀ base ∈ d.bases, ∃ e, Expr.parse base = .ok e ∧ e.Everywhere Expr.Settled := by
  have hview : described signedOffsets (fun f _ code =>
      ((f.firstUse? 2).map Format.Use.countersText, code.events.filterMap Event.read?)) =
        some (some "A[i][j]", ["N", "K", "A[i][j]"]) := by decide +kernel
  obtain ⟨f, table, code, hf, ht, h, hview⟩ := exists_of_described hview
  obtain ⟨hfirst, hreads⟩ := Prod.mk.inj hview
  obtain ⟨u, hu, htarget⟩ := Option.map_eq_some_iff.1 hfirst
  have hu := Format.firstUse?_eq_some_iff.1 hu
  have hf : Format.parse "format" signedOffsets false = .ok f := Format.parse_eq_ok_iff.2 hf
  obtain ⟨d, hd, hname, hsizes, hiff⟩ := schedule_reads_counters_iff hf ht h hu
  rw [htarget, hreads] at hiff
  exact ⟨f, table, code, hf, ht, h, hreads, u, hu, d, hd, hname, hsizes, hiff.1 rfl⟩

/-- A quotient is taken off a counter that comes before it in canonical order. -/
def signedOffset : String := "read n; for i upto 3 \x7b read A[i - n / 2]; \x7d"

/-- The base is written as `-n / 2`, and read as `(-n) / 2`, which does not cancel. -/
theorem reads_ne_counters_signedOffset : ∃ f table code,
    Format.parse "format" signedOffset false = .ok f ∧ f.table = .ok table ∧
      f.schedule table = .ok code ∧ ∃ u, f.FirstUse 1 u ∧
        u.countersText = "A[i]" ∧
        (code.events.filterMap Event.read?)[1]? = some "A[-(-n) / 2 + i - n / 2]" := by
  have hview : described signedOffset (fun f _ code =>
      ((f.firstUse? 1).map Format.Use.countersText, code.events.filterMap Event.read?)) =
        some (some "A[i]", ["n", "A[-(-n) / 2 + i - n / 2]"]) := by decide +kernel
  obtain ⟨f, table, code, hf, ht, h, hview⟩ := exists_of_described hview
  obtain ⟨hfirst, hreads⟩ := Prod.mk.inj hview
  obtain ⟨u, hu, htarget⟩ := Option.map_eq_some_iff.1 hfirst
  have hu := Format.firstUse?_eq_some_iff.1 hu
  refine ⟨f, table, code, Format.parse_eq_ok_iff.2 hf, ht, h, u, hu, htarget, ?_⟩
  rw [hreads]
  rfl

end ReaderGen
