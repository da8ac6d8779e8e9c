import ReaderGen.Proofs.Meaning
import ReaderGen.Proofs.Placement

/-!
# Scheduled code reads what the format describes

Without its declarations and blocks, the code of a format is the format: the same loops in the same
order, and where the format has an item, a read of the place where that item is kept. An array is kept
from its smallest index on, so each subscript is an index less the base of its dimension.

* `Steps`: reads and loops, with nothing else around them; `Format.steps`, `Code.steps`.
* `Steps.unroll`: the reads in the order in which they happen, for any numbers of rounds.
* `Table.Keeps`: a text names the place where an item is kept.
* `schedule_reads_format`: the code of a format takes the same steps as the format.
-/

namespace ReaderGen

/-! ## Steps -/

/-- Reads and loops, one after the other. -/
inductive Steps (α : Type)
  | done
  | read (a : α) (next : Steps α)
  | loop (counter size : String) (body next : Steps α)
  /-- Something that is neither a read nor a loop. -/
  | other (next : Steps α)
deriving DecidableEq

namespace Steps

variable {α β : Type}

/-- The same loops, with other things to read. -/
def map (g : α → β) : Steps α → Steps β
  | done => done
  | read a next => read (g a) (next.map g)
  | loop counter size body next => loop counter size (body.map g) (next.map g)
  | other next => other (next.map g)

end Steps

namespace Format

mutual

/-- The steps of a format, and then others. -/
def stepsThen : Format → Steps (String × List String) → Steps (String × List String)
  | .item name indices, next => .read (name, indices) next
  | .newline, next => next
  | .sequence items, next => stepsThenAll items next
  | .loop counter size body, next => .loop counter size (stepsThen body .done) next

def stepsThenAll : List Format → Steps (String × List String) → Steps (String × List String)
  | [], next => next
  | f :: fs, next => stepsThen f (stepsThenAll fs next)

end

/-- The items of a format and the loops around them. -/
def steps (f : Format) : Steps (String × List String) := f.stepsThen .done

end Format

namespace Code

mutual

/-- The steps of a code, and then others. Declarations are left out, and blocks opened up. -/
def stepsThen : Code → Steps (List String) → Steps (List String)
  | decl _, next => next
  | read targets, next => .read targets next
  | block nodes, next => stepsThenAll nodes next
  | loop counter size body, next => .loop counter size (stepsThen body .done) next
  | write _, next => .other next
  | line _, next => .other next

def stepsThenAll : List Code → Steps (List String) → Steps (List String)
  | [], next => next
  | c :: cs, next => stepsThen c (stepsThenAll cs next)

end

/-- The reads of a code and the loops around them. -/
def steps (code : Code) : Steps (List String) := code.stepsThen .done

theorem stepsThen_preceded (decls : List Decl) (code : Code) (next : Steps (List String)) :
    (preceded decls code).stepsThen next = code.stepsThen next := by
  cases decls <;> rfl

end Code

/-! ## Code laid out along a format takes its steps -/

namespace Format

variable (due : Site → List Decl) (target : String → List String → String)

mutual

theorem stepsThen_laid : ∀ (f : Format) (s : Site) (next : Steps (String × List String)),
    (f.laid due target s).stepsThen (next.map fun item => [target item.1 item.2]) =
      (f.stepsThen next).map fun item => [target item.1 item.2]
  | .item .., _, _ | .newline, _, _ => by
    rw [laid, Code.stepsThen_preceded]
    rfl
  | .sequence items, s, next => by
    rw [laid, Code.stepsThen_preceded]
    exact stepsThenAll_laidAll items s.next next
  | .loop counter size body, s, next => by
    have hbody := stepsThen_laid body (s.enter counter) .done
    rw [laid, Code.stepsThen_preceded, Code.stepsThen, stepsThen, Steps.map, ← hbody]
    rfl

theorem stepsThenAll_laidAll : ∀ (fs : List Format) (s : Site)
    (next : Steps (String × List String)),
    Code.stepsThenAll (laidAll due target fs s) (next.map fun item => [target item.1 item.2]) =
      (stepsThenAll fs next).map fun item => [target item.1 item.2]
  | [], _, _ => rfl
  | f :: fs, s, next => by
    rw [laidAll, Code.stepsThenAll, stepsThenAll_laidAll fs (f.after s) next, stepsThenAll]
    exact stepsThen_laid f s (stepsThenAll fs next)

end

end Format

/-! ## Unrolling -/

/-- A counter stands for the number of the round. -/
def Valuation.inRound (v : Valuation) (counter : String) (k : Nat) : Valuation :=
  { v with var := fun x => if x = counter then k else v.var x }

namespace Steps

variable {α β : Type}

/-- The reads of some steps after others, in the order in which they happen, each with what the
counters stand for. How often a loop is taken may depend on the reads before it, by their number, on
the counters around it, and on its size. -/
def unroll (rounds : Nat → Valuation → String → Nat) :
    Steps α → Valuation → List (Valuation × α) → List (Valuation × α)
  | done, _, reads => reads
  | read a next, v, reads => next.unroll rounds v (reads ++ [(v, a)])
  | loop counter size body next, v, reads =>
    next.unroll rounds v ((List.range (rounds reads.length v size)).foldl
      (fun reads k => body.unroll rounds (v.inRound counter k) reads) reads)
  | other next, v, reads => next.unroll rounds v reads

/-- The same loops with other things to read unroll to the same rounds. -/
theorem unroll_map (rounds : Nat → Valuation → String → Nat) (g : α → β) (steps : Steps α)
    (v : Valuation) (reads : List (Valuation × α)) :
    (steps.map g).unroll rounds v (reads.map (Prod.map id g)) =
      (steps.unroll rounds v reads).map (Prod.map id g) := by
  induction steps generalizing v reads with
  | done => rfl
  | read a next ih =>
    rw [map, unroll, unroll, ← ih, List.map_append]
    rfl
  | loop counter size body next ihb ihn =>
    -- the number of rounds is the same, as there are as many reads before
    have hrounds : ∀ (ks : List Nat) (reads : List (Valuation × α)),
        ks.foldl (fun reads k => (body.map g).unroll rounds (v.inRound counter k) reads)
            (reads.map (Prod.map id g)) =
          (ks.foldl (fun reads k => body.unroll rounds (v.inRound counter k) reads) reads).map
            (Prod.map id g) := by
      intro ks
      induction ks with
      | nil => intro reads; rfl
      | cons k ks ih =>
        intro reads
        rw [List.foldl_cons, List.foldl_cons, ihb]
        exact ih _
    rw [map, unroll, unroll, List.length_map, hrounds, ihn]
  | other next ih =>
    rw [map, unroll, unroll, ih]

end Steps

/-! ## Where items are kept -/

/-- A text names the place where an item is kept: the variable with a subscript for each index that
has a base, worth the index less the base wherever both have a value. -/
def Table.Keeps (table : Table) (item : String × List String) (text : String) : Prop :=
  ∃ (d : Decl) (offsets : List String), table.get? item.1 = some d ∧
    text = item.1 ++ String.join (offsets.map fun s => "[" ++ s ++ "]") ∧
    offsets.length = min item.2.length d.bases.length ∧
    ∀ (k : Nat) (index base s : String), item.2[k]? = some index → d.bases[k]? = some base →
      offsets[k]? = some s → ∀ v x y, textValue? v index = some x →
        textValue? v base = some y → textValue? v s = some (x - y)

/-- The subscripts of an item are its indices less the bases. -/
theorem Format.subscripts_eq_ok {indices bases : List String} {text : String}
    (h : subscripts indices bases = .ok text) :
    ∃ offsets : List String, text = String.join (offsets.map fun s => "[" ++ s ++ "]") ∧
      offsets.length = min indices.length bases.length ∧
      ∀ (k : Nat) (index base s : String), indices[k]? = some index → bases[k]? = some base →
        offsets[k]? = some s → simplify (index ++ " - (" ++ base ++ ")") = .ok s := by
  obtain ⟨offsets, ho, h⟩ := ok_of_bind h
  obtain ⟨hlen, hall⟩ := ok_of_mapM ho
  refine ⟨offsets, (Except.ok.inj h).symm, by rw [hlen, List.length_zip], ?_⟩
  intro k index base s hindex hbase hs
  exact hall k (index, base) s (List.getElem?_zip_eq_some.2 ⟨hindex, hbase⟩) hs

/-- The code of a format takes the same steps as the format, and reads each item into the place where
it is kept. So however often the loops are taken, it reads the same items in the same order. -/
theorem schedule_reads_format {f : Format} {table : Table} {code : Code}
    (hindices : ∀ item ∈ f.items, ∀ index ∈ item.2, CanonicalText index)
    (hbases : ∀ d ∈ table.decls, ∀ base ∈ d.bases, CanonicalText base)
    (h : f.schedule table = .ok code) :
    ∃ place : String × List String → String,
      (∀ item ∈ f.items, table.Keeps item (place item)) ∧
      code.steps = f.steps.map (fun item => [place item]) ∧
      ∀ rounds v, code.steps.unroll rounds v [] =
        (f.steps.unroll rounds v []).map (Prod.map id fun item => [place item]) := by
  obtain ⟨hcode, hfound⟩ := Format.schedule_eq_laid h
  have hsteps : code.steps = f.steps.map fun item => [Format.target table item.1 item.2] := by
    rw [hcode]
    exact Format.stepsThen_laid (table.due f.sites) (Format.target table) f .start .done
  refine ⟨fun item => Format.target table item.1 item.2, fun item hitem => ?_, hsteps,
    fun rounds v => ?_⟩
  · obtain ⟨⟨t, _⟩, hpart, rfl⟩ := List.mem_filterMap.1 hitem
    obtain ⟨d, text, hd, htext⟩ := (hfound t item hpart).subscripts
    obtain ⟨offsets, rfl, hlen, hoffsets⟩ := Format.subscripts_eq_ok htext
    refine ⟨d, offsets, hd, by simp only [Format.target, hd, htext], hlen, ?_⟩
    intro k index base s hindex hbase hs v x y hx hy
    have hci := hindices item hitem index (List.mem_of_getElem? hindex)
    have hcb := hbases d (Table.mem_of_get? hd).1 base (List.mem_of_getElem? hbase)
    exact textValue?_simplify_difference hci hcb (hoffsets k index base s hindex hbase hs) hx hy
  · rw [hsteps]
    exact Steps.unroll_map rounds _ f.steps v []

/-- `read M; for i upto 3 { read A[-M + i + 1][i]; }`, the ends of the lines left out. -/
def shiftedFormat : Format :=
  .sequence [.item "M" [], .loop "i" "3" (.item "A" ["-M + i + 1", "i"])]

/-- Of the two indices of `A`, one has a base. -/
def shiftedTable : Table :=
  ⟨[⟨"M", [], .empty⟩, ⟨"A", [⟨"3", "-M + 1"⟩], .ofList ["M"]⟩], by decide⟩

def shiftedCode : Code :=
  .block [.decl [⟨"M", [], .empty⟩], .block [.read ["M"],
    .block [.decl [⟨"A", [⟨"3", "-M + 1"⟩], .ofList ["M"]⟩], .loop "i" "3" (.read ["A[i]"])]]]

/-- The base has a sign and a sum in it, and still what is left of the index is `i`. -/
theorem schedule_reads_format_shifted :
    (∀ item ∈ shiftedFormat.items, ∀ index ∈ item.2, CanonicalText index) ∧
      (∀ d ∈ shiftedTable.decls, ∀ base ∈ d.bases, CanonicalText base) ∧
      shiftedFormat.schedule shiftedTable = .ok shiftedCode ∧
      ∃ place : String × List String → String,
        (∀ item ∈ shiftedFormat.items, shiftedTable.Keeps item (place item)) ∧
        shiftedCode.steps = shiftedFormat.steps.map (fun item => [place item]) ∧
        ∀ rounds v, shiftedCode.steps.unroll rounds v [] =
          (shiftedFormat.steps.unroll rounds v []).map (Prod.map id fun item => [place item]) := by
  have hsum : CanonicalText "-M + i + 1" := by
    refine .inl ⟨.binary .add (.binary .sub (.int 1 "1") (.name "M")) (.name "i"), ?_, ?_⟩
    · intro x hx
      rw [Expr.parse_eq_name_iff]
      revert x
      decide +kernel
    · exact ok_of_toOption (by decide +kernel)
  have hcounter : CanonicalText "i" := .inr ⟨"i + N", "N", ok_of_toOption (by decide +kernel)⟩
  have hbase : CanonicalText "-M + 1" :=
    .inr ⟨"-M + i + 1", "i", ok_of_toOption (by decide +kernel)⟩
  have hindices : ∀ item ∈ shiftedFormat.items, ∀ index ∈ item.2, CanonicalText index := by
    simp [shiftedFormat, Format.items, Format.parts, Format.partsAll, hsum, hcounter]
  have hbases : ∀ d ∈ shiftedTable.decls, ∀ base ∈ d.bases, CanonicalText base := by
    simp [shiftedTable, Decl.bases, hbase]
  have h : shiftedFormat.schedule shiftedTable = .ok shiftedCode :=
    ok_of_toOption (by decide +kernel)
  exact ⟨hindices, hbases, h, schedule_reads_format hindices hbases h⟩

end ReaderGen
