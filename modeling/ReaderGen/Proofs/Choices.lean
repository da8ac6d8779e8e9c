import ReaderGen.Fragment
import ReaderGen.Proofs.Nesting
import ReaderGen.Proofs.NormalForm
import ReaderGen.Proofs.Placement

/-!
# Choices change only their own lines

How loops, reads and writes are written can be chosen, by name or by a function that may give any text.
Each choice is used for its own statements and for nothing else. So two emitters write the same number of
lines for a code, line by line for the same statements, and lines differ only where a choice for their
statements does. Scheduled code writes nothing, so how writes are written has no bearing on it.

* `Cpp.Emitter.annotated_align`: two emitters, line by line.
* `Code.Silent`: nothing is written; `Format.silent_schedule`: scheduled code is like that.
* `choices_change_own_lines`: which lines of two configurations are the same.
-/

namespace ReaderGen

namespace Cpp

namespace Emitter

/-! ## Two emitters -/

/-- Both emitters write such lines alike. Declarations and the ends of loops cannot be chosen. -/
def Alike (e₁ e₂ : Emitter) : Origin → Prop
  | .decl | .close | .line => True
  | .read => e₁.scan = e₂.scan
  | .write => e₁.print = e₂.print
  | .header => e₁.header = e₂.header

/-- Two lines are written for the same, and are the same if both emitters write such lines alike. -/
def Aligned (e₁ e₂ : Emitter) (l₁ l₂ : Line) : Prop :=
  l₁.origin = l₂.origin ∧ (Alike e₁ e₂ l₁.origin → l₁.text = l₂.text)

theorem Aligned.refl (e₁ e₂ : Emitter) (l : Line) : Aligned e₁ e₂ l l := ⟨rfl, fun _ => rfl⟩

section

variable {e₁ e₂ : Emitter} (hstd : e₁.std = e₂.std) (hscalar : e₁.scalar = e₂.scalar)
include hstd hscalar

theorem groups_congr (decls : List Decl) : e₁.groups decls = e₂.groups decls := by
  induction decls with
  | nil => rfl
  | cons d ds ih => rw [groups, groups, ih, hstd, hscalar]

/-- Line by line, both emitters write a code for the same statements. -/
theorem annotated_align (depth : Nat) (code : Code) :
    List.Forall₂ (Aligned e₁ e₂) (e₁.annotated depth code) (e₂.annotated depth code) := by
  induction code using Code.rec
    (motive_2 := fun cs => ∀ depth,
      List.Forall₂ (Aligned e₁ e₂) (e₁.allAnnotated depth cs) (e₂.allAnnotated depth cs))
    generalizing depth with
  | decl decls =>
    rw [annotated, annotated, groups_congr hstd hscalar]
    exact List.forall₂_same.2 fun l _ => Aligned.refl e₁ e₂ l
  | read targets => exact .cons ⟨rfl, fun h => congrFun h targets⟩ .nil
  | write exprs => exact .cons ⟨rfl, fun h => congrFun h exprs⟩ .nil
  | line text => exact .cons (Aligned.refl e₁ e₂ _) .nil
  | block nodes ih => exact ih depth
  | loop counter size body ih =>
    have hheader : Alike e₁ e₂ .header →
        e₁.header counter size ++ " \x7b" = e₂.header counter size ++ " \x7b" := by
      intro h
      rw [show e₁.header = e₂.header from h]
    have hclose := List.Forall₂.cons (Aligned.refl e₁ e₂ ⟨.close, depth, "\x7d"⟩) .nil
    exact .cons ⟨rfl, hheader⟩ (List.rel_append (ih (depth + 1)) hclose)
  | nil => exact .nil
  | cons c cs ihc ihcs _ => exact List.rel_append (ihc _) (ihcs _)

theorem origins_congr (code : Code) :
    (e₁.annotated 0 code).map (·.origin) = (e₂.annotated 0 code).map (·.origin) := by
  rw [← List.forall₂_eq_eq_eq, List.forall₂_map_left_iff, List.forall₂_map_right_iff]
  exact (annotated_align hstd hscalar 0 code).imp fun _ _ h => h.1

/-- At a position for which both emitters write alike they write the same line. -/
theorem getElem?_lines_of_alike {code : Code} {i : Nat} {l : Line}
    (hl : (e₁.annotated 0 code)[i]? = some l) (h : Alike e₁ e₂ l.origin) :
    (e₁.lines code)[i]? = (e₂.lines code)[i]? := by
  have halign := annotated_align hstd hscalar 0 code
  obtain ⟨hi, rfl⟩ := List.getElem?_eq_some_iff.1 hl
  have hi' : i < (e₂.annotated 0 code).length := halign.length_eq ▸ hi
  obtain ⟨-, htext⟩ := halign.get hi hi'
  rw [← text_annotated e₁ 0, ← text_annotated e₂ 0, List.getElem?_map, List.getElem?_map, hl,
    List.getElem?_eq_getElem hi']
  exact congrArg some (htext h)

theorem length_lines_congr (code : Code) : (e₁.lines code).length = (e₂.lines code).length := by
  rw [← text_annotated e₁ 0, ← text_annotated e₂ 0, List.length_map, List.length_map]
  exact (annotated_align hstd hscalar 0 code).length_eq

/-- If both emitters write all lines of a code alike, they write the same lines. -/
theorem lines_eq_of_alike {code : Code} (h : ∀ l ∈ e₁.annotated 0 code, Alike e₁ e₂ l.origin) :
    e₁.lines code = e₂.lines code := by
  refine List.ext_getElem? fun i => ?_
  cases hl : (e₁.annotated 0 code)[i]? with
  | some l => exact getElem?_lines_of_alike hstd hscalar hl (h l (List.mem_of_getElem? hl))
  | none =>
    -- both end here
    have hlength := length_lines_congr hstd hscalar code
    have hi := List.getElem?_eq_none_iff.1 hl
    rw [← List.length_map (f := Line.text), text_annotated] at hi
    rw [List.getElem?_eq_none hi, List.getElem?_eq_none (hlength ▸ hi)]

end

end Emitter

end Cpp

/-! ## Code that writes nothing -/

namespace Code

mutual

/-- There is no statement in the code that writes. -/
def Silent : Code → Prop
  | write _ => False
  | block nodes => AllSilent nodes
  | loop _ _ body => Silent body
  | decl _ | read _ | line _ => True

def AllSilent : List Code → Prop
  | [] => True
  | c :: cs => Silent c ∧ AllSilent cs

end

theorem allSilent_iff {cs : List Code} : AllSilent cs ↔ ∀ c ∈ cs, c.Silent := by
  induction cs with
  | nil => simp [AllSilent]
  | cons c cs ih => simp [AllSilent, ih]

theorem hereditary_silent : Hereditary Silent where
  block := allSilent_iff
  loop := Iff.rfl
  merge {a b c} h ha _ := by
    unfold merge? at h
    split at h
    · cases h; trivial
    · cases h; trivial
    · exact ha.elim
    · cases h

theorem silent_preceded {decls : List Decl} {code : Code} (h : code.Silent) :
    (preceded decls code).Silent := by
  unfold preceded
  split
  · exact h
  · exact ⟨trivial, h, trivial⟩

/-- None of its lines is written for a statement that writes. -/
theorem Silent.origin_ne_write {code : Code} (h : code.Silent) (e : Cpp.Emitter) (depth : Nat) :
    ∀ l ∈ e.annotated depth code, l.origin ≠ .write := by
  induction code using Code.rec
    (motive_2 := fun cs => AllSilent cs → ∀ depth, ∀ l ∈ e.allAnnotated depth cs, l.origin ≠ .write)
    generalizing depth with
  | decl decls =>
    intro l hl
    obtain ⟨g, -, rfl⟩ := List.mem_map.1 hl
    exact Cpp.Emitter.Origin.noConfusion
  | read targets | line text =>
    intro l hl
    rw [List.mem_singleton.1 hl]
    exact Cpp.Emitter.Origin.noConfusion
  | write exprs => exact h.elim
  | block nodes ih => exact ih h depth
  | loop counter size body ih =>
    intro l hl
    rcases List.mem_append.1 hl with hl | hl
    · rcases List.mem_cons.1 hl with rfl | hl
      · exact Cpp.Emitter.Origin.noConfusion
      · exact ih h (depth + 1) l hl
    · rw [List.mem_singleton.1 hl]
      exact Cpp.Emitter.Origin.noConfusion
  | nil h depth l hl => cases hl
  | cons c cs ihc ihcs h depth l hl =>
    rcases List.mem_append.1 hl with hl | hl
    · exact ihc h.1 depth l hl
    · exact ihcs h.2 depth l hl

end Code

namespace Format

mutual

theorem silent_laid (due : Site → List Decl) (target : String → List String → String) :
    ∀ (f : Format) (s : Site), (f.laid due target s).Silent
  | .item .., _ | .newline, _ => Code.silent_preceded trivial
  | .sequence items, s => Code.silent_preceded (silent_laidAll due target items s.next)
  | .loop counter _ body, s => Code.silent_preceded (silent_laid due target body (s.enter counter))

theorem silent_laidAll (due : Site → List Decl) (target : String → List String → String) :
    ∀ (fs : List Format) (s : Site), Code.AllSilent (laidAll due target fs s)
  | [], _ => trivial
  | f :: fs, s => ⟨silent_laid due target f s, silent_laidAll due target fs (f.after s)⟩

end

/-- Scheduled code declares and reads, but writes nothing. -/
theorem silent_schedule {f : Format} {table : Table} {code : Code} (h : f.schedule table = .ok code) :
    code.Silent := by
  rw [(schedule_eq_laid h).1]
  exact silent_laid _ _ f .start

end Format

/-! ## Two configurations -/

namespace Cpp

/-- The configurations make the same choice for such lines. -/
def Config.SameFor (c₁ c₂ : Config) : Emitter.Origin → Prop
  | .decl | .close | .line => True
  | .read => c₁.scanner = c₂.scanner
  | .write => c₁.printer = c₂.printer
  | .header => c₁.loop = c₂.loop

namespace Config

variable {c₁ c₂ : Config} {e₁ e₂ : Emitter} (he₁ : c₁.emitter? = .ok e₁) (he₂ : c₂.emitter? = .ok e₂)
include he₁ he₂

theorem std_congr (h : c₁.qualified = c₂.qualified) : e₁.std = e₂.std := by
  obtain ⟨-, -, -, hstd₁, -⟩ := of_emitter? he₁
  obtain ⟨-, -, -, hstd₂, -⟩ := of_emitter? he₂
  rw [hstd₁, hstd₂, Config.std, Config.std, h]

theorem scalar_congr (h : c₁.scalar = c₂.scalar) : e₁.scalar = e₂.scalar := by
  obtain ⟨-, -, -, -, hscalar₁, -⟩ := of_emitter? he₁
  obtain ⟨-, -, -, -, hscalar₂, -⟩ := of_emitter? he₂
  rw [hscalar₁, hscalar₂, h]

/-- What is chosen alike is written alike. -/
theorem alike_of_sameFor (hscalar : c₁.scalar = c₂.scalar) (hqualified : c₁.qualified = c₂.qualified)
    {o : Emitter.Origin} (h : c₁.SameFor c₂ o) : e₁.Alike e₂ o := by
  obtain ⟨hheader₁, hscan₁, hprint₁, -⟩ := of_emitter? he₁
  obtain ⟨hheader₂, hscan₂, hprint₂, -⟩ := of_emitter? he₂
  have hstd : c₁.std = c₂.std := by rw [Config.std, Config.std, hqualified]
  cases o with
  | decl | close | line => trivial
  | read =>
    rw [show c₁.scanner = c₂.scanner from h, hstd, hscalar, hscan₂] at hscan₁
    exact (Except.ok.inj hscan₁).symm
  | write =>
    rw [show c₁.printer = c₂.printer from h, hstd, hscalar, hprint₂] at hprint₁
    exact (Except.ok.inj hprint₁).symm
  | header =>
    rw [show c₁.loop = c₂.loop from h, hheader₂] at hheader₁
    exact (Except.ok.inj hheader₁).symm

end Config

/-- With another valid printer an emitter only writes differently, and a fault stays the same. -/
theorem Config.emitter?_printer {config : Config} {printer : Choice (List String → String)}
    {f g : List String → String} (hf : print? config.std config.scalar.spec config.printer = .ok f)
    (hg : print? config.std config.scalar.spec printer = .ok g) :
    ({ config with printer } : Config).emitter? =
      config.emitter?.map fun e => { e with print := g } := by
  have hstd : ({ config with printer } : Config).std = config.std := rfl
  unfold emitter?
  simp only [hstd, hf, hg]
  -- the printer is looked up last, so that other faults come first
  cases header? config.loop with
  | error e => rfl
  | ok header =>
    cases scan? config.std config.scalar.spec config.scanner with
    | error e => rfl
    | ok scan => rfl

/-- How writes are written does not matter for code that writes nothing. -/
theorem Emitter.lines_print {e : Emitter} {code : Code} (h : code.Silent)
    (print : List String → String) : ({ e with print } : Emitter).lines code = e.lines code := by
  apply lines_eq_of_alike
  · rfl
  · rfl
  · intro l hl
    have hwrite := h.origin_ne_write _ 0 l hl
    cases ho : l.origin with
    | write => exact absurd ho hwrite
    | decl | close | line => trivial
    | read | header => exact rfl

end Cpp

/-- How writes are written has no bearing on the code that reads. -/
theorem Fragment.inputReading_printer {config : Cpp.Config}
    {printer : Cpp.Choice (List String → String)} {f g : List String → String}
    (hf : Cpp.Config.print? config.std config.scalar.spec config.printer = .ok f)
    (hg : Cpp.Config.print? config.std config.scalar.spec printer = .ok g)
    (counting : Layout.Counting) (format : Format) (table : Table) (nest : UInt64) :
    inputReading counting format table { config with printer } nest =
      inputReading counting format table config nest := by
  unfold inputReading
  rw [Cpp.Config.emitter?_printer hf hg]
  cases config.emitter? with
  | error e => rfl
  | ok e =>
    cases hcode : format.schedule table with
    | error err => rfl
    | ok code =>
      have hsilent := Code.hereditary_silent.optimize (Format.silent_schedule hcode)
      show indented (Layout.render? _ _ _ _) = indented (Layout.render? _ _ _ _)
      rw [Cpp.Emitter.lines_print hsilent g]

/-- Configurations with the same scalars and the same names of the library write the same number of lines
for a code, line by line for the same statements. Lines can only differ where loops, reads or writes are
chosen differently and the line is written for one. So the code that reads does not depend on how writes
are written. This holds of all choices, functions among them. -/
theorem choices_change_own_lines :
    (∀ (c₁ c₂ : Cpp.Config) (e₁ e₂ : Cpp.Emitter), c₁.emitter? = .ok e₁ → c₂.emitter? = .ok e₂ →
      c₁.scalar = c₂.scalar → c₁.qualified = c₂.qualified → ∀ code : Code,
        (e₁.lines code).length = (e₂.lines code).length ∧
        (e₁.annotated 0 code).map (·.text) = e₁.lines code ∧
        (e₂.annotated 0 code).map (·.text) = e₂.lines code ∧
        (e₁.annotated 0 code).map (·.origin) = (e₂.annotated 0 code).map (·.origin) ∧
        ∀ (i : Nat) (l : Cpp.Emitter.Line), (e₁.annotated 0 code)[i]? = some l →
          c₁.SameFor c₂ l.origin → (e₁.lines code)[i]? = (e₂.lines code)[i]?) ∧
    ∀ (config : Cpp.Config) (printer : Cpp.Choice (List String → String)),
      (∃ f, Cpp.Config.print? config.std config.scalar.spec config.printer = .ok f) →
      (∃ g, Cpp.Config.print? config.std config.scalar.spec printer = .ok g) →
      ∀ (counting : Layout.Counting) (format : Format) (table : Table) (nest : UInt64),
        Fragment.inputReading counting format table { config with printer } nest =
          Fragment.inputReading counting format table config nest := by
  constructor
  · intro c₁ c₂ e₁ e₂ he₁ he₂ hscalar hqualified code
    have hstd := Cpp.Config.std_congr he₁ he₂ hqualified
    have hscalar' := Cpp.Config.scalar_congr he₁ he₂ hscalar
    refine ⟨Cpp.Emitter.length_lines_congr hstd hscalar' code, e₁.text_annotated 0 code,
      e₂.text_annotated 0 code, Cpp.Emitter.origins_congr hstd hscalar' code, fun i l hl hsame => ?_⟩
    exact Cpp.Emitter.getElem?_lines_of_alike hstd hscalar' hl
      (Cpp.Config.alike_of_sameFor he₁ he₂ hscalar hqualified hsame)
  · intro config printer ⟨f, hf⟩ ⟨g, hg⟩ counting format table nest
    exact Fragment.inputReading_printer hf hg counting format table nest

/-- Loops are calls of `REP`, a function is called to read, and a level is a tab. -/
def readerConfig : Cpp.Config where
  loop := .named "REP"
  scanner := .custom fun targets => "read(" ++ ", ".intercalate targets ++ ");"
  indent := "\t"

/-- Declarations of two types, and reads and writes in and out of a loop. -/
def echoingCode : Code :=
  .block [.decl [⟨"N", [], .empty⟩, ⟨"M", [], .empty⟩, ⟨"A", [⟨"N", "0"⟩], .empty⟩], .read ["N", "M"],
    .loop "i" "N" (.block [.read ["A[i]"], .write ["A[i]"]]), .line "// done"]

/-- `read N; for i upto N { read A[i]; }` -/
def arrayFormat : Format :=
  .sequence [.item "N" [], .loop "i" "N" (.item "A" ["i"])]

def arrayTable : Table :=
  ⟨[⟨"N", [], .empty⟩, ⟨"A", [⟨"N", "0"⟩], .ofList ["N"]⟩], by decide⟩

/-- Reads and the loop are written differently, and the rest is the same. -/
theorem choices_change_own_lines_echoing : ∃ e₁ e₂, ({} : Cpp.Config).emitter? = .ok e₁ ∧
    readerConfig.emitter? = .ok e₂ ∧
    e₁.lines echoingCode = ["int N, M;", "vector<int> A(N);", "scanf(\"%d%d\", &N, &M);",
      "for (int i = 0; i < N; ++i) \x7b", "scanf(\"%d\", &A[i]);", "printf(\"%d\\n\", A[i]);",
      "\x7d", "// done"] ∧
    e₂.lines echoingCode = ["int N, M;", "vector<int> A(N);", "read(N, M);", "REP (i, N) \x7b",
      "read(A[i]);", "printf(\"%d\\n\", A[i]);", "\x7d", "// done"] ∧
    (e₂.annotated 0 echoingCode).map (·.origin) =
      [.decl, .decl, .read, .header, .read, .write, .close, .line] ∧
    (e₁.lines echoingCode)[5]? = (e₂.lines echoingCode)[5]? ∧
    Fragment.inputReading .checked arrayFormat arrayTable { readerConfig with printer := .named "cout" } 0 =
      .ok "int N;\nread(N);\nvector<int> A(N);\nREP (i, N) \x7b\n\tread(A[i]);\n\x7d" := by
  obtain ⟨hlines, hreading⟩ := choices_change_own_lines
  obtain ⟨-, -, -, horigins, hline⟩ := hlines {} readerConfig _ _ rfl rfl rfl rfl echoingCode
  refine ⟨_, _, rfl, rfl, by decide, by decide, horigins.symm.trans rfl, hline 5 _ rfl rfl, ?_⟩
  rw [hreading readerConfig (.named "cout") ⟨_, rfl⟩ ⟨_, rfl⟩]
  exact ok_of_toOption (by decide +kernel)

end ReaderGen
