import ReaderGen.Cpp.Emit
import ReaderGen.Proofs.Capacity
import ReaderGen.Proofs.Events
import ReaderGen.Proofs.Reading

/-!
# Indentation shows the loops

Lines are indented by the braces at their ends, without a look at the code they were written for. Of the
lines that are written, only the header of a loop ends with an opening brace, and only the end of a loop
begins with a closing one, whatever names, sizes and expressions are put into them. So the braces are
those of the loops, and each line is indented by as many levels as there are loops around it.

* `Layout.Flat`: the lines that leave the level as it is.
* `Cpp.Emitter.annotated`: the lines of a code, each with what it is written for and the number of loops
  around it.
* `Cpp.Emitter.BracesLoops`: what has to be known of the statements; `Cpp.Config.bracesLoops`: the
  statements that can be chosen by name have it.
* `render_eq_nested`: a line is indented by the loops around it.
-/

namespace ReaderGen

/-! ## Levels -/

namespace Layout

theorem times_eq_join (n : Nat) (text : String) :
    times n text = String.join (List.replicate n text) := by
  unfold times
  split
  · rename_i h
    rw [String.isEmpty_iff.1 h]
    induction n with
    | zero => rfl
    | succ n ih => simp [List.replicate_succ, ← ih]
  · rfl

/-- The line begins with no closing and ends with no opening brace. -/
structure Flat (line : String) : Prop where
  not_closes : closes line = false
  not_opens : opens line = false

theorem closes_append {a : String} (h : a ≠ "") (b : String) : closes (a ++ b) = closes a := by
  obtain ⟨c, cs, hcs⟩ := List.exists_cons_of_ne_nil (mt String.toList_eq_nil_iff.1 h)
  simp [closes, hcs]

theorem opens_append (a : String) {b : String} (h : b ≠ "") : opens (a ++ b) = opens b := by
  have hb : b.toList ≠ [] := mt String.toList_eq_nil_iff.1 h
  simp [opens, List.getLast?_append, List.getLast?_eq_some_getLast hb]

/-- A flat line is on the level of the lines before it, and leaves it. -/
theorem Flat.level {line : String} (h : Flat line) (nest : Nat) :
    levelOf nest line = nest ∧ levelAfter nest line = nest := by
  simp [levelAfter, levelOf, h.not_closes, h.not_opens]

theorem levels_flat {lines : List String} (h : ∀ line ∈ lines, Flat line) (nest : Nat) :
    lines.foldl levelAfter nest = nest ∧ levels nest lines = lines.map fun _ => nest := by
  induction lines with
  | nil => exact ⟨rfl, rfl⟩
  | cons line lines ih =>
    obtain ⟨hof, hafter⟩ := (h line (.head _)).level nest
    have hrest := ih fun l hl => h l (.tail _ hl)
    rw [List.foldl_cons, levels, hof, hafter]
    exact ⟨hrest.1, congrArg _ hrest.2⟩

end Layout

open Layout

namespace Cpp

/-- A code tree as indented text, the levels unbounded. -/
def Emitter.render (e : Emitter) (code : Code) (nest : Nat) : String :=
  Layout.render e.indent nest (e.lines code)

/-! ## Lines and what they are written for -/

/-- What a line is written for. -/
inductive Emitter.Origin
  | decl
  | read
  | write
  /-- The beginning of a loop. -/
  | header
  /-- The end of a loop. -/
  | close
  /-- The line stands in the code as it is. -/
  | line
deriving DecidableEq, Repr

/-- A line, what it is written for, and the number of loops around that. -/
structure Emitter.Line where
  origin : Origin
  depth : Nat
  text : String
deriving DecidableEq, Repr

namespace Emitter

mutual

/-- The lines of a code that stands in `depth` loops. The first and the last line of a loop are written
for the loop itself. -/
def annotated (e : Emitter) (depth : Nat) : Code → List Line
  | .decl decls => (e.groups decls).map fun g => ⟨.decl, depth, g.line⟩
  | .read targets => [⟨.read, depth, e.scan targets⟩]
  | .write exprs => [⟨.write, depth, e.print exprs⟩]
  | .block nodes => allAnnotated e depth nodes
  | .loop counter size body =>
    ⟨.header, depth, e.header counter size ++ " \x7b"⟩ :: annotated e (depth + 1) body ++
      [⟨.close, depth, "\x7d"⟩]
  | .line text => [⟨.line, depth, text⟩]

def allAnnotated (e : Emitter) (depth : Nat) : List Code → List Line
  | [] => []
  | node :: rest => annotated e depth node ++ allAnnotated e depth rest

end

/-- They are the lines of the code. -/
theorem text_annotated (e : Emitter) (depth : Nat) (code : Code) :
    (e.annotated depth code).map (·.text) = e.lines code := by
  induction code using Code.rec
    (motive_2 := fun cs => ∀ depth, (e.allAnnotated depth cs).map (·.text) = e.allLines cs)
    generalizing depth with
  | decl decls => simp [annotated, lines]
  | read targets | write exprs | line text => rfl
  | block nodes ih => exact ih depth
  | loop counter size body ih => simp [annotated, lines, ih]
  | nil => rfl
  | cons c cs ihc ihcs => rw [allAnnotated, allLines, List.map_append, ihc, ihcs]

/-! ## Braces and loops -/

/-- Only loops have braces at the ends of their lines. -/
structure BracesLoops (e : Emitter) : Prop where
  header : ∀ counter size, closes (e.header counter size ++ " \x7b") = false
  scan : ∀ targets, Flat (e.scan targets)
  print : ∀ exprs, Flat (e.print exprs)
  decls : ∀ decls, ∀ g ∈ e.groups decls, Flat g.line

/-- The lines of a code leave the level as it was, and the level of each of them is given by the loops
around it. -/
theorem BracesLoops.levels_lines {e : Emitter} (h : e.BracesLoops) (nest depth : Nat) {code : Code}
    (hlines : ∀ text, .line text ∈ code.events → Flat text) :
    (e.lines code).foldl levelAfter (nest + depth) = nest + depth ∧
      levels (nest + depth) (e.lines code) = (e.annotated depth code).map (nest + ·.depth) := by
  induction code using Code.rec
    (motive_2 := fun cs => ∀ depth, (∀ text, .line text ∈ Code.eventsAll cs → Flat text) →
      (e.allLines cs).foldl levelAfter (nest + depth) = nest + depth ∧
        levels (nest + depth) (e.allLines cs) = (e.allAnnotated depth cs).map (nest + ·.depth))
    generalizing depth with
  | decl decls =>
    have hflat : ∀ line ∈ (e.groups decls).map Group.line, Flat line := by
      intro line hline
      obtain ⟨g, hg, rfl⟩ := List.mem_map.1 hline
      exact h.decls decls g hg
    obtain ⟨hlevel, hlevels⟩ := levels_flat hflat (nest + depth)
    exact ⟨hlevel, hlevels.trans (by simp [annotated])⟩
  | read targets => exact levels_flat (by simpa [lines] using h.scan targets) _
  | write exprs => exact levels_flat (by simpa [lines] using h.print exprs) _
  | line text => exact levels_flat (by simpa [lines] using hlines text (.head _)) _
  | block nodes ih => exact ih depth hlines
  | loop counter size body ih =>
    obtain ⟨hlevel, hbody⟩ := ih (depth + 1) fun text htext => hlines text (by simp [Code.events, htext])
    rw [← Nat.add_assoc] at hlevel hbody
    -- the header opens a level, and the closing brace ends it
    have hopens : opens (e.header counter size ++ " \x7b") = true := by
      rw [opens_append _ (by decide)]
      decide
    have hheader : levelOf (nest + depth) (e.header counter size ++ " \x7b") = nest + depth ∧
        levelAfter (nest + depth) (e.header counter size ++ " \x7b") = nest + depth + 1 := by
      simp [levelAfter, levelOf, h.header, hopens]
    have hclose : levelOf (nest + depth + 1) "\x7d" = nest + depth ∧
        levelAfter (nest + depth + 1) "\x7d" = nest + depth := by
      simp [levelAfter, levelOf, closes, opens]
    constructor
    · rw [lines, List.cons_append, List.foldl_cons, List.foldl_append, hheader.2, hlevel]
      exact hclose.2
    · rw [lines, List.cons_append, levels, hheader.1, hheader.2, levels_append, hlevel, hbody,
        annotated, List.cons_append, List.map_cons, List.map_append]
      simp [levels, hclose.1]
  | nil => exact ⟨rfl, rfl⟩
  | cons c cs ihc ihcs _ hlines =>
    obtain ⟨hlevel, hfirst⟩ := ihc _ fun text htext => hlines text (by simp [Code.eventsAll, htext])
    obtain ⟨hlevels, hrest⟩ := ihcs _ fun text htext => hlines text (by simp [Code.eventsAll, htext])
    rw [allLines, allAnnotated, List.foldl_append, levels_append, List.map_append, hlevel, hfirst, hrest]
    exact ⟨hlevels, rfl⟩

end Emitter

/-! ## Statements that are chosen by name -/

def Choice.isCustom {α : Type} : Choice α → Bool
  | custom _ => true
  | standard | named _ => false

/-- No statement is written by a function that was given. -/
structure Config.BuiltIn (config : Config) : Prop where
  loop : config.loop.isCustom = false
  scanner : config.scanner.isCustom = false
  printer : config.printer.isCustom = false

theorem flat_scanfCall (spec : String) (targets : List String) : Flat (scanfCall spec targets) where
  not_closes := by simp [scanfCall, closes]
  not_opens := by rw [scanfCall, opens_append _ (by decide)]; decide

theorem flat_printfCall (spec : String) (exprs : List String) : Flat (printfCall spec exprs) where
  not_closes := by simp [printfCall, closes]
  not_opens := by rw [printfCall, opens_append _ (by decide)]; decide

theorem Emitter.type_of_mem_groups {e : Emitter} {decls : List Decl} {g : Emitter.Group}
    (h : g ∈ e.groups decls) : ∃ d ∈ decls, g.type = (shape e.std e.scalar d.sizes).type := by
  induction decls generalizing g with
  | nil => cases h
  | cons d ds ih =>
    rw [groups] at h
    unfold Group.cons at h
    split at h
    · rw [List.mem_singleton.1 h]
      exact ⟨d, .head _, rfl⟩
    · rename_i first gs hgs
      rw [hgs] at ih
      have hrest : ∀ g ∈ first :: gs, ∃ d' ∈ d :: ds, g.type = (shape e.std e.scalar d'.sizes).type := by
        intro g hg
        obtain ⟨d', hd', htype⟩ := ih hg
        exact ⟨d', .tail _ hd', htype⟩
      split at h
      · rcases List.mem_cons.1 h with rfl | h
        · exact ⟨d, .head _, rfl⟩
        · exact hrest g (.tail _ h)
      · rcases List.mem_cons.1 h with rfl | h
        · exact ⟨d, .head _, rfl⟩
        · exact hrest g h

/-- An identifier does not begin with a brace. -/
theorem closes_of_isIdentifier {name : String} (h : isIdentifier name = true) :
    name ≠ "" ∧ closes name = false := by
  unfold isIdentifier at h
  split at h
  · cases h
  · rename_i c cs hcs
    have hc : c ≠ '\x7d' := by
      rintro rfl
      simp at h
    exact ⟨fun hempty => by simp [hempty] at hcs, by simp [closes, hcs, hc]⟩

namespace Config

/-- What an emitter is made of. -/
theorem of_emitter? {config : Config} {e : Emitter} (h : config.emitter? = .ok e) :
    header? config.loop = .ok e.header ∧
      scan? config.std config.scalar.spec config.scanner = .ok e.scan ∧
      print? config.std config.scalar.spec config.printer = .ok e.print ∧
      e.std = config.std ∧ e.scalar = config.scalar ∧ e.indent = config.indent := by
  obtain ⟨header, hheader, h⟩ := ok_of_bind h
  obtain ⟨scan, hscan, h⟩ := ok_of_bind h
  obtain ⟨print, hprint, h⟩ := ok_of_bind h
  cases h
  exact ⟨hheader, hscan, hprint, rfl, rfl, rfl⟩

/-- What stands before library names closes no brace. -/
theorem closes_std (config : Config) {text : String} (h : closes text = false) :
    closes (config.std ++ text) = false := by
  unfold std
  split
  · rw [closes_append (by decide)]
    decide
  · simpa using h

theorem flat_cinChain (config : Config) (targets : List String) :
    Flat (cinChain config.std targets) where
  not_closes := by
    rw [cinChain, String.append_assoc, String.append_assoc]
    exact config.closes_std (by simp [closes])
  not_opens := by rw [cinChain, opens_append _ (by decide)]; decide

theorem flat_coutChain (config : Config) (exprs : List String) :
    Flat (coutChain config.std exprs) where
  not_closes := by
    simp only [coutChain, String.append_assoc]
    exact config.closes_std (by simp [closes])
  not_opens := by simp only [coutChain]; rw [opens_append _ (by decide)]; decide

/-- The type of a variable closes no brace, however many dimensions it has. -/
theorem closes_shape (config : Config) (sizes : List String) :
    closes (shape config.std config.scalar sizes).type = false := by
  cases sizes with
  | nil =>
    show closes config.scalar.name = false
    cases config.scalar <;> decide
  | cons size sizes =>
    show closes (vectorOf _ _) = false
    simp only [vectorOf, String.append_assoc]
    exact config.closes_std (by simp [closes])

/-- A header does not begin with a closing brace. -/
theorem closes_header {choice : Choice (String → String → String)} (hc : choice.isCustom = false)
    {header : String → String → String} (h : header? choice = .ok header) (counter size : String) :
    closes (header counter size ++ " \x7b") = false := by
  unfold header? at h
  split at h
  · cases h
    unfold forHeader
    simp only [String.append_assoc]
    rw [closes_append (by decide)]
    rfl
  · rename_i name
    split at h
    · rename_i hname
      cases h
      obtain ⟨hne, hcloses⟩ := closes_of_isIdentifier hname
      simp only [callHeader, String.append_assoc]
      rw [closes_append hne, hcloses]
    · cases h
  · cases hc

/-- A statement that is not given as a function is one of the two that have names. -/
theorem of_statement? {α : Type} {call chain : String × α} {unknown : String → ConfigError}
    {choice : Choice α} (hc : choice.isCustom = false) {write : α}
    (h : statement? call chain unknown choice = .ok write) : write = call.2 ∨ write = chain.2 := by
  unfold statement? at h
  split at h
  · cases h
    exact .inl rfl
  · split at h
    · cases h
      exact .inl rfl
    · split at h
      · cases h
        exact .inr rfl
      · cases h
  · cases hc

theorem flat_scan (config : Config) (hc : config.scanner.isCustom = false)
    {scan : List String → String} {spec : String} (h : scan? config.std spec config.scanner = .ok scan)
    (targets : List String) : Flat (scan targets) := by
  obtain rfl | rfl := of_statement? hc h
  · exact flat_scanfCall spec targets
  · exact config.flat_cinChain targets

theorem flat_print (config : Config) (hc : config.printer.isCustom = false)
    {print : List String → String} {spec : String}
    (h : print? config.std spec config.printer = .ok print) (exprs : List String) :
    Flat (print exprs) := by
  obtain rfl | rfl := of_statement? hc h
  · exact flat_printfCall spec exprs
  · exact config.flat_coutChain exprs

/-- The statements that can be chosen by name have no braces at their ends. -/
theorem bracesLoops {config : Config} (hc : config.BuiltIn) {e : Emitter}
    (he : config.emitter? = .ok e) : e.indent = config.indent ∧ e.BracesLoops := by
  obtain ⟨hheader, hscan, hprint, hstd, hscalar, hindent⟩ := of_emitter? he
  refine ⟨hindent, closes_header hc.loop hheader, config.flat_scan hc.scanner hscan,
    config.flat_print hc.printer hprint, fun decls g hg => ⟨?_, ?_⟩⟩
  · obtain ⟨d, -, htype⟩ := Emitter.type_of_mem_groups hg
    rw [hstd, hscalar] at htype
    have hcloses := config.closes_shape d.sizes
    simp only [Emitter.Group.line, String.append_assoc, htype]
    by_cases hempty : (shape config.std config.scalar d.sizes).type = ""
    · rw [hempty]
      simp [closes]
    · rw [closes_append hempty, hcloses]
  · rw [Emitter.Group.line, opens_append _ (by decide)]
    decide

end Config

end Cpp

/-- A rendered line is indented by the loops around the statement that it is written for, and as many
levels more as the code is nested in. This holds of every choice of statements by name, and whatever
names, sizes, dimensions and expressions are, as long as no line that is written as it stands begins with
a closing or ends with an opening brace. A run gives this text, unless the text does not fit. -/
theorem render_eq_nested {config : Cpp.Config} (hc : config.BuiltIn) {e : Cpp.Emitter}
    (he : config.emitter? = .ok e) {code : Code}
    (hlines : ∀ text, .line text ∈ code.events → closes text = false ∧ opens text = false)
    (nest : Nat) :
    (e.annotated 0 code).map (·.text) = e.lines code ∧
      e.render code nest = "\n".intercalate ((e.annotated 0 code).map fun l =>
        String.join (List.replicate (nest + l.depth) config.indent) ++ l.text) ∧
      levels nest (e.lines code) = (e.annotated 0 code).map (nest + ·.depth) ∧
      ∀ (counting : Counting) (word : UInt64), word.toNat = nest →
        e.render? counting code word =
          if Layout.Fits counting config.indent nest (e.lines code) then some (e.render code nest)
          else none := by
  obtain ⟨hindent, hbraces⟩ := Cpp.Config.bracesLoops hc he
  have hflat : ∀ text, .line text ∈ code.events → Flat text :=
    fun text htext => ⟨(hlines text htext).1, (hlines text htext).2⟩
  have htext := e.text_annotated 0 code
  have hlevels := (hbraces.levels_lines nest 0 hflat).2
  rw [Nat.add_zero] at hlevels
  refine ⟨htext, ?_, hlevels, ?_⟩
  · rw [Cpp.Emitter.render, Layout.render, indent_eq_zipWith, hlevels, ← htext, hindent]
    simp only [List.zipWith_map, List.zipWith_self, times_eq_join]
  · rintro counting word rfl
    rw [Cpp.Emitter.render?, render?_eq, hindent, Cpp.Emitter.render, hindent]

/-- Loops are calls of `REP`, streams are read, and a level is a tab. -/
def tabbedConfig : Cpp.Config where
  loop := .named "REP"
  scanner := .named "cin"
  qualified := true
  indent := "\t"

/-- Braces for names, for a size and for a target, and a line of its own in two loops. -/
def bracedCode : Code :=
  .block [.decl [⟨"\x7d", [⟨"\x7b", "0"⟩], .empty⟩], .loop "\x7d" "\x7b"
    (.block [.loop "j" "N" (.line "f(\x7b\x7d);"), .read ["\x7d", "\x7b"]]), .write ["\x7b"]]

theorem render_eq_nested_braced : tabbedConfig.BuiltIn ∧ ∃ e, tabbedConfig.emitter? = .ok e ∧
    (∀ text, .line text ∈ bracedCode.events → closes text = false ∧ opens text = false) ∧
    (e.annotated 0 bracedCode).map (·.depth) = [0, 0, 1, 2, 1, 1, 0, 0] ∧
    e.render bracedCode 1 = "\tstd::vector<int> \x7d(\x7b);\n\tREP (\x7d, \x7b) \x7b\n" ++
      "\t\tREP (j, N) \x7b\n\t\t\tf(\x7b\x7d);\n\t\t\x7d\n\t\tstd::cin >> \x7d >> \x7b;\n\t\x7d\n" ++
      "\tprintf(\"%d\\n\", \x7b);" := by
  have hlines : ∀ text, .line text ∈ bracedCode.events → closes text = false ∧ opens text = false := by
    simp [bracedCode, Code.events, Code.eventsAll, closes, opens]
  have hbuiltIn : tabbedConfig.BuiltIn := ⟨rfl, rfl, rfl⟩
  exact ⟨hbuiltIn, _, rfl, hlines, by decide,
    (render_eq_nested hbuiltIn rfl hlines 1).2.1.trans (by decide +kernel)⟩

end ReaderGen
