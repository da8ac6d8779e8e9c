import ReaderGen.Format.Load
import ReaderGen.Proofs.Endings

/-!
# When a diagnostic can be shown

A problem of a description is shown from one byte offset to another, and a place that ends after the
last character of the description cannot be shown. The end of a problem is the end of a token, or a
character that begins none, so its offset is the number of bytes before it. As bytes are compared with
characters, a problem can be shown just if the characters before its end have at most as many bytes as
the whole description has characters: every byte more than one for a character has to be made up for by
a character that follows. A description in ASCII has no such bytes.

* `Problem.visible_of_read`: problems end where an offset is what it should be.
* `Format.diagnose_eq_malformed_iff`, `Format.parse_ne_unplaceable`: which problems can be shown.
* `parse_answers_iff`: when the loader gives an answer.
-/

namespace ReaderGen

open Source

/-! ## Where problems end -/

namespace Problem

variable {text : List Char} {lexemes : List Lexeme}

theorem visible_about (message : String) (h : ∀ l ∈ lexemes, Visible text l.stop) :
    Visible text (about message lexemes).stop := by
  unfold about
  split
  · rename_i first last _ hlast
    exact h last (List.mem_of_getLast? hlast)
  · exact Scanner.visible_zero text

theorem visible_ofComplaint (h : ∀ l ∈ lexemes, Visible text l.stop) (complaint : Complaint) :
    Visible text (ofComplaint lexemes complaint).stop :=
  visible_about _ fun l hl => h l (List.mem_of_mem_drop (List.mem_of_mem_take hl))

theorem visible_ofExprError (h : ∀ l ∈ lexemes, Visible text l.stop) (e : Description.Located)
    (error : ExprError) : Visible text (ofExprError lexemes e error).stop :=
  visible_about _ fun l hl =>
    h l (List.mem_of_mem_drop (List.mem_of_mem_take (List.mem_of_mem_take hl)))

end Problem

namespace Description

variable {lexemes : List Lexeme} {problem : Problem}

theorem error_of_canonical {e : Located} (h : e.canonical lexemes = .error problem) :
    ∃ error, problem = Problem.ofExprError lexemes e error := by
  rw [Located.canonical] at h
  cases hc : e.expr.canonicalize with
  | ok s => rw [hc] at h; cases h
  | error error =>
    rw [hc] at h
    cases h
    exact ⟨error, rfl⟩

theorem error_of_item {i : Item} (h : i.toFormat lexemes = .error problem) :
    ∃ e error, problem = Problem.ofExprError lexemes e error := by
  rcases error_of_bind h with h | ⟨indices, -, h⟩
  · obtain ⟨e, -, h⟩ := error_of_mapM h
    exact ⟨e, error_of_canonical h⟩
  · cases h

mutual

/-- The problems of statements that can be read are those of their expressions. -/
theorem error_of_statement : ∀ s : Statement, s.toFormat lexemes = .error problem →
    ∃ e error, problem = Problem.ofExprError lexemes e error
  | .read items, h => by
    rw [Statement.toFormat] at h
    rcases error_of_bind h with h | ⟨formats, -, h⟩
    · obtain ⟨i, -, h⟩ := error_of_mapM h
      exact error_of_item h
    · cases h
  | .loop counter bound body, h => by
    rw [Statement.toFormat] at h
    rcases error_of_bind h with h | ⟨size, -, h⟩
    · exact ⟨bound, error_of_canonical h⟩
    · rcases error_of_bind h with h | ⟨fs, -, h⟩
      · exact error_of_toFormats body h
      · cases h

theorem error_of_toFormats : ∀ ss : List Statement, toFormats lexemes ss = .error problem →
    ∃ e error, problem = Problem.ofExprError lexemes e error
  | [], h => by rw [toFormats] at h; cases h
  | s :: ss, h => by
    rw [toFormats] at h
    rcases error_of_bind h with h | ⟨first, -, h⟩
    · exact error_of_statement s h
    · rcases error_of_bind h with h | ⟨rest, -, h⟩
      · exact error_of_toFormats ss h
      · cases h

end

end Description

/-- A problem of a description ends where a token ends, or where none begins. -/
theorem Problem.visible_of_read {source : String} {problem : Problem}
    (h : Format.read source = .error problem) : Visible source.toList problem.stop := by
  have hscan := Scanner.visible_of_scan source
  rw [Format.read] at h
  cases hs : Scanner.scan source with
  | error p =>
    rw [hs] at h hscan
    cases h
    exact hscan
  | ok lexemes =>
    rw [hs] at h hscan
    dsimp only at h
    split at h
    · cases h
      exact visible_ofComplaint hscan _
    · rename_i statements _
      rcases error_of_bind h with h | ⟨fs, -, h⟩
      · obtain ⟨e, error, rfl⟩ := Description.error_of_toFormats statements h
        exact visible_ofExprError hscan e error
      · cases h

/-! ## What is shown -/

theorem Diagnostic.render_eq_none_iff {color : Bool} {name message : String} {source : List Char}
    {start stop : Nat} : render color name source message start stop = none ↔ source.length < stop := by
  unfold render
  split
  · simp [*]
  · simp [*]

namespace Format

/-- A problem is shown, unless nothing can be shown for it or the bytes before its end are more than the
characters of the description. -/
theorem diagnose_eq_malformed_iff (name : String) (color : Bool) {source : String} {problem : Problem}
    (h : Visible source.toList problem.stop) :
    (∃ rendered, diagnose name source color problem = .malformed rendered) ↔
      problem.silent = false ∧
        byteLength (source.toList.take problem.stop) ≤ source.toList.length := by
  rw [← h.offsetAt, diagnose]
  cases hs : problem.silent with
  | true => simp
  | false =>
    cases hr : Diagnostic.render color name source.toList problem.message
        (offsetAt source.toList problem.start) (offsetAt source.toList problem.stop) with
    | none =>
      have hlt := Diagnostic.render_eq_none_iff.1 hr
      simpa [hr] using hlt
    | some rendered =>
      have hle := mt Diagnostic.render_eq_none_iff.2 (by rw [hr]; simp)
      simpa [hr] using hle

/-- A description in ASCII has a place for every diagnostic. -/
theorem parse_ne_unplaceable {source : String} (h : ∀ c ∈ source.toList, c.utf8Size = 1)
    (name : String) (color : Bool) : parse name source color ≠ .error .unplaceable := by
  intro hparse
  rw [parse] at hparse
  cases hread : read source with
  | ok f => rw [hread] at hparse; cases hparse
  | error problem =>
    rw [hread] at hparse
    have hdiagnose : diagnose name source color problem = .unplaceable := Except.error.inj hparse
    cases hs : problem.silent with
    | true =>
      rw [diagnose, hs] at hdiagnose
      cases hdiagnose
    | false =>
      have hbytes : byteLength (source.toList.take problem.stop) ≤ source.toList.length := by
        rw [byteLength_eq_length fun c hc => h c (List.mem_of_mem_take hc)]
        exact List.length_take_le' ..
      obtain ⟨rendered, hr⟩ :=
        (diagnose_eq_malformed_iff name color (Problem.visible_of_read hread)).2 ⟨hs, hbytes⟩
      rw [hr] at hdiagnose
      cases hdiagnose

end Format

/-- The loader gives a format or shows a diagnostic, unless it stops at something that cannot be shown:
a literal of an unknown kind, or a problem before whose end there are more bytes than the description
has characters. -/
theorem parse_answers_iff (name source : String) (color : Bool) :
    ((∃ f, Format.parse name source color = .ok f) ∨
      ∃ rendered, Format.parse name source color = .error (.malformed rendered)) ↔
    ∀ problem, Format.read source = .error problem → problem.silent = false ∧
      byteLength (source.toList.take problem.stop) ≤ source.toList.length := by
  rw [Format.parse]
  cases hread : Format.read source with
  | ok f =>
    constructor
    · intro _ problem h
      cases h
    · intro _
      exact .inl ⟨f, rfl⟩
  | error problem =>
    have hshown := Format.diagnose_eq_malformed_iff name color (Problem.visible_of_read hread)
    constructor
    · rintro (⟨f, hf⟩ | ⟨rendered, hr⟩) problem' hp
      · cases hf
      · cases hp
        exact hshown.1 ⟨rendered, Except.error.inj hr⟩
    · intro h
      obtain ⟨rendered, hr⟩ := hshown.2 (h problem rfl)
      exact .inr ⟨rendered, congrArg Except.error hr⟩

/-- The comment has eight bytes more than characters, and one character follows the place. -/
theorem parse_unplaceable_multibyte :
    Format.parse "format" "// 变量变量\nread M K;" false = .error .unplaceable := by
  have h : (match Format.parse "format" "// 变量变量\nread M K;" false with
      | .error e => decide (e = .unplaceable)
      | .ok _ => false) = true := by decide +kernel
  split at h
  · rename_i e he
    rw [he, of_decide_eq_true h]
  · cases h

end ReaderGen
