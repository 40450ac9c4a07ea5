import AntAodv.CmuTrace.Patterns
import AntAodv.Library.Numerals
import AntAodv.Library.Perl

/-!
# The lines of a trace file

In the default format a line has no other blanks than spaces, so the file falls into the
lines that were written, with the same words for every reader.
-/

namespace AntAodv

open Printf

/-- The file of a trace, a line for each event. -/
def traceFile (events : List TraceEvent) : Text := events.flatMap fun e => e.format ++ ['\n']

/-- The blanks besides the space. -/
def controls : Text := ['\t', '\n', '\x0b', '\x0c', '\r']

theorem mem_controls {c : Char} (isSpace : Perl.isSpace c = true) : c = ' ' ∨ c ∈ controls := by
  have code : c.toNat = 32 ∨ c.toNat = 9 ∨ c.toNat = 10 ∨ c.toNat = 11 ∨ c.toNat = 12 ∨
      c.toNat = 13 := by
    simp only [Perl.isSpace, Bool.or_eq_true, Bool.and_eq_true, decide_eq_true_eq, beq_iff_eq]
      at isSpace
    omega
  rw [← Char.ofNat_toNat c]
  rcases code with code | code | code | code | code | code <;> rw [code] <;> decide

namespace TraceEvent

variable {e : TraceEvent} {c : Char}

theorem plain_of_control : ∀ c ∈ controls, Plain c := by
  decide

theorem notMem_name : ∀ p < ptNtype + 1, ∀ c ∈ controls, c ∉ packetName p := by
  decide

theorem notMem_label : ∀ label ∈ energyLabels, ∀ c ∈ controls, c ∉ label.toList := by
  decide

theorem notMem_reason : ∀ reason ∈ "---" :: dropReasons, ∀ c ∈ controls, c ∉ reason.toList := by
  decide

theorem notMem_letters : ∀ letters ∈ "ant" :: otherLetters, ∀ c ∈ controls,
    c ∉ letters.toList := by
  decide

theorem notMem_tracename (tracename : TraceName) :
    ∀ c ∈ controls, c ∉ tracename.name.toList := by
  cases tracename <;> decide

theorem notMem_typeName (control : c ∈ controls) : c ∉ e.typeName := by
  have frames : ∀ frame : MacFrame, ∀ c ∈ controls, c ∉ frame.name.toList := by
    intro frame
    cases frame <;> decide
  have types : ∀ type : SmacType, ∀ c ∈ controls, c ∉ type.name.toList := by
    intro type
    cases type <;> decide
  unfold typeName
  split_ifs
  · exact frames _ c control
  · exact types _ c control
  · exact notMem_name _ (Nat.lt_succ_of_le e.ptype_le) c control

theorem notMem_op (control : c ∈ controls) : c ≠ e.op := by
  rintro rfl
  revert control
  unfold op
  split_ifs
  · decide
  · cases e.type <;> decide

/-- A line has no end in it, and no other blank than spaces. -/
theorem notMem_format (newtrace : e.newtrace = false) (control : c ∈ controls) :
    c ∉ e.format := by
  have plain := plain_of_control c control
  have absent : ∀ {t : Text}, ¬ [c] <:+: t ↔ c ∉ t := by
    intro t
    rw [List.singleton_infix_iff]
  have space : c ≠ ' ' := plain.foreign.blank
  have why : c ∉ padLeft ' ' 4 e.why.toList := by
    intro member
    rcases mem_padLeft member with blank | inWhy
    · exact space blank
    · rcases e.why_known with none | ⟨_, reason⟩
      · rw [none] at inWhy
        exact notMem_reason _ List.mem_cons_self c control inWhy
      · exact notMem_reason _ (List.mem_cons_of_mem _ reason) c control inWhy
  have level := notMem_tracename e.tracename c control
  have tail : c ∉ e.tail := by
    apply notMem_tail newtrace plain
    rcases e.tailLetters_cases with ⟨_, ant⟩ | ⟨_, other⟩
    · rw [ant]
      exact notMem_letters _ List.mem_cons_self c control
    · exact notMem_letters _ (List.mem_cons_of_mem _ other) c control
  rw [format_eq_cons e newtrace, List.mem_cons, not_or]
  refine ⟨notMem_op control, absent.mp ?_⟩
  rw [infix_afterOp_iff (by simpa using space.symm) List.mem_cons_self plain
    fun label member => absent.mpr (notMem_label label member c control)]
  simp only [not_or, absent]
  exact ⟨level, why, notMem_typeName control, tail⟩

/-- Perl and awk see the same words. -/
theorem split_format (newtrace : e.newtrace = false) :
    Perl.split (e.format ++ ['\n']) = Text.words e.format := by
  rw [Perl.split_append_newline]
  apply Perl.split_eq_words
  intro c member
  have noControl : c ∉ controls := fun control => notMem_format newtrace control member
  cases isSpace : Perl.isSpace c with
  | true =>
      rcases mem_controls isSpace with rfl | control
      · rfl
      · exact absurd control noControl
  | false =>
      simp only [Perl.isSpace, Bool.or_eq_false_iff, Bool.and_eq_false_iff, beq_eq_false_iff_ne,
        decide_eq_false_iff_not] at isSpace
      have notBlank : Text.isBlank c = false := by
        simp only [Text.isBlank, Bool.or_eq_false_iff, beq_eq_false_iff_ne]
        omega
      exact notBlank.symm

end TraceEvent

theorem lines_traceFile {events : List TraceEvent} (newtrace : ∀ e ∈ events, e.newtrace = false) :
    Text.lines (traceFile events) = events.map fun e => e.format ++ ['\n'] := by
  induction events with
  | nil => rfl
  | cons e events inductionHypothesis =>
      have inside : '\n' ∉ e.format :=
        TraceEvent.notMem_format (newtrace e List.mem_cons_self) (by decide)
      rw [traceFile, List.flatMap_cons, List.append_assoc, List.singleton_append,
        Text.lines_append_newline inside, List.map_cons, ← traceFile,
        inductionHypothesis fun e later => newtrace e (List.mem_cons_of_mem _ later)]

end AntAodv
