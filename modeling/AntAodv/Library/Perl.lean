import AntAodv.Library.Text

/-!
# Lines of a file, as Perl reads them

A file handle is a position in the file: reading a line moves it behind the line,
`tell` gives it and `seek` sets it.  Files are bytes, one character each.
-/

namespace Text

/-- The first line of a text, with the end of line behind it where there is one. -/
def takeLine : Text → Text
  | [] => []
  | c :: t => if c = '\n' then [c] else c :: takeLine t

/-- The lines of a text, each with the end of line behind it, which the last may lack. -/
def lines : Text → List Text
  | [] => []
  | c :: t =>
      if c = '\n' then [c] :: lines t
      else
        match lines t with
        | [] => [[c]]
        | line :: rest => (c :: line) :: rest

/-- No line is left out: together they are the text. -/
theorem flatten_lines (t : Text) : (lines t).flatten = t := by
  induction t with
  | nil => rfl
  | cons c t inductionHypothesis =>
      unfold lines
      split
      next => rw [List.flatten_cons, inductionHypothesis, List.singleton_append]
      next =>
        cases split : lines t with
        | nil =>
            rw [split] at inductionHypothesis
            rw [← inductionHypothesis]
            rfl
        | cons line rest =>
            rw [split] at inductionHypothesis
            rw [← inductionHypothesis]
            rfl

theorem lines_of_ne_nil {t : Text} (nonempty : t ≠ []) :
    lines t = takeLine t :: lines (t.drop (takeLine t).length) := by
  induction t with
  | nil => exact absurd rfl nonempty
  | cons c t inductionHypothesis =>
      by_cases ends : c = '\n'
      · simp [lines, takeLine, ends]
      · rw [lines, takeLine, if_neg ends, if_neg ends, List.length_cons, List.drop_succ_cons]
        by_cases last : t = []
        · subst last
          rfl
        · rw [inductionHypothesis last]

theorem length_lines_le (t : Text) : (lines t).length ≤ t.length := by
  induction t with
  | nil => exact Nat.le_refl 0
  | cons c t inductionHypothesis =>
      unfold lines
      split
      next => exact Nat.succ_le_succ inductionHypothesis
      next =>
        split
        next => exact Nat.succ_le_succ (Nat.zero_le _)
        next split =>
          rw [split] at inductionHypothesis
          exact Nat.le_succ_of_le inductionHypothesis

theorem ne_nil_of_mem_lines {t line : Text} (member : line ∈ lines t) : line ≠ [] := by
  induction t generalizing line with
  | nil => cases member
  | cons c t inductionHypothesis =>
      unfold lines at member
      split at member
      next =>
        rcases List.mem_cons.mp member with rfl | later
        · exact List.cons_ne_nil _ _
        · exact inductionHypothesis later
      next =>
        split at member
        next =>
          rw [List.mem_singleton.mp member]
          exact List.cons_ne_nil _ _
        next split =>
          rcases List.mem_cons.mp member with rfl | later
          · exact List.cons_ne_nil _ _
          · apply inductionHypothesis
            rw [split]
            exact List.mem_cons_of_mem _ later

theorem lines_append_newline {t : Text} (inside : '\n' ∉ t) (rest : Text) :
    lines (t ++ '\n' :: rest) = (t ++ ['\n']) :: lines rest := by
  induction t with
  | nil => simp [lines]
  | cons c t inductionHypothesis =>
      rw [List.mem_cons, not_or] at inside
      obtain ⟨other, later⟩ := inside
      rw [List.cons_append, lines, if_neg (Ne.symm other), inductionHypothesis later]
      rfl

end Text

namespace Perl

/-- Space, tab, end of line, vertical tab, form feed and carriage return. -/
def isSpace (c : Char) : Bool := c.toNat == 32 || (9 ≤ c.toNat && c.toNat ≤ 13)

/-- `split(' ')`. -/
def split (line : Text) : List Text := (line.splitOnP isSpace).filter (!·.isEmpty)

theorem split_append_newline (t : Text) : split (t ++ ['\n']) = split t := by
  rw [split, split, List.splitOnP_append_cons t [] rfl, List.filter_append]
  simp

/-- Without the blanks that only Perl has, the fields are the words. -/
theorem split_eq_words {t : Text} (same : ∀ c ∈ t, isSpace c = Text.isBlank c) :
    split t = Text.words t := by
  have pieces : t.splitOnP isSpace = t.splitOnP Text.isBlank := by
    induction t with
    | nil => rfl
    | cons c t inductionHypothesis =>
        rw [List.splitOnP_cons_eq_if_modifyHead, List.splitOnP_cons_eq_if_modifyHead,
          same c List.mem_cons_self,
          inductionHypothesis fun d later => same d (List.mem_cons_of_mem c later)]
  rw [split, Text.words, pieces]

/-- `<DATA>` with the handle at `position`: the next line and the position behind it,
or nothing at the end of the file. -/
def readLine (file : Text) (position : ℕ) : Option (Text × ℕ) :=
  if file.drop position = [] then none
  else
    let line := Text.takeLine (file.drop position)
    some (line, position + line.length)

theorem readLine_end {file : Text} {position : ℕ} (left : Text.lines (file.drop position) = []) :
    readLine file position = none := by
  rw [readLine, if_pos]
  rw [← Text.flatten_lines (file.drop position), left, List.flatten_nil]

/-- The lines left tell the line read and the lines left behind it. -/
theorem readLine_next {file line : Text} {position : ℕ} {rest : List Text}
    (left : Text.lines (file.drop position) = line :: rest) :
    readLine file position = some (line, position + line.length) ∧
      Text.lines (file.drop (position + line.length)) = rest := by
  have nonempty : file.drop position ≠ [] := by
    intro empty
    rw [empty] at left
    cases left
  rw [Text.lines_of_ne_nil nonempty, List.cons.injEq, List.drop_drop] at left
  obtain ⟨rfl, rfl⟩ := left
  exact ⟨by rw [readLine, if_neg nonempty], rfl⟩

/-- The positions behind lines, the first of which starts at `position`. -/
def ends : (position : ℕ) → List Text → List (ℕ × Text)
  | _, [] => []
  | position, line :: rest =>
      (position + line.length, line) :: ends (position + line.length) rest

theorem lt_of_mem_ends {lines : List Text} (nonempty : ∀ line ∈ lines, line ≠ [])
    {position : ℕ} {place : ℕ × Text} (member : place ∈ ends position lines) :
    position < place.1 := by
  induction lines generalizing position with
  | nil => cases member
  | cons line rest inductionHypothesis =>
      have positive := List.length_pos_of_ne_nil (nonempty line List.mem_cons_self)
      rcases List.mem_cons.mp member with rfl | later
      · exact Nat.lt_add_of_pos_right positive
      · have further := inductionHypothesis
          (fun line inRest => nonempty line (List.mem_cons_of_mem _ inRest)) later
        omega

theorem pairwise_ends {lines : List Text} (nonempty : ∀ line ∈ lines, line ≠ [])
    (position : ℕ) : (ends position lines).Pairwise fun here later => here.1 < later.1 := by
  induction lines generalizing position with
  | nil => exact List.Pairwise.nil
  | cons line rest inductionHypothesis =>
      have nonemptyRest : ∀ line ∈ rest, line ≠ [] :=
        fun line inRest => nonempty line (List.mem_cons_of_mem _ inRest)
      exact List.pairwise_cons.mpr
        ⟨fun place member => lt_of_mem_ends nonemptyRest member,
          inductionHypothesis nonemptyRest _⟩

end Perl
