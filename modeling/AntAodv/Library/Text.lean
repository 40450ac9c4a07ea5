import Mathlib.Data.List.Basic
import Mathlib.Data.List.Infix
import Mathlib.Data.Rat.Defs

/-!
# Text: words and numerals

Texts are lists of characters.  `words` splits a text at its blanks as the
field-splitting languages do, and `number` is the number they read from the front
of a text.
-/

abbrev Text := List Char

namespace Text

/-- Decided along the text, not over all characters. -/
instance (priority := high) (t : Text) (P : Char → Prop) [DecidablePred P] :
    Decidable (∀ c ∈ t, P c) :=
  List.decidableBAll P t

/-- Space, tab and end of line. -/
def isBlank (c : Char) : Bool := c.toNat == 32 || c.toNat == 9 || c.toNat == 10

/-- The words of a text, separated by any number of blanks. -/
def words (t : Text) : List Text := (t.splitOnP isBlank).filter (!·.isEmpty)

/-- A text that is one word. -/
structure Solid (t : Text) : Prop where
  nonempty : t ≠ []
  blankless : ∀ c ∈ t, isBlank c = false

instance (t : Text) : Decidable (Solid t) :=
  decidable_of_iff (t ≠ [] ∧ ∀ c ∈ t, isBlank c = false)
    ⟨fun both => ⟨both.1, both.2⟩, fun solid => ⟨solid.nonempty, solid.blankless⟩⟩

@[simp]
theorem words_nil : words [] = [] := by
  simp [words]

theorem words_append_cons {blank : Char} (isBlank : isBlank blank = true) (front back : Text) :
    words (front ++ blank :: back) = words front ++ words back := by
  simp [words, List.splitOnP_append_cons _ _ isBlank]

theorem words_cons {blank : Char} (isBlank : isBlank blank = true) (back : Text) :
    words (blank :: back) = words back := by
  simpa using words_append_cons isBlank [] back

theorem Solid.words_eq {t : Text} (solid : Solid t) : words t = [t] := by
  simp [words, List.splitOnP_eq_singleton solid.blankless, solid.nonempty]

theorem Solid.words_append {t : Text} (solid : Solid t) (back : Text) :
    words (t ++ ' ' :: back) = t :: words back := by
  rw [words_append_cons rfl, solid.words_eq, List.singleton_append]

/-- Texts, each with a blank behind it, in front of `back`. -/
def followed : List Text → Text → Text
  | [], back => back
  | t :: ts, back => t ++ ' ' :: followed ts back

theorem followed_append (ts us : List Text) (back : Text) :
    followed (ts ++ us) back = followed ts (followed us back) := by
  induction ts with
  | nil => rfl
  | cons t ts inductionHypothesis => rw [List.cons_append, followed, inductionHypothesis, followed]

theorem words_followed {ts : List Text} (solid : ∀ t ∈ ts, Solid t) (back : Text) :
    words (followed ts back) = ts ++ words back := by
  induction ts with
  | nil => rfl
  | cons t ts inductionHypothesis =>
      rw [followed, (solid t List.mem_cons_self).words_append,
        inductionHypothesis fun t later => solid t (List.mem_cons_of_mem _ later),
        List.cons_append]

/-- Texts that need not be words, each with a blank behind it. -/
theorem words_followed_eq_flatMap (ts : List Text) (back : Text) :
    words (followed ts back) = ts.flatMap words ++ words back := by
  induction ts with
  | nil => rfl
  | cons t ts inductionHypothesis =>
      rw [followed, words_append_cons rfl, inductionHypothesis, List.flatMap_cons,
        List.append_assoc]

theorem Solid.append {front back : Text} (solid : Solid front)
    (blankless : ∀ c ∈ back, isBlank c = false) : Solid (front ++ back) := by
  refine ⟨by simp [solid.nonempty], ?_⟩
  intro c member
  rcases List.mem_append.mp member with inFront | inBack
  · exact solid.blankless c inFront
  · exact blankless c inBack

/-- A separator that is not in a pattern cannot be inside a match. -/
theorem infix_append_cons_iff {pattern : Text} {separator : Char}
    (absent : separator ∉ pattern) (front back : Text) :
    pattern <:+: front ++ separator :: back ↔ pattern <:+: front ∨ pattern <:+: back := by
  constructor
  · rintro ⟨before, after, whole⟩
    rw [List.append_assoc] at whole
    rcases List.append_eq_append_iff.mp whole with ⟨skipped, isFront, rest⟩ | ⟨skipped, isBefore, rest⟩
    · -- the match starts in front of the separator
      rcases List.append_eq_append_iff.mp rest with
        ⟨more, isSkipped, _⟩ | ⟨more, isPattern, tail⟩
      · apply Or.inl
        exact ⟨before, more, by rw [isFront, isSkipped, List.append_assoc]⟩
      · cases more with
        | nil =>
            apply Or.inl
            exact ⟨before, [], by simp [isFront, isPattern]⟩
        | cons head more =>
            rw [List.cons_append, List.cons.injEq] at tail
            apply absurd _ absent
            rw [isPattern, tail.1]
            simp
    · cases skipped with
      | nil =>
          cases pattern with
          | nil => exact Or.inl (List.nil_infix)
          | cons head pattern =>
              rw [List.nil_append, List.cons_append, List.cons.injEq] at rest
              apply absurd _ absent
              rw [rest.1]
              exact List.mem_cons_self
      | cons head skipped =>
          rw [List.cons_append, List.cons.injEq] at rest
          apply Or.inr
          exact ⟨skipped, after, by rw [List.append_assoc, rest.2]⟩
  · rintro (inFront | inBack)
    · exact inFront.trans (List.prefix_append _ _).isInfix
    · exact inBack.trans ((List.suffix_cons _ _).trans (List.suffix_append _ _)).isInfix

theorem infix_followed_iff {pattern : Text} (solid : ' ' ∉ pattern) (ts : List Text) (back : Text) :
    pattern <:+: followed ts back ↔ (∃ t ∈ ts, pattern <:+: t) ∨ pattern <:+: back := by
  induction ts with
  | nil => simp [followed]
  | cons t ts inductionHypothesis =>
      rw [followed, infix_append_cons_iff solid, inductionHypothesis]
      simp only [List.mem_cons, exists_eq_or_imp, or_assoc]

/-- A text that lacks a character of a pattern does not contain the pattern. -/
theorem not_infix_of_notMem {pattern t : Text} {c : Char} (inPattern : c ∈ pattern)
    (absent : c ∉ t) : ¬ pattern <:+: t :=
  fun found => absent (found.subset inPattern)

/-- The decimal numeral of an integer. -/
def ofInt : ℤ → Text
  | .ofNat n => Nat.toDigits 10 n
  | .negSucc n => '-' :: Nat.toDigits 10 (n + 1)

theorem isDigit_of_mem_toDigits {n : ℕ} {c : Char} (member : c ∈ Nat.toDigits 10 n) :
    c.isDigit = true :=
  Nat.isDigit_of_mem_toDigits (by decide) (by decide) member

end Text
