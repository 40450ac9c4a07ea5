import Mathlib.Algebra.BigOperators.Group.List.Basic
import Mathlib.Algebra.Order.BigOperators.Group.List
import Mathlib.Data.Nat.Bitwise
import Mathlib.Order.Interval.Set.Disjoint

/-!
# Placing items one after the other

An allocator that never frees gives every item the space behind the items before
it.  The items do not overlap, lie inside the space used up, and are aligned when
their sizes are.
-/

universe u

namespace Placement

variable {α : Type u} (size : α → ℕ)

/-- The items with their offsets, the first one at `base`. -/
def place (base : ℕ) : List α → List (α × ℕ)
  | [] => []
  | item :: rest => (item, base) :: place (base + size item) rest

/-- The space that the items take. -/
def extent (items : List α) : ℕ := (items.map size).sum

@[simp]
theorem extent_nil : extent size [] = 0 := rfl

@[simp]
theorem extent_cons (item : α) (rest : List α) :
    extent size (item :: rest) = size item + extent size rest := by
  simp [extent]

theorem map_fst_place (base : ℕ) (items : List α) :
    (place size base items).map Prod.fst = items := by
  induction items generalizing base with
  | nil => rfl
  | cons item rest inductionHypothesis => simp [place, inductionHypothesis]

/-- Every item lies inside the space that all of them take. -/
theorem place_inside (base : ℕ) (items : List α) :
    ∀ entry ∈ place size base items,
      base ≤ entry.2 ∧ entry.2 + size entry.1 ≤ base + extent size items := by
  induction items generalizing base with
  | nil => simp [place]
  | cons item rest inductionHypothesis =>
      intro entry placed
      rw [extent_cons]
      rcases List.mem_cons.mp placed with rfl | later
      · constructor <;> simp only <;> omega
      · have inside := inductionHypothesis (base + size item) entry later
        omega

/-- The items do not overlap. -/
theorem place_apart (base : ℕ) (items : List α) :
    (place size base items).Pairwise fun first second => first.2 + size first.1 ≤ second.2 := by
  induction items generalizing base with
  | nil => exact .nil
  | cons item rest inductionHypothesis =>
      apply List.pairwise_cons.mpr
      refine ⟨?_, inductionHypothesis _⟩
      intro entry later
      exact (place_inside size _ rest entry later).1

/-- The items are aligned when the first offset and all sizes are. -/
theorem dvd_place {alignment base : ℕ} (start : alignment ∣ base) (items : List α)
    (sizes : ∀ item ∈ items, alignment ∣ size item) :
    ∀ entry ∈ place size base items, alignment ∣ entry.2 := by
  induction items generalizing base with
  | nil => simp [place]
  | cons item rest inductionHypothesis =>
      intro entry placed
      rcases List.mem_cons.mp placed with rfl | later
      · exact start
      · have next : alignment ∣ base + size item :=
          Nat.dvd_add start (sizes item List.mem_cons_self)
        refine inductionHypothesis next ?_ entry later
        intro other membership
        exact sizes other (List.mem_cons_of_mem item membership)

/-- Adding a mask and clearing its bits rounds up to a multiple of a power of two. -/
theorem ldiff_mask (value exponent : ℕ) :
    (value + (2 ^ exponent - 1)).ldiff (2 ^ exponent - 1) =
      (value + (2 ^ exponent - 1)) / 2 ^ exponent * 2 ^ exponent := by
  apply Nat.eq_of_testBit_eq
  intro bit
  rw [Nat.testBit_ldiff, Nat.testBit_two_pow_sub_one, Nat.testBit_mul_two_pow]
  by_cases low : bit < exponent
  · have high : ¬ exponent ≤ bit := by omega
    simp [low, high]
  · have high : exponent ≤ bit := by omega
    simp [low, high, Nat.testBit_div_two_pow, Nat.sub_add_cancel high]

end Placement
