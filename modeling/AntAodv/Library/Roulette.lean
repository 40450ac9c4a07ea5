import Mathlib.Algebra.BigOperators.Group.List.Basic
import Mathlib.Algebra.Order.BigOperators.Group.List
import Mathlib.Algebra.Order.Field.Basic
import Mathlib.Tactic.Linarith
import Mathlib.Tactic.Ring

/-!
# Roulette-wheel selection with reinforcement

A wheel is a list of entries, each with a key and a weight.  `spin` returns the
entry whose cumulative range contains the draw; `reinforce` moves weight towards
one key.  Weights need not be positive, nor additions exact: a draw below the last
cumulative sum always finds an entry, because the sums start at or below it and end
above it.
-/

universe u v w

namespace Roulette

variable {Entry : Type u} {Key : Type v} {K : Type w}

/-- The total weight of a wheel. -/
def total [AddMonoid K] (weight : Entry → K) (wheel : List Entry) : K :=
  (wheel.map weight).sum

@[simp]
theorem total_nil [AddMonoid K] (weight : Entry → K) : total weight [] = 0 := rfl

@[simp]
theorem total_cons [AddMonoid K] (weight : Entry → K) (entry : Entry) (wheel : List Entry) :
    total weight (entry :: wheel) = weight entry + total weight wheel := by
  simp [total]

@[simp]
theorem total_append [AddMonoid K] (weight : Entry → K) (first second : List Entry) :
    total weight (first ++ second) = total weight first + total weight second := by
  simp [total]

theorem total_nonneg [AddCommMonoid K] [PartialOrder K] [IsOrderedAddMonoid K]
    {weight : Entry → K} {wheel : List Entry} (nonneg : ∀ entry ∈ wheel, 0 ≤ weight entry) :
    0 ≤ total weight wheel :=
  List.sum_nonneg (by simpa using nonneg)

section Cumulated

/-- The weights of a wheel added one after the other, from `lower` on. -/
def cumulated [Add K] (weight : Entry → K) (lower : K) (wheel : List Entry) : K :=
  wheel.foldl (fun sum entry => sum + weight entry) lower

theorem cumulated_eq [AddMonoid K] (weight : Entry → K) (lower : K) (wheel : List Entry) :
    cumulated weight lower wheel = lower + total weight wheel := by
  induction wheel generalizing lower with
  | nil => simp [cumulated]
  | cons entry wheel inductionHypothesis =>
      rw [total_cons, ← add_assoc, ← inductionHypothesis]
      rfl

@[simp]
theorem cumulated_zero [AddMonoid K] (weight : Entry → K) (wheel : List Entry) :
    cumulated weight 0 wheel = total weight wheel := by
  rw [cumulated_eq, zero_add]

end Cumulated

section Spin

variable [Add K] [LinearOrder K]

/-- The entry whose cumulative range, starting at `lower`, contains `draw`. -/
def spin (weight : Entry → K) (draw : K) : K → List Entry → Option Entry
  | _, [] => none
  | lower, entry :: wheel =>
      if lower ≤ draw ∧ draw < lower + weight entry then some entry
      else spin weight draw (lower + weight entry) wheel

/-- A draw between the start of the wheel and its end falls on some entry. -/
theorem exists_spin {weight : Entry → K} {draw lower : K} {wheel : List Entry}
    (above : lower ≤ draw) (below : draw < cumulated weight lower wheel) :
    ∃ entry, spin weight draw lower wheel = some entry := by
  induction wheel generalizing lower with
  | nil => exact absurd below (not_lt.mpr above)
  | cons head wheel inductionHypothesis =>
      by_cases here : draw < lower + weight head
      · exact ⟨head, by rw [spin, if_pos ⟨above, here⟩]⟩
      · rw [spin, if_neg (fun inside => here inside.2)]
        exact inductionHypothesis (not_lt.mp here) below

theorem mem_of_spin {weight : Entry → K} {draw lower : K} {wheel : List Entry} {entry : Entry}
    (result : spin weight draw lower wheel = some entry) : entry ∈ wheel := by
  induction wheel generalizing lower with
  | nil => cases result
  | cons head wheel inductionHypothesis =>
      rw [spin] at result
      split at result
      · cases result
        exact List.mem_cons_self
      · exact List.mem_cons_of_mem head (inductionHypothesis result)

end Spin

section Range

variable [AddCommGroup K] [LinearOrder K]

/-- The draw lies in the cumulative range of the entry it falls on. -/
theorem mem_range_of_spin {weight : Entry → K} {draw lower : K} {wheel : List Entry}
    {entry : Entry} (result : spin weight draw lower wheel = some entry) :
    ∃ before after, wheel = before ++ entry :: after ∧ lower + total weight before ≤ draw ∧
      draw < lower + total weight before + weight entry := by
  induction wheel generalizing lower with
  | nil => simp [spin] at result
  | cons head wheel inductionHypothesis =>
      rw [spin] at result
      split at result
      · rename_i inside
        cases result
        exact ⟨[], wheel, rfl, by simpa using inside⟩
      · obtain ⟨before, after, split, range⟩ := inductionHypothesis result
        refine ⟨head :: before, after, by rw [split, List.cons_append], ?_⟩
        rw [total_cons, ← add_assoc]
        exact range

variable [IsOrderedAddMonoid K]

/-- On a wheel without negative weights, the draw falls on the entry whose cumulative
range contains it. -/
theorem spin_of_mem_range {weight : Entry → K} {draw lower : K} {before after : List Entry}
    {entry : Entry} (nonneg : ∀ passed ∈ before, 0 ≤ weight passed)
    (above : lower + total weight before ≤ draw)
    (below : draw < lower + total weight before + weight entry) :
    spin weight draw lower (before ++ entry :: after) = some entry := by
  induction before generalizing lower with
  | nil =>
      rw [total_nil, add_zero] at above below
      rw [List.nil_append, spin, if_pos ⟨above, below⟩]
  | cons head before inductionHypothesis =>
      have later : ∀ passed ∈ before, 0 ≤ weight passed :=
        fun passed membership => nonneg passed (List.mem_cons_of_mem head membership)
      rw [total_cons, ← add_assoc] at above below
      have behind : lower + weight head ≤ draw :=
        (le_add_of_nonneg_right (total_nonneg later)).trans above
      rw [List.cons_append, spin, if_neg (fun inside => inside.2.not_ge behind)]
      exact inductionHypothesis later above below

end Range

section Reinforce

variable [DecidableEq Key] [Field K]

/-- The weight of an entry after a reward `rate` for `winner`: the winner's gap
to one shrinks by the rate, every other weight evaporates by it. -/
def reinforce (rate : K) (winner key : Key) (weight : K) : K :=
  if key = winner then weight + rate * (1 - weight) else (1 - rate) * weight

/-- Reinforcement moves the total towards the number of winning entries. -/
theorem sum_reinforce (rate : K) (winner : Key) (key : Entry → Key) (weight : Entry → K)
    (wheel : List Entry) :
    (wheel.map fun entry => reinforce rate winner (key entry) (weight entry)).sum =
      (1 - rate) * total weight wheel + rate * ((wheel.map key).count winner : K) := by
  induction wheel with
  | nil => simp
  | cons entry wheel inductionHypothesis =>
      rw [List.map_cons, List.sum_cons, inductionHypothesis, total_cons, List.map_cons]
      by_cases wins : key entry = winner
      · rw [reinforce, if_pos wins, wins, List.count_cons_self, Nat.cast_succ]
        ring
      · rw [reinforce, if_neg wins, List.count_cons_of_ne wins]
        ring

variable [LinearOrder K] [IsStrictOrderedRing K]

theorem reinforce_pos {rate weight : K} (rate_nonneg : 0 ≤ rate) (rate_lt : rate < 1)
    (positive : 0 < weight) (winner key : Key) : 0 < reinforce rate winner key weight := by
  unfold reinforce
  split
  · have kept : 0 < (1 - rate) * weight := mul_pos (by linarith) positive
    linarith
  · exact mul_pos (by linarith) positive

theorem reinforce_mem_unit {rate weight : K} (rate_nonneg : 0 ≤ rate) (rate_le : rate ≤ 1)
    (nonneg : 0 ≤ weight) (le_one : weight ≤ 1) (winner key : Key) :
    0 ≤ reinforce rate winner key weight ∧ reinforce rate winner key weight ≤ 1 := by
  have kept : 0 ≤ (1 - rate) * weight := mul_nonneg (by linarith) nonneg
  have lost : 0 ≤ (1 - rate) * (1 - weight) := mul_nonneg (by linarith) (by linarith)
  have spread : 0 ≤ rate * weight := mul_nonneg rate_nonneg nonneg
  unfold reinforce
  split <;> constructor <;> linarith

/-- A wheel of total at least one keeps such a total when the winner is on it. -/
theorem one_le_sum_reinforce {rate : K} (rate_nonneg : 0 ≤ rate) (rate_le : rate ≤ 1)
    {winner : Key} {key : Entry → Key} {weight : Entry → K} {wheel : List Entry}
    (present : winner ∈ wheel.map key) (enough : 1 ≤ total weight wheel) :
    1 ≤ (wheel.map fun entry => reinforce rate winner (key entry) (weight entry)).sum := by
  have counted : (1 : K) ≤ ((wheel.map key).count winner : K) := by
    exact_mod_cast List.one_le_count_iff.mpr present
  have old : 0 ≤ (1 - rate) * (total weight wheel - 1) :=
    mul_nonneg (by linarith) (by linarith)
  have new : 0 ≤ rate * (((wheel.map key).count winner : K) - 1) :=
    mul_nonneg rate_nonneg (by linarith)
  rw [sum_reinforce]
  linarith

end Reinforce

end Roulette
