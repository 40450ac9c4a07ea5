import Mathlib.Algebra.Order.Field.Basic
import Mathlib.Data.List.Induction
import Mathlib.Tactic.Ring

/-!
# Exponential smoothing

An estimate that moves towards every new value by a fixed share of the distance
stays within every bound the values keep.
-/

section Smoothing

variable {K : Type*} [Field K]

/-- The estimate `old` moved towards `new` by the share `rate`. -/
def smooth (rate old new : K) : K := old + rate * (new - old)

/-- The estimate after further values, oldest first. -/
def smoothAll (rate : K) (first : K) (rest : List K) : K := rest.foldl (smooth rate) first

theorem smooth_eq (rate old new : K) : smooth rate old new = (1 - rate) * old + rate * new := by
  unfold smooth
  ring

@[simp]
theorem smoothAll_concat (rate first : K) (rest : List K) (last : K) :
    smoothAll rate first (rest ++ [last]) = smooth rate (smoothAll rate first rest) last := by
  simp [smoothAll]

theorem smoothAll_append (rate first : K) (early late : List K) :
    smoothAll rate first (early ++ late) = smoothAll rate (smoothAll rate first early) late :=
  List.foldl_append

/-- How much of the first value is left in the estimate. -/
theorem smoothAll_sub (rate first first' : K) (rest : List K) :
    smoothAll rate first rest - smoothAll rate first' rest =
      (1 - rate) ^ rest.length * (first - first') := by
  induction rest using List.reverseRecOn with
  | nil => simp [smoothAll]
  | append_singleton rest last inductionHypothesis =>
      rw [smoothAll_concat, smoothAll_concat, smooth_eq, smooth_eq, List.length_append,
        List.length_singleton, pow_succ]
      calc _ = (1 - rate) * (smoothAll rate first rest - smoothAll rate first' rest) := by ring
        _ = _ := by rw [inductionHypothesis]; ring

theorem smoothAll_replicate_self (rate value : K) (count : ℕ) :
    smoothAll rate value (List.replicate count value) = value := by
  induction count with
  | zero => rfl
  | succ count inductionHypothesis =>
      rw [List.replicate_succ', smoothAll_concat, inductionHypothesis, smooth, sub_self, mul_zero,
        add_zero]

/-- The same value again and again draws the estimate to it. -/
theorem smoothAll_replicate (rate first value : K) (count : ℕ) :
    smoothAll rate first (List.replicate count value) =
      value + (1 - rate) ^ count * (first - value) := by
  have left := smoothAll_sub rate first value (List.replicate count value)
  rw [smoothAll_replicate_self, List.length_replicate] at left
  rw [← left]
  ring

variable [LinearOrder K] [IsStrictOrderedRing K] {rate old new bound : K}

theorem le_smooth (lower : 0 ≤ rate) (upper : rate ≤ 1) (below : bound ≤ old)
    (belowNew : bound ≤ new) : bound ≤ smooth rate old new := by
  have oldPart := mul_le_mul_of_nonneg_left below (sub_nonneg.mpr upper)
  have newPart := mul_le_mul_of_nonneg_left belowNew lower
  calc bound = (1 - rate) * bound + rate * bound := by ring
    _ ≤ (1 - rate) * old + rate * new := add_le_add oldPart newPart
    _ = smooth rate old new := (smooth_eq rate old new).symm

theorem smooth_le (lower : 0 ≤ rate) (upper : rate ≤ 1) (above : old ≤ bound)
    (aboveNew : new ≤ bound) : smooth rate old new ≤ bound := by
  have oldPart := mul_le_mul_of_nonneg_left above (sub_nonneg.mpr upper)
  have newPart := mul_le_mul_of_nonneg_left aboveNew lower
  calc smooth rate old new = (1 - rate) * old + rate * new := smooth_eq rate old new
    _ ≤ (1 - rate) * bound + rate * bound := add_le_add oldPart newPart
    _ = bound := by ring

theorem le_smoothAll (lower : 0 ≤ rate) (upper : rate ≤ 1) {first : K} {rest : List K}
    (below : ∀ value ∈ first :: rest, bound ≤ value) : bound ≤ smoothAll rate first rest := by
  induction rest using List.reverseRecOn with
  | nil => exact below first (List.mem_singleton_self first)
  | append_singleton rest last inductionHypothesis =>
      rw [smoothAll_concat]
      apply le_smooth lower upper
      · exact inductionHypothesis fun value member => below value (List.mem_append_left [last] member)
      · exact below last (by simp)

theorem smoothAll_le (lower : 0 ≤ rate) (upper : rate ≤ 1) {first : K} {rest : List K}
    (above : ∀ value ∈ first :: rest, value ≤ bound) : smoothAll rate first rest ≤ bound := by
  induction rest using List.reverseRecOn with
  | nil => exact above first (List.mem_singleton_self first)
  | append_singleton rest last inductionHypothesis =>
      rw [smoothAll_concat]
      apply smooth_le lower upper
      · exact inductionHypothesis fun value member => above value (List.mem_append_left [last] member)
      · exact above last (by simp)

/-- What is left of the first value bounds the estimate of values above zero. -/
theorem remainder_le_smoothAll (lower : 0 ≤ rate) (upper : rate ≤ 1) {first : K} {rest : List K}
    (below : ∀ value ∈ rest, 0 ≤ value) :
    (1 - rate) ^ rest.length * first ≤ smoothAll rate first rest := by
  have left := smoothAll_sub rate first 0 rest
  have nonneg : 0 ≤ smoothAll rate 0 rest :=
    le_smoothAll lower upper (by simpa using below)
  rw [sub_zero] at left
  rw [← left]
  exact sub_le_self _ nonneg

theorem smoothAll_le_of_remainder (lower : 0 ≤ rate) (upper : rate ≤ 1) {first : K}
    {rest : List K} (above : ∀ value ∈ rest, value ≤ bound) :
    smoothAll rate first rest ≤ bound - (1 - rate) ^ rest.length * (bound - first) := by
  have left := smoothAll_sub rate first bound rest
  have most : smoothAll rate bound rest ≤ bound :=
    smoothAll_le lower upper (by simpa using above)
  calc smoothAll rate first rest =
        smoothAll rate bound rest + (1 - rate) ^ rest.length * (first - bound) := by
          rw [← left]
          ring
    _ ≤ bound + (1 - rate) ^ rest.length * (first - bound) := add_le_add_left most _
    _ = _ := by ring

end Smoothing
