import AntAodv.Library.Awk
import AntAodv.Library.Printf
import Mathlib.Algebra.Order.Field.Basic
import Mathlib.Tactic.Linarith

/-!
# Numerals that are printed and read back

A number printed with some decimals is read back as the nearest number with so many
decimals, so it is off by at most half a unit in the last place, and the order of
numbers is kept.
-/

namespace Printf

/-! ### Rounding -/

theorem abs_roundHalfEven_sub {x : ℚ} (nonneg : 0 ≤ x) : |(roundHalfEven x : ℚ) - x| ≤ 1 / 2 := by
  have floor : (⌊x⌋.toNat : ℚ) = ⌊x⌋ := by
    exact_mod_cast Int.toNat_of_nonneg (Int.floor_nonneg.mpr nonneg)
  have below := Int.floor_le x
  have above := Int.lt_floor_add_one x
  simp only [roundHalfEven]
  rw [abs_le]
  split_ifs <;> push_cast [floor] <;> constructor <;> linarith

theorem roundHalfEven_mono {x y : ℚ} (nonneg : 0 ≤ x) (order : x ≤ y) :
    roundHalfEven x ≤ roundHalfEven y := by
  have close := abs_le.mp (abs_roundHalfEven_sub nonneg)
  have close' := abs_le.mp (abs_roundHalfEven_sub (nonneg.trans order))
  by_contra above
  have gap : (roundHalfEven y : ℚ) + 1 ≤ roundHalfEven x := by
    exact_mod_cast Nat.lt_of_not_le above
  have same : x = y := by linarith
  rw [same] at gap
  linarith

/-- The number that is printed with `places` decimals for `x`. -/
def printed (places : ℕ) (x : ℚ) : ℚ :=
  (if x < 0 then -1 else 1) * (roundHalfEven (|x| * 10 ^ places) / 10 ^ places)

/-- At most half a unit in the last place is lost. -/
theorem abs_printed_sub (places : ℕ) (x : ℚ) :
    |printed places x - x| ≤ 1 / 2 / 10 ^ places := by
  have unit : (0 : ℚ) < 10 ^ places := by positivity
  have close := abs_roundHalfEven_sub (mul_nonneg (abs_nonneg x) unit.le)
  have magnitude : abs ((roundHalfEven (|x| * 10 ^ places) : ℚ) / 10 ^ places - |x|) ≤
      1 / 2 / 10 ^ places := by
    rw [div_sub' unit.ne', abs_div, abs_of_pos unit, mul_comm (10 ^ places : ℚ)]
    exact div_le_div_of_nonneg_right close unit.le
  unfold printed
  split
  next negative =>
    rw [abs_of_neg negative] at magnitude ⊢
    rw [← abs_neg]
    convert magnitude using 2
    ring
  next nonneg =>
    rw [abs_of_nonneg (not_lt.mp nonneg)] at magnitude ⊢
    rwa [one_mul]

theorem printed_mono (places : ℕ) {x y : ℚ} (order : x ≤ y) :
    printed places x ≤ printed places y := by
  have unit : (0 : ℚ) < 10 ^ places := by positivity
  have nonneg : ∀ x : ℚ, 0 ≤ (roundHalfEven (|x| * 10 ^ places) : ℚ) / 10 ^ places := fun x => by
    positivity
  have magnitude : ∀ {x y : ℚ}, |x| ≤ |y| →
      (roundHalfEven (|x| * 10 ^ places) : ℚ) / 10 ^ places ≤
        roundHalfEven (|y| * 10 ^ places) / 10 ^ places := by
    intro x y order
    apply div_le_div_of_nonneg_right _ unit.le
    exact_mod_cast roundHalfEven_mono (by positivity) (mul_le_mul_of_nonneg_right order unit.le)
  unfold printed
  by_cases negative : x < 0
  · rw [if_pos negative]
    by_cases negative' : y < 0
    · rw [if_pos negative']
      have smaller := magnitude (show |y| ≤ |x| by
        rw [abs_of_neg negative, abs_of_neg negative']
        linarith)
      linarith
    · rw [if_neg negative']
      linarith [nonneg x, nonneg y]
  · have positive : ¬ y < 0 := by linarith
    rw [if_neg negative, if_neg positive, one_mul, one_mul]
    apply magnitude
    rwa [abs_of_nonneg (not_lt.mp negative), abs_of_nonneg (not_lt.mp positive)]

end Printf

/-! ### Reading back -/

namespace Awk

open Printf

theorem scanMantissa_point {whole fraction : Text} (areDigits : ∀ c ∈ whole, c.isDigit = true)
    (areDigits' : ∀ c ∈ fraction, c.isDigit = true) (nonempty : whole ≠ []) :
    scanMantissa (whole ++ '.' :: fraction) =
      some ((Nat.ofDigitChars 10 (whole ++ fraction) 0 : ℚ) / 10 ^ fraction.length, []) := by
  have point : ∀ c ∈ ('.' :: fraction).head?, c.isDigit = false := by simp
  have nothing : ∀ c ∈ ([] : Text).head?, c.isDigit = false := by simp
  have front := takeWhile_digits areDigits point
  have back := takeWhile_digits areDigits' nothing
  rw [List.append_nil] at back
  simp [scanMantissa, front.1, front.2, back.1, back.2, nonempty]

/-- The digits of a printed number. -/
theorem ofDigitChars_fixed {places : ℕ} (positive : 0 < places) (scaled : ℕ) :
    (padLeft '0' places (Nat.toDigits 10 (scaled % 10 ^ places))).length = places ∧
      Nat.ofDigitChars 10 (Nat.toDigits 10 (scaled / 10 ^ places) ++
        padLeft '0' places (Nat.toDigits 10 (scaled % 10 ^ places))) 0 = scaled := by
  have fits : (Nat.toDigits 10 (scaled % 10 ^ places)).length ≤ places :=
    (Nat.length_toDigits_le_iff (by decide) positive).mpr (Nat.mod_lt _ (by positivity))
  have length : (padLeft '0' places (Nat.toDigits 10 (scaled % 10 ^ places))).length = places := by
    rw [padLeft, List.length_append, List.length_replicate]
    omega
  refine ⟨length, ?_⟩
  rw [Nat.ofDigitChars_append, Nat.ofDigitChars_ten_toDigits, Nat.ofDigitChars_eq_ofDigitChars_zero,
    length, padLeft, Nat.ofDigitChars_append, Nat.ofDigitChars_replicate_zero, Nat.mul_zero,
    Nat.ofDigitChars_ten_toDigits]
  exact Nat.div_add_mod scaled (10 ^ places)

theorem scanMantissa_fixed {places : ℕ} (positive : 0 < places) (scaled : ℕ) :
    scanMantissa (Nat.toDigits 10 (scaled / 10 ^ places) ++
      '.' :: padLeft '0' places (Nat.toDigits 10 (scaled % 10 ^ places))) =
        some ((scaled : ℚ) / 10 ^ places, []) := by
  obtain ⟨length, value⟩ := ofDigitChars_fixed positive scaled
  have fraction : ∀ c ∈ padLeft '0' places (Nat.toDigits 10 (scaled % 10 ^ places)),
      c.isDigit = true := by
    intro c member
    rcases mem_padLeft member with rfl | digit
    · rfl
    · exact Text.isDigit_of_mem_toDigits digit
  rw [scanMantissa_point (fun c => Text.isDigit_of_mem_toDigits) fraction Nat.toDigits_ne_nil,
    value, length]

theorem scanNumber_ofRat {places : ℕ} (positive : 0 < places) (x : ℚ) :
    scanNumber (ofRat places x) = some (printed places x, []) := by
  simp only [ofRat, printed]
  have mantissa := scanMantissa_fixed positive (roundHalfEven (|x| * 10 ^ places))
  by_cases negative : x < 0
  · rw [if_pos negative, if_pos negative]
    simp [scanNumber, scanSign, mantissa, scanExponent]
  · rw [if_neg negative, if_neg negative, List.nil_append]
    cases whole : Nat.toDigits 10 (roundHalfEven (|x| * 10 ^ places) / 10 ^ places) with
    | nil => exact absurd whole Nat.toDigits_ne_nil
    | cons c digits =>
        have isDigit : c.isDigit = true := Text.isDigit_of_mem_toDigits (whole ▸ List.mem_cons_self)
        rw [whole] at mantissa
        rw [List.cons_append] at mantissa ⊢
        rw [scanNumber, scanSign_of_isDigit isDigit]
        simp [mantissa, scanExponent]

/-- A printed number is read back. -/
theorem number_ofRat {places : ℕ} (positive : 0 < places) (x : ℚ) :
    number (ofRat places x) = printed places x := by
  rw [number, scanNumber_ofRat positive]

theorem looksNumeric_ofRat {places : ℕ} (positive : 0 < places) (x : ℚ) :
    looksNumeric (ofRat places x) = true := by
  rw [looksNumeric, scanNumber_ofRat positive]
  rfl

end Awk
