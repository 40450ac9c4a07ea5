import AntAodv.Library.Text
import Mathlib.Algebra.Order.Ring.Rat
import Mathlib.Tactic.Ring

/-!
# Fields of a line, as awk reads them

The fields of a line are its words.  A field counts as a number where its text is
a decimal numeral; used as a number, any field stands for the numeral at its
front, or for zero.  Numbers are exact.
-/

namespace Awk

/-- The sign of a numeral, true for a minus, and what follows it. -/
def scanSign : Text → Bool × Text
  | '-' :: t => (true, t)
  | '+' :: t => (false, t)
  | t => (false, t)

/-- A numeral without sign and exponent, and what follows it. -/
def scanMantissa (t : Text) : Option (ℚ × Text) :=
  let whole := t.takeWhile Char.isDigit
  let (fraction, rest) := match t.dropWhile Char.isDigit with
    | '.' :: t => (t.takeWhile Char.isDigit, t.dropWhile Char.isDigit)
    | t => ([], t)
  if whole = [] ∧ fraction = [] then none
  else some (Nat.ofDigitChars 10 (whole ++ fraction) 0 / 10 ^ fraction.length, rest)

/-- The exponent at the front of a text, zero if there is none, and what follows
it. -/
def scanExponent (t : Text) : ℤ × Text :=
  match t with
  | c :: rest =>
      let (negative, rest) := scanSign rest
      let digits := rest.takeWhile Char.isDigit
      if (c = 'e' ∨ c = 'E') ∧ digits ≠ [] then
        let size : ℤ := Nat.ofDigitChars 10 digits 0
        (if negative then -size else size, rest.dropWhile Char.isDigit)
      else (0, t)
  | [] => (0, [])

/-- The numeral at the front of a text, and what follows it. -/
def scanNumber (t : Text) : Option (ℚ × Text) :=
  let (negative, t) := scanSign t
  match scanMantissa t with
  | none => none
  | some (mantissa, t) =>
      let (exponent, t) := scanExponent t
      some ((if negative then -mantissa else mantissa) * 10 ^ exponent, t)

/-- A text used as a number. -/
def number (t : Text) : ℚ :=
  match scanNumber t with
  | none => 0
  | some (value, _) => value

/-- Whether a text counts as a number. -/
def looksNumeric (t : Text) : Bool :=
  match scanNumber t with
  | none => false
  | some (_, rest) => rest.isEmpty

/-- The field `$n` of a line, counted from one. -/
def field (line : Text) (n : ℕ) : Option Text := (Text.words line)[n - 1]?

theorem field_of_words {line : Text} {fields : List Text} (split : Text.words line = fields)
    (n : ℕ) : field line n = fields[n - 1]? := by
  rw [field, split]

/-- A field used as a number: zero where the line has no such field. -/
def fieldNumber : Option Text → ℚ
  | none => 0
  | some t => number t

/-- `i == $n`: numbers are compared with a numeral as numbers, with any other
text as text. -/
def equalsField (i : ℕ) : Option Text → Bool
  | none => i == 0
  | some t => if looksNumeric t then number t == i else Nat.toDigits 10 i == t

/-! ### Numerals of integers -/

theorem takeWhile_digits {digits rest : Text} (areDigits : ∀ c ∈ digits, c.isDigit = true)
    (others : ∀ c ∈ rest.head?, c.isDigit = false) :
    (digits ++ rest).takeWhile Char.isDigit = digits ∧
      (digits ++ rest).dropWhile Char.isDigit = rest := by
  rw [List.takeWhile_append_of_pos areDigits, List.dropWhile_append_of_pos areDigits]
  cases rest with
  | nil => simp
  | cons head rest =>
      have other : ¬ head.isDigit = true := by simp [others head rfl]
      simp [List.takeWhile_cons_of_neg other, List.dropWhile_cons_of_neg other]

theorem scanSign_of_isDigit {t : Text} {c : Char} (isDigit : c.isDigit = true) :
    scanSign (c :: t) = (false, c :: t) := by
  unfold scanSign
  split
  next same =>
    obtain ⟨rfl, _⟩ := List.cons.inj same
    exact absurd isDigit (by decide)
  next same =>
    obtain ⟨rfl, _⟩ := List.cons.inj same
    exact absurd isDigit (by decide)
  next => rfl

theorem scanMantissa_digits {digits : Text} (areDigits : ∀ c ∈ digits, c.isDigit = true)
    (nonempty : digits ≠ []) :
    scanMantissa digits = some ((Nat.ofDigitChars 10 digits 0 : ℚ), []) := by
  have nothing : ∀ c ∈ ([] : Text).head?, c.isDigit = false := by simp
  have split := takeWhile_digits areDigits nothing
  rw [List.append_nil] at split
  simp [scanMantissa, split.1, split.2, nonempty]

theorem scanNumber_digits {digits : Text} (areDigits : ∀ c ∈ digits, c.isDigit = true)
    (nonempty : digits ≠ []) :
    scanNumber digits = some ((Nat.ofDigitChars 10 digits 0 : ℚ), []) := by
  obtain ⟨c, rest, rfl⟩ := List.exists_cons_of_ne_nil nonempty
  rw [scanNumber, scanSign_of_isDigit (areDigits c List.mem_cons_self)]
  simp [scanMantissa_digits areDigits nonempty, scanExponent]

/-- A printed integer is read back. -/
@[simp]
theorem number_ofInt (n : ℤ) : number (Text.ofInt n) = n := by
  cases n with
  | ofNat n =>
      rw [number, Text.ofInt, scanNumber_digits (fun c => Text.isDigit_of_mem_toDigits)
        Nat.toDigits_ne_nil]
      simp [Nat.ofDigitChars_ten_toDigits]
  | negSucc n =>
      have areDigits : ∀ c ∈ Nat.toDigits 10 (n + 1), c.isDigit = true :=
        fun c => Text.isDigit_of_mem_toDigits
      have mantissa := scanMantissa_digits areDigits Nat.toDigits_ne_nil
      simp only [number, Text.ofInt, scanNumber, scanSign, mantissa, scanExponent]
      rw [Nat.ofDigitChars_ten_toDigits]
      simp [Int.negSucc_eq]

end Awk
