import AntAodv.Library.Text
import Mathlib.Data.Rat.Floor

/-!
# Formatted output

`sprintf` with the conversions `%c`, `%s`, `%d`, `%x` and `%f`, their widths and
their precisions.  A character of the output is a character of the format or one
the arguments bring in.
-/

namespace Printf

/-- A piece of a format: a character to copy, or a conversion with its zero flag,
width and precision. -/
inductive Piece where
  | literal (c : Char)
  | conversion (kind : Char) (zero : Bool) (width : ℕ) (places : Option ℕ)
  deriving DecidableEq

/-- Where the reading of a format stands: in text, or inside a conversion. -/
inductive Place where
  | text
  | conversion (zero : Bool) (width : ℕ) (places : Option ℕ)

def digitValue (c : Char) : ℕ := c.toNat - '0'.toNat

def parse : Place → Text → List Piece
  | _, [] => []
  | .text, c :: rest =>
      if c = '%' then parse (.conversion false 0 none) rest
      else .literal c :: parse .text rest
  | .conversion zero width places, c :: rest =>
      if c = '.' then parse (.conversion zero width (some 0)) rest
      else if c.isDigit then
        match places with
        | some places =>
            parse (.conversion zero width (some (10 * places + digitValue c))) rest
        | none =>
            if c = '0' ∧ width = 0 then parse (.conversion true 0 none) rest
            else parse (.conversion zero (10 * width + digitValue c) none) rest
      else .conversion c zero width places :: parse .text rest

/-- An argument. -/
inductive Arg where
  | char (c : Char)
  | str (t : Text)
  | int (n : ℤ)
  | double (x : ℚ)

def padLeft (fill : Char) (width : ℕ) (t : Text) : Text :=
  List.replicate (width - t.length) fill ++ t

/-- The nearest natural number, the even one of two. -/
def roundHalfEven (x : ℚ) : ℕ :=
  let below := ⌊x⌋.toNat
  let rest := x - below
  if rest < 1 / 2 then below
  else if 1 / 2 < rest then below + 1
  else if below % 2 = 0 then below else below + 1

/-- `%.<places>f`. -/
def ofRat (places : ℕ) (x : ℚ) : Text :=
  let scaled := roundHalfEven (|x| * 10 ^ places)
  let whole := Nat.toDigits 10 (scaled / 10 ^ places)
  let fraction := padLeft '0' places (Nat.toDigits 10 (scaled % 10 ^ places))
  (if x < 0 then ['-'] else []) ++ whole ++ '.' :: fraction

/-- `%x` of an `int`, taken as unsigned. -/
def ofHex (n : ℤ) : Text := Nat.toDigits 16 (n % 2 ^ 32).toNat

/-- The output of a conversion; nothing where the argument does not fit it. -/
def convert (kind : Char) (zero : Bool) (width : ℕ) (places : Option ℕ) : Arg → Text
  | .char c => if kind = 'c' then [c] else []
  | .str t => if kind = 's' then padLeft ' ' width t else []
  | .int n =>
      if kind = 'd' then padLeft ' ' width (Text.ofInt n)
      else if kind = 'x' then padLeft (if zero then '0' else ' ') width (ofHex n)
      else []
  | .double x => if kind = 'f' then padLeft ' ' width (ofRat (places.getD 6) x) else []

def render : List Piece → List Arg → Text
  | [], _ => []
  | .literal c :: pieces, args => c :: render pieces args
  | .conversion kind zero width places :: pieces, arg :: args =>
      convert kind zero width places arg ++ render pieces args
  | .conversion _ _ _ _ :: pieces, [] => render pieces []

def sprintf (format : String) (args : List Arg) : Text :=
  render (parse .text format.toList) args

/-! ### Characters and words of the output -/

@[simp]
theorem padLeft_zero (fill : Char) (t : Text) : padLeft fill 0 t = t := by
  simp [padLeft]

theorem mem_padLeft {fill c : Char} {width : ℕ} {t : Text} (member : c ∈ padLeft fill width t) :
    c = fill ∨ c ∈ t := by
  rcases List.mem_append.mp member with padding | inText
  · exact Or.inl (List.eq_of_mem_replicate padding)
  · exact Or.inr inText

/-- Blanks in front of a text add no word. -/
theorem words_padLeft_append (width : ℕ) (t back : Text) :
    Text.words (padLeft ' ' width t ++ back) = Text.words (t ++ back) := by
  rw [padLeft, List.append_assoc]
  induction width - t.length with
  | zero => rfl
  | succ count inductionHypothesis =>
      rw [List.replicate_succ, List.cons_append, Text.words_cons rfl, inductionHypothesis]

theorem mem_ofInt {n : ℤ} {c : Char} (member : c ∈ Text.ofInt n) :
    c.isDigit = true ∨ c = '-' := by
  cases n with
  | ofNat n => exact Or.inl (Text.isDigit_of_mem_toDigits member)
  | negSucc n =>
      rcases List.mem_cons.mp member with minus | digit
      · exact Or.inr minus
      · exact Or.inl (Text.isDigit_of_mem_toDigits digit)

theorem mem_ofRat {places : ℕ} {x : ℚ} {c : Char} (member : c ∈ ofRat places x) :
    c.isDigit = true ∨ c = '-' ∨ c = '.' := by
  simp only [ofRat, List.append_assoc, List.mem_append, List.mem_cons] at member
  rcases member with sign | whole | point | fraction
  · split at sign
    next => exact Or.inr (Or.inl (List.mem_singleton.mp sign))
    next => simp at sign
  · exact Or.inl (Text.isDigit_of_mem_toDigits whole)
  · exact Or.inr (Or.inr point)
  · rcases mem_padLeft fraction with zero | digit
    · exact Or.inl (by rw [zero]; rfl)
    · exact Or.inl (Text.isDigit_of_mem_toDigits digit)

theorem mem_ofHex {n : ℤ} {c : Char} (member : c ∈ ofHex n) :
    c.isDigit = true ∨ c ∈ "abcdef".toList := by
  have digit : ∀ d < 16, (Nat.digitChar d).isDigit = true ∨
      Nat.digitChar d ∈ "abcdef".toList := by decide
  rw [ofHex] at member
  generalize (n % 2 ^ 32).toNat = code at member
  induction code using Nat.strongRecOn with
  | ind code inductionHypothesis =>
      rw [Nat.toDigits_eq_if (by decide)] at member
      split at member
      next below =>
        rw [List.mem_singleton.mp member]
        exact digit code below
      next above =>
        rcases List.mem_append.mp member with higher | last
        · exact inductionHypothesis (code / 16) (by omega) higher
        · rw [List.mem_singleton.mp last]
          exact digit _ (Nat.mod_lt code (by decide))

/-- What an argument can bring into the output, besides blanks. -/
def Arg.Brings (c : Char) : Arg → Prop
  | .char d => c = d
  | .str t => c ∈ t
  | .int _ | .double _ => c.isDigit = true ∨ c ∈ "-.abcdef".toList

@[simp]
theorem Arg.brings_char (c d : Char) : (Arg.char d).Brings c ↔ c = d := Iff.rfl

@[simp]
theorem Arg.brings_str (c : Char) (t : Text) : (Arg.str t).Brings c ↔ c ∈ t := Iff.rfl

theorem mem_convert {kind c : Char} {zero : Bool} {width : ℕ} {places : Option ℕ} {arg : Arg}
    (member : c ∈ convert kind zero width places arg) : c = ' ' ∨ arg.Brings c := by
  cases arg with
  | char d =>
      rw [convert] at member
      split at member
      next => exact Or.inr (List.mem_singleton.mp member)
      next => simp at member
  | str t =>
      rw [convert] at member
      split at member
      next => exact mem_padLeft member
      next => simp at member
  | int n =>
      rw [convert] at member
      split at member
      next =>
        apply (mem_padLeft member).imp_right
        intro inNumeral
        apply (mem_ofInt inNumeral).imp_right
        rintro rfl
        decide
      next =>
        split at member
        next =>
          rcases mem_padLeft member with padding | inNumeral
          · cases zero with
            | false => exact Or.inl padding
            | true =>
                apply Or.inr
                apply Or.inl
                rw [padding]
                rfl
          · apply Or.inr
            apply (mem_ofHex inNumeral).imp_right
            exact fun letter => List.mem_cons_of_mem '-' (List.mem_cons_of_mem '.' letter)
        next => simp at member
  | double x =>
      rw [convert] at member
      split at member
      next =>
        apply (mem_padLeft member).imp_right
        intro inNumeral
        apply (mem_ofRat inNumeral).imp_right
        rintro (rfl | rfl) <;> decide
      next => simp at member

theorem mem_parse {place : Place} {format : Text} {c : Char}
    (member : .literal c ∈ parse place format) : c ∈ format := by
  fun_induction parse place format with
  | case1 => simp at member
  | case2 rest inductionHypothesis => exact List.mem_cons_of_mem _ (inductionHypothesis member)
  | case3 head rest literal inductionHypothesis =>
      rcases List.mem_cons.mp member with here | later
      · exact List.mem_cons.mpr (Or.inl (Piece.literal.inj here))
      · exact List.mem_cons_of_mem _ (inductionHypothesis later)
  | case4 zero width places rest inductionHypothesis =>
      exact List.mem_cons_of_mem _ (inductionHypothesis member)
  | case5 zero width head rest point digit places inductionHypothesis =>
      exact List.mem_cons_of_mem _ (inductionHypothesis member)
  | case6 zero width head rest point digit flag inductionHypothesis =>
      exact List.mem_cons_of_mem _ (inductionHypothesis member)
  | case7 zero width head rest point digit flag inductionHypothesis =>
      exact List.mem_cons_of_mem _ (inductionHypothesis member)
  | case8 zero width places head rest point digit inductionHypothesis =>
      rcases List.mem_cons.mp member with here | later
      · cases here
      · exact List.mem_cons_of_mem _ (inductionHypothesis later)

theorem mem_render {pieces : List Piece} {args : List Arg} {c : Char}
    (member : c ∈ render pieces args) :
    .literal c ∈ pieces ∨ c = ' ' ∨ ∃ arg ∈ args, arg.Brings c := by
  fun_induction render pieces args with
  | case1 => simp at member
  | case2 literal pieces args inductionHypothesis =>
      rcases List.mem_cons.mp member with here | later
      · exact Or.inl (by simp [here])
      · rcases inductionHypothesis later with literal | other
        · exact Or.inl (List.mem_cons_of_mem _ literal)
        · exact Or.inr other
  | case3 kind zero width places pieces arg args inductionHypothesis =>
      rcases List.mem_append.mp member with here | later
      · rcases mem_convert here with blank | brings
        · exact Or.inr (Or.inl blank)
        · exact Or.inr (Or.inr ⟨arg, List.mem_cons_self, brings⟩)
      · rcases inductionHypothesis later with literal | blank | ⟨arg, inArgs, brings⟩
        · exact Or.inl (List.mem_cons_of_mem _ literal)
        · exact Or.inr (Or.inl blank)
        · exact Or.inr (Or.inr ⟨arg, List.mem_cons_of_mem _ inArgs, brings⟩)
  | case4 kind zero width places pieces inductionHypothesis =>
      rcases inductionHypothesis member with literal | other
      · exact Or.inl (List.mem_cons_of_mem _ literal)
      · exact Or.inr other

/-- A character that no numeral has. -/
structure Foreign (c : Char) : Prop where
  blank : c ≠ ' '
  digit : c.isDigit = false
  sign : c ∉ "-.abcdef".toList

instance (c : Char) : Decidable (Foreign c) :=
  decidable_of_iff (c ≠ ' ' ∧ c.isDigit = false ∧ c ∉ "-.abcdef".toList)
    ⟨fun ⟨blank, digit, sign⟩ => ⟨blank, digit, sign⟩,
      fun foreign => ⟨foreign.blank, foreign.digit, foreign.sign⟩⟩

namespace Foreign

variable {c : Char}

theorem int (foreign : Foreign c) (n : ℤ) : ¬ (Arg.int n).Brings c := by
  rintro (digit | sign)
  · simp [foreign.digit] at digit
  · exact foreign.sign sign

theorem double (foreign : Foreign c) (x : ℚ) : ¬ (Arg.double x).Brings c := by
  rintro (digit | sign)
  · simp [foreign.digit] at digit
  · exact foreign.sign sign

theorem notMem_ofInt (foreign : Foreign c) (n : ℤ) : c ∉ Text.ofInt n := by
  intro member
  rcases mem_ofInt member with digit | rfl
  · simp [foreign.digit] at digit
  · exact foreign.sign (by decide)

theorem notMem_ofRat (foreign : Foreign c) (places : ℕ) (x : ℚ) : c ∉ ofRat places x := by
  intro member
  rcases mem_ofRat member with digit | rfl | rfl
  · simp [foreign.digit] at digit
  · exact foreign.sign (by decide)
  · exact foreign.sign (by decide)

theorem notMem_ofHex (foreign : Foreign c) (n : ℤ) : c ∉ ofHex n := by
  intro member
  rcases mem_ofHex member with digit | letter
  · simp [foreign.digit] at digit
  · exact foreign.sign (List.mem_cons_of_mem '-' (List.mem_cons_of_mem '.' letter))

end Foreign

/-- A character that neither the format nor an argument has is not in the output. -/
theorem notMem_sprintf {format : String} {args : List Arg} {c : Char} (foreign : Foreign c)
    (inFormat : c ∉ format.toList) (inArgs : ∀ arg ∈ args, ¬ arg.Brings c) :
    c ∉ sprintf format args := by
  intro member
  rcases mem_render member with literal | isBlank | ⟨arg, isArg, brings⟩
  · exact inFormat (mem_parse literal)
  · exact foreign.blank isBlank
  · exact inArgs arg isArg brings

/-! ### Numerals are words -/

theorem blankless_of_isDigit {c : Char} (isDigit : c.isDigit = true) : Text.isBlank c = false := by
  simp only [Char.isDigit, Bool.and_eq_true, decide_eq_true_eq] at isDigit
  have lower : 48 ≤ c.toNat := isDigit.1
  simp only [Text.isBlank, Bool.or_eq_false_iff, beq_eq_false_iff_ne]
  omega

theorem solid_ofInt (n : ℤ) : Text.Solid (Text.ofInt n) := by
  constructor
  · cases n with
    | ofNat n => exact Nat.toDigits_ne_nil
    | negSucc n => exact List.cons_ne_nil _ _
  · intro c member
    rcases mem_ofInt member with digit | rfl
    · exact blankless_of_isDigit digit
    · rfl

theorem solid_ofHex (n : ℤ) : Text.Solid (ofHex n) := by
  have letters : ∀ c ∈ "abcdef".toList, Text.isBlank c = false := by decide
  refine ⟨Nat.toDigits_ne_nil, ?_⟩
  intro c member
  rcases mem_ofHex member with digit | letter
  · exact blankless_of_isDigit digit
  · exact letters c letter

theorem solid_ofRat (places : ℕ) (x : ℚ) : Text.Solid (ofRat places x) := by
  constructor
  · simp [ofRat]
  · intro c member
    rcases mem_ofRat member with digit | rfl | rfl
    · exact blankless_of_isDigit digit
    · rfl
    · rfl

end Printf
