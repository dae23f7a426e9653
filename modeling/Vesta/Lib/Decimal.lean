import Mathlib.Algebra.Order.Field.Rat
import Mathlib.Algebra.Order.Ring.Rat
import Mathlib.Tactic.NormNum
import Vesta.Lib.Rounding
import Vesta.Lib.Text

/-!
# Decimals of two places

Rounding to two places, printing with two places and reading a decimal back.  Half of
the last place is rounded to the even one.  A number of hundredths is left as it is, and
what is printed of it is read back; a sign before a printed number is read when the
number has none of its own.
-/

namespace Vesta
namespace Lib
namespace Decimal

/-- The nearest integer, the even one of two that are equally near. -/
def roundEven (x : ℚ) : ℤ := Rounding.divEven x.num x.den

/-- `round(x, 2)`. -/
def round2 (x : ℚ) : ℚ := roundEven (x * 100) / 100

def hundredths (k : ℤ) : ℚ := k / 100

def magnitude (k : Nat) : Text :=
  Nat.toDigits 10 (k / 100) ++ ['.', Nat.digitChar (k / 10 % 10), Nat.digitChar (k % 10)]

/-- A number of hundredths as it is printed. -/
def signed (k : ℤ) : Text := if k < 0 then '-' :: magnitude k.natAbs else magnitude k.natAbs

/-- A number printed with two places, `:.2f`. -/
def fixed (x : ℚ) : Text := signed (roundEven (x * 100))

def readDigits (whole fraction : Text) : Option ℚ :=
  let digits := whole ++ fraction
  if digits.isEmpty || !digits.all Char.isDigit then none
  else some (Nat.ofDigitChars 10 digits 0 / 10 ^ fraction.length)

def readUnsigned (text : Text) : Option ℚ :=
  match text.splitOn '.' with
  | [whole] => readDigits whole []
  | [whole, fraction] => readDigits whole fraction
  | _ => none

/-- A plain decimal. -/
def read : Text → Option ℚ
  | [] => none
  | c :: text =>
      if c = '-' then (readUnsigned text).map fun x => -x
      else if c = '+' then readUnsigned text
      else readUnsigned (c :: text)

/-! ## Rounding -/

@[simp] theorem roundEven_intCast (k : ℤ) : roundEven k = k := by
  refine le_antisymm (Rounding.divEven_le Nat.one_pos ?_) (Rounding.le_divEven Nat.one_pos ?_)
  · simp
  · simp

theorem roundEven_nonneg
    {x : ℚ}
    (h : 0 ≤ x) :
    0 ≤ roundEven x := by
  refine Rounding.le_divEven x.den_pos ?_
  simpa using Rat.num_nonneg.2 h

theorem hundredths_mul (k : ℤ) : hundredths k * 100 = k := by
  rw [hundredths, div_mul_cancel₀]
  norm_num

theorem round2_eq (x : ℚ) : round2 x = hundredths (roundEven (x * 100)) := rfl

@[simp] theorem round2_hundredths (k : ℤ) : round2 (hundredths k) = hundredths k := by
  rw [round2_eq, hundredths_mul, roundEven_intCast]

theorem hundredths_add (j k : ℤ) : hundredths j + hundredths k = hundredths (j + k) := by
  rw [hundredths, hundredths, hundredths, Int.cast_add, add_div]

theorem hundredths_sub (j k : ℤ) : hundredths j - hundredths k = hundredths (j - k) := by
  rw [hundredths, hundredths, hundredths, Int.cast_sub, sub_div]

theorem hundredths_neg (k : ℤ) : -hundredths k = hundredths (-k) := by
  rw [hundredths, hundredths, Int.cast_neg, neg_div]

theorem hundredths_inj {j k : ℤ} : hundredths j = hundredths k ↔ j = k := by
  constructor
  · intro h
    have hmul := congrArg (· * 100) h
    simp only [hundredths_mul] at hmul
    exact_mod_cast hmul
  · rintro rfl
    rfl

theorem hundredths_le {j k : ℤ} : hundredths j ≤ hundredths k ↔ j ≤ k := by
  rw [hundredths, hundredths, div_le_div_iff_of_pos_right (by norm_num), Int.cast_le]

@[simp] theorem hundredths_zero : hundredths 0 = 0 := by
  rw [hundredths, Int.cast_zero, zero_div]

/-! ## Printing and reading -/

theorem fixed_hundredths (k : ℤ) : fixed (hundredths k) = signed k := by
  rw [fixed, hundredths_mul, roundEven_intCast]

theorem isDigit_toDigits
    {n : Nat} {c : Char}
    (h : c ∈ Nat.toDigits 10 n) :
    c.isDigit = true :=
  Nat.isDigit_of_mem_toDigits (by decide) (by decide) h

theorem readUnsigned_magnitude (k : Nat) : readUnsigned (magnitude k) = some (hundredths k) := by
  have hdigits : ∀ c ∈ Nat.toDigits 10 (k / 100), c.isDigit = true := fun c hc =>
    isDigit_toDigits hc
  have hwhole : '.' ∉ Nat.toDigits 10 (k / 100) := fun h => absurd (hdigits _ h) (by decide)
  have hplace : ∀ n < 10, (Nat.digitChar n).isDigit = true ∧ Nat.digitChar n ≠ '.' := by decide
  have htens := hplace (k / 10 % 10) (Nat.mod_lt _ (by decide))
  have hones := hplace (k % 10) (Nat.mod_lt _ (by decide))
  have hfraction : '.' ∉ [Nat.digitChar (k / 10 % 10), Nat.digitChar (k % 10)] := by
    simp [htens.2.symm, hones.2.symm]
  have hvalue : Nat.ofDigitChars 10
      (Nat.toDigits 10 (k / 100) ++ [Nat.digitChar (k / 10 % 10), Nat.digitChar (k % 10)]) 0 =
        k := by
    rw [Nat.ofDigitChars_append, Nat.ofDigitChars_ten_toDigits,
      Nat.ofDigitChars_cons_digitChar_of_lt_ten (Nat.mod_lt _ (by decide)),
      Nat.ofDigitChars_cons_digitChar_of_lt_ten (Nat.mod_lt _ (by decide)), Nat.ofDigitChars_nil]
    omega
  have hall : (Nat.toDigits 10 (k / 100) ++
      [Nat.digitChar (k / 10 % 10), Nat.digitChar (k % 10)]).all Char.isDigit = true := by
    rw [List.all_append, List.all_eq_true.2 hdigits]
    simp [htens.1, hones.1]
  rw [readUnsigned, magnitude, List.splitOn_append_cons_self, List.splitOn_eq_singleton hwhole,
    List.splitOn_eq_singleton hfraction]
  simp only [List.singleton_append, readDigits, hall, hvalue]
  rw [if_neg (by simp)]
  norm_num [hundredths]

/-- A printed magnitude starts with a digit. -/
theorem exists_magnitude (k : Nat) :
    ∃ c text, magnitude k = c :: text ∧ c.isDigit = true := by
  obtain ⟨c, text, hcons⟩ := List.exists_cons_of_ne_nil
    (List.ne_nil_of_length_pos (Nat.length_toDigits_pos (b := 10) (n := k / 100)))
  refine ⟨c, _, by rw [magnitude, hcons, List.cons_append], ?_⟩
  exact isDigit_toDigits (hcons ▸ List.mem_cons_self)

theorem read_magnitude (k : Nat) : read (magnitude k) = some (hundredths k) := by
  obtain ⟨c, text, hcons, hdigit⟩ := exists_magnitude k
  have hminus : c ≠ '-' := by
    rintro rfl
    exact absurd hdigit (by decide)
  have hplus : c ≠ '+' := by
    rintro rfl
    exact absurd hdigit (by decide)
  rw [hcons, read, if_neg hminus, if_neg hplus, ← hcons, readUnsigned_magnitude]

/-- No number is read behind two signs. -/
theorem readUnsigned_minus (text : Text) : readUnsigned ('-' :: text) = none := by
  have hdigits : ∀ first rest : Text, readDigits ('-' :: first) rest = none := by
    intro first rest
    simp [readDigits]
  have hhead : ('-' :: text).splitOn '.' = (text.splitOn '.').modifyHead (List.cons '-') := by
    rw [List.splitOn_eq_splitOnP, List.splitOn_eq_splitOnP, List.splitOnP_cons_eq_if_modifyHead]
    rfl
  rw [readUnsigned, hhead]
  rcases text.splitOn '.' with _ | ⟨whole, _ | ⟨fraction, _ | ⟨more, rest⟩⟩⟩
  · rfl
  · exact hdigits whole []
  · exact hdigits whole fraction
  · rfl

/-- What is printed of a number of hundredths is read back. -/
theorem read_fixed (k : ℤ) : read (fixed (hundredths k)) = some (hundredths k) := by
  rw [fixed_hundredths, signed]
  split
  · rename_i hneg
    rw [read, if_pos rfl, readUnsigned_magnitude, Option.map_some, hundredths_neg]
    congr 2
    omega
  · rename_i hpos
    rw [read_magnitude]
    congr 2
    omega

/-- A sign put before it is read where the number has none. -/
theorem read_minus_fixed (k : ℤ) :
    read ('-' :: fixed (hundredths k)) = if k < 0 then none else some (hundredths (-k)) := by
  rw [fixed_hundredths, signed, read, if_pos rfl]
  split
  · rw [readUnsigned_minus, Option.map_none]
  · rename_i hpos
    rw [readUnsigned_magnitude, Option.map_some, hundredths_neg]
    congr 3
    omega

end Decimal
end Lib
end Vesta
