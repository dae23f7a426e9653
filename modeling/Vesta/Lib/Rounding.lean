import Mathlib.Algebra.Order.Group.Nat
import Mathlib.Algebra.Order.Ring.Int
import Mathlib.Algebra.Order.Ring.Nat
import Mathlib.Order.WithBot

/-!
# Integers as floating-point numbers

A floating-point number has a fixed count of significant bits, so an integer with more of
them is rounded: to the nearest number, and to the even one of two that are equally near.
Rounding keeps the order of the integers, but it can make different ones equal.

A quotient is rounded to an integer in the same way; it stays between the integers that it
was between.
-/

namespace Vesta
namespace Lib
namespace Rounding

/-- The multiple of `2 ^ bits` that an integer is rounded to, counted in `2 ^ bits`. -/
def quotientEven (bits n : Nat) : Nat :=
  let quotient := n / 2 ^ bits
  let rest := n % 2 ^ bits
  if 2 ^ bits < 2 * rest ∨ (2 * rest = 2 ^ bits ∧ quotient % 2 = 1) then quotient + 1 else quotient

/-- The low bits of an integer that are beyond a precision. -/
def excessBits (precision n : Nat) : Nat := Nat.log2 n + 1 - precision

/-- An integer rounded to some count of significant bits. -/
def roundTo (precision n : Nat) : Nat :=
  quotientEven (excessBits precision n) n * 2 ^ excessBits precision n

/-- The double nearest to an integer; from halfway beyond the greatest double on there is none. -/
def toDouble (n : Nat) : WithTop Nat :=
  if n < 2 ^ 1024 - 2 ^ 970 then WithTop.some (roundTo 53 n) else ⊤

example : toDouble 9007199254740993 = WithTop.some 9007199254740992 := by decide +kernel

theorem le_quotientEven (bits n : Nat) : n / 2 ^ bits ≤ quotientEven bits n := by
  rw [quotientEven]
  split
  · exact Nat.le_succ _
  · exact le_rfl

theorem quotientEven_le (bits n : Nat) : quotientEven bits n ≤ n / 2 ^ bits + 1 := by
  rw [quotientEven]
  split
  · exact le_rfl
  · exact Nat.le_succ _

/-- Rounding to multiples of the same power keeps the order. -/
theorem quotientEven_mono
    {bits a b : Nat}
    (h : a ≤ b) :
    quotientEven bits a ≤ quotientEven bits b := by
  have hquotient : a / 2 ^ bits ≤ b / 2 ^ bits := Nat.div_le_div_right h
  rcases Nat.lt_or_eq_of_le hquotient with hlt | heq
  · exact (quotientEven_le bits a).trans (hlt.trans_le (le_quotientEven bits b))
  · have hrest : a % 2 ^ bits ≤ b % 2 ^ bits := by
      have ha := Nat.div_add_mod a (2 ^ bits)
      have hb := Nat.div_add_mod b (2 ^ bits)
      rw [heq] at ha
      omega
    rw [quotientEven, quotientEven]
    rw [heq]
    split
    · rename_i hup
      rw [if_pos]
      rcases hup with hmore | ⟨hhalf, hodd⟩
      · exact .inl (hmore.trans_le (Nat.mul_le_mul_left 2 hrest))
      · rcases Nat.lt_or_eq_of_le hrest with hrest | hrest
        · exact .inl (by omega)
        · exact .inr ⟨by omega, hodd⟩
    · split
      · exact Nat.le_succ _
      · exact le_rfl

/-- A quotient rounded to an integer. -/
def divEven (n : Int) (d : Nat) : Int :=
  let quotient := n / d
  let rest := n % d
  if d < 2 * rest ∨ (2 * rest = d ∧ quotient % 2 = 1) then quotient + 1 else quotient

theorem le_divEven
    {n a : Int} {d : Nat}
    (hd : 0 < d)
    (h : a * d ≤ n) :
    a ≤ divEven n d := by
  have hquotient : a ≤ n / d := (Int.le_ediv_iff_mul_le (by omega)).2 h
  rw [divEven]
  split
  · omega
  · exact hquotient

theorem divEven_le
    {n a : Int} {d : Nat}
    (hd : 0 < d)
    (h : n ≤ a * d) :
    divEven n d ≤ a := by
  have hpos : (0 : Int) < d := by omega
  have hsplit := Int.mul_ediv_add_emod n d
  have hrest := Int.emod_nonneg n hpos.ne'
  have hquotient : n / d ≤ a := by
    rw [← Int.mul_ediv_cancel a hpos.ne']
    exact Int.ediv_le_ediv hpos h
  rw [divEven]
  split
  · rename_i hup
    -- The quotient is not the bound itself: nothing would be left to round.
    have hne : n / d ≠ a := by
      intro heq
      rw [heq, mul_comm] at hsplit
      have hzero : n % d = 0 := by omega
      rw [hzero] at hup
      rcases hup with hup | ⟨hup, -⟩ <;> omega
    omega
  · exact hquotient

section Precision

variable {precision : Nat}

/-- A rounded integer is no less than its leading bit. -/
theorem two_pow_log2_le_roundTo
    {n : Nat}
    (hprecision : 0 < precision)
    (hn : n ≠ 0) :
    2 ^ Nat.log2 n ≤ roundTo precision n := by
  have hbits : excessBits precision n ≤ Nat.log2 n := by
    rw [excessBits]
    omega
  have hsplit : 2 ^ Nat.log2 n =
      2 ^ (Nat.log2 n - excessBits precision n) * 2 ^ excessBits precision n := by
    rw [← Nat.pow_add, Nat.sub_add_cancel hbits]
  have hlead : 2 ^ (Nat.log2 n - excessBits precision n) ≤ n / 2 ^ excessBits precision n := by
    rw [Nat.le_div_iff_mul_le (Nat.two_pow_pos _), ← hsplit]
    exact Nat.log2_self_le hn
  rw [roundTo, hsplit]
  exact Nat.mul_le_mul_right _ (hlead.trans (le_quotientEven _ n))

/-- A rounded integer is at most the next power of two. -/
theorem roundTo_le_two_pow
    {n : Nat} :
    roundTo precision n ≤ 2 ^ (Nat.log2 n + 1) := by
  have hbits : excessBits precision n ≤ Nat.log2 n + 1 := Nat.sub_le _ _
  have hsplit : 2 ^ (Nat.log2 n + 1) =
      2 ^ (Nat.log2 n + 1 - excessBits precision n) * 2 ^ excessBits precision n := by
    rw [← Nat.pow_add, Nat.sub_add_cancel hbits]
  have hquotient :
      n / 2 ^ excessBits precision n < 2 ^ (Nat.log2 n + 1 - excessBits precision n) := by
    rw [Nat.div_lt_iff_lt_mul (Nat.two_pow_pos _), ← hsplit]
    exact Nat.lt_log2_self
  rw [roundTo, hsplit]
  exact Nat.mul_le_mul_right _ ((quotientEven_le _ n).trans hquotient)

theorem log2_mono
    {a b : Nat}
    (h : a ≤ b) :
    Nat.log2 a ≤ Nat.log2 b := by
  by_cases ha : a = 0
  · subst ha
    exact Nat.zero_le _
  · have hb : b ≠ 0 := by omega
    rw [Nat.le_log2 hb]
    exact (Nat.log2_self_le ha).trans h

/-- Rounding keeps the order. -/
theorem roundTo_mono
    {a b : Nat}
    (hprecision : 0 < precision)
    (h : a ≤ b) :
    roundTo precision a ≤ roundTo precision b := by
  rcases Nat.lt_or_eq_of_le (log2_mono h) with hlt | heq
  · have hb : b ≠ 0 := by
      rintro rfl
      simp at hlt
    calc
      roundTo precision a ≤ 2 ^ (Nat.log2 a + 1) := roundTo_le_two_pow
      _ ≤ 2 ^ Nat.log2 b := Nat.pow_le_pow_right Nat.two_pos hlt
      _ ≤ roundTo precision b := two_pow_log2_le_roundTo hprecision hb
  · have hbits : excessBits precision a = excessBits precision b := by
      rw [excessBits, excessBits, heq]
    rw [roundTo, roundTo, hbits]
    exact Nat.mul_le_mul_right _ (quotientEven_mono h)

@[simp] theorem roundTo_zero : roundTo precision 0 = 0 := by
  simp [roundTo, quotientEven]

theorem roundTo_eq_zero_iff
    {n : Nat}
    (hprecision : 0 < precision) :
    roundTo precision n = 0 ↔ n = 0 := by
  constructor
  · intro h
    by_contra hn
    have hlead := two_pow_log2_le_roundTo hprecision hn
    have hpos := Nat.two_pow_pos (Nat.log2 n)
    omega
  · rintro rfl
    exact roundTo_zero

end Precision

end Rounding
end Lib
end Vesta
