import Mathlib.Tactic.NormNum
import Mathlib.Algebra.Order.Ring.Int

/-!
# Two's-complement machine integers inside `ℤ`

The value of a signed 32-bit expression is kept as an integer; `wrap32` is what the
machine does to a result that leaves the range.  Arithmetic that stays in range is
arithmetic of `ℤ` (`wrap32_of_isInt32`), and a chain of wrapped additions is the wrapped
sum (`wrap32_add_wrap32`), so a running total is exact whenever it fits.
-/

set_option autoImplicit false

namespace Library

/-- The value fits in a signed 32-bit integer. -/
def IsInt32 (x : ℤ) : Prop := -2 ^ 31 ≤ x ∧ x < 2 ^ 31

instance (x : ℤ) : Decidable (IsInt32 x) := inferInstanceAs (Decidable (_ ∧ _))

/-- The signed 32-bit value congruent to `x` modulo `2 ^ 32`. -/
def wrap32 (x : ℤ) : ℤ := Int.bmod x (2 ^ 32)

/-- The unsigned 32-bit value congruent to `x` modulo `2 ^ 32`. -/
def toU32 (x : ℤ) : ℤ := x % 2 ^ 32

/-- INTERNAL: in range, wrapping does nothing. -/
theorem wrap32_of_isInt32 {x : ℤ} (h : IsInt32 x) : wrap32 x = x := by
  obtain ⟨hlo, hhi⟩ := h
  unfold wrap32
  apply Int.bmod_eq_of_le <;> norm_num at * <;> omega

/-- INTERNAL: wrapping always lands in range. -/
theorem isInt32_wrap32 (x : ℤ) : IsInt32 (wrap32 x) := by
  have hlo := Int.le_bmod (x := x) (m := 2 ^ 32) (by norm_num)
  have hhi := Int.bmod_lt (x := x) (m := 2 ^ 32) (by norm_num)
  unfold IsInt32 wrap32
  norm_num at *
  exact ⟨hlo, hhi⟩

@[simp] theorem wrap32_wrap32_add (x y : ℤ) : wrap32 (wrap32 x + y) = wrap32 (x + y) := by
  simp [wrap32]

@[simp] theorem wrap32_add_wrap32 (x y : ℤ) : wrap32 (x + wrap32 y) = wrap32 (x + y) := by
  simp [wrap32]

@[simp] theorem wrap32_wrap32_sub (x y : ℤ) : wrap32 (wrap32 x - y) = wrap32 (x - y) := by
  simp [wrap32]

@[simp] theorem wrap32_mul_wrap32 (x y : ℤ) : wrap32 (x * wrap32 y) = wrap32 (x * y) := by
  simp [wrap32]

/-- INTERNAL: an unsigned variable undoes the wrapping. -/
@[simp] theorem toU32_wrap32 (x : ℤ) : toU32 (wrap32 x) = toU32 x := Int.bmod_emod

/-- INTERNAL: wrapping depends on the value modulo `2 ^ 32` alone. -/
theorem wrap32_congr {x y : ℤ} (h : x % 2 ^ 32 = y % 2 ^ 32) : wrap32 x = wrap32 y := by
  have hx : wrap32 (x % 2 ^ 32) = wrap32 x := Int.emod_bmod x (2 ^ 32)
  have hy : wrap32 (y % 2 ^ 32) = wrap32 y := Int.emod_bmod y (2 ^ 32)
  rw [← hx, h, hy]

/-- INTERNAL: a value with the sign bit is `2 ^ 32` less. -/
theorem wrap32_of_signBit {x : ℤ} (hlo : 2 ^ 31 ≤ x) (hhi : x < 2 ^ 32) :
    wrap32 x = x - 2 ^ 32 := by
  have hwrap : wrap32 x = wrap32 (x - 2 ^ 32) := by
    unfold wrap32
    exact (Int.sub_bmod_right x (2 ^ 32)).symm
  rw [hwrap]
  apply wrap32_of_isInt32
  unfold IsInt32
  omega

end Library
