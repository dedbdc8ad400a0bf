import Mathlib.Algebra.Order.Round
import Mathlib.Data.Rat.Floor
import Mathlib.Tactic.FieldSimp
import Mathlib.Tactic.Ring

/-! A span cut into equal steps, in whole numbers: the end of each step is rounded to the
nearest one, by adding half the divisor before a division that drops the rest. -/

namespace PrismSdk.Library.Interpolation

/-- The end of step `i` of the `steps` equal steps of a span. -/
def interpolate (span steps i : ℕ) : ℕ := (i * span + steps / 2) / steps

variable {span steps i j : ℕ}

theorem interpolate_no_steps : interpolate span 0 i = 0 := Nat.div_zero _

theorem interpolate_zero : interpolate span steps 0 = 0 := by
  rcases steps.eq_zero_or_pos with rfl | h
  · exact interpolate_no_steps
  · rw [interpolate, Nat.zero_mul, Nat.zero_add]
    exact Nat.div_eq_of_lt (Nat.div_lt_self h Nat.one_lt_two)

/-- The last step ends where the span does. -/
theorem interpolate_last (h : 0 < steps) : interpolate span steps steps = span := by
  rw [interpolate, Nat.add_comm, Nat.add_mul_div_left _ _ h,
    Nat.div_eq_of_lt (Nat.div_lt_self h Nat.one_lt_two), Nat.zero_add]

theorem interpolate_mono (h : i ≤ j) : interpolate span steps i ≤ interpolate span steps j :=
  Nat.div_le_div_right (Nat.add_le_add_right (Nat.mul_le_mul_right span h) _)

/-- Half of an odd divisor may be dropped to the whole number below it. -/
theorem add_half_div (a : ℕ) :
    (a + steps / 2) / steps = (2 * a + steps) / (2 * steps) := by
  have hhalf : (2 * a + steps) / 2 = a + steps / 2 := by omega
  rw [← hhalf, Nat.div_div_eq_div_mul]

/-- Each end is the nearest number, the larger one of two. -/
theorem interpolate_eq_round (h : 0 < steps) :
    (interpolate span steps i : ℤ) = round ((i * span : ℚ) / steps) := by
  have hsteps : (steps : ℚ) ≠ 0 := Nat.cast_ne_zero.2 h.ne'
  have hshift : (i * span : ℚ) / steps + 1 / 2 =
      ((2 * (i * span) + steps : ℕ) : ℚ) / ((2 * steps : ℕ) : ℚ) := by
    push_cast
    field_simp
  rw [round_eq, hshift, Rat.floor_natCast_div_natCast, interpolate, add_half_div]
  rfl

end PrismSdk.Library.Interpolation
