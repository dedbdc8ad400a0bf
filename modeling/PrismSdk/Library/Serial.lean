import Mathlib.Data.BitVec
import Mathlib.Tactic.Linarith

/-! Serial number arithmetic: `w`-bit counters that wrap, compared by the sign
of their difference. The comparison is an order only on a window of less than
half the number space, where it is the order of the distances from the start of
the window. -/

namespace PrismSdk.Library.Serial

variable {w : ℕ}

/-- `a` is serially newer than `b`: the signed difference is positive. -/
def Newer (a b : BitVec w) : Prop := 0 < (a - b).toInt

instance (a b : BitVec w) : Decidable (Newer a b) := inferInstanceAs (Decidable (_ < _))

/-- The distance of `a` from `base`, going up. -/
def distance (base a : BitVec w) : ℕ := (a - base).toNat

theorem newer_iff_distance (a b : BitVec w) :
    Newer a b ↔ 0 < distance b a ∧ 2 * distance b a < 2 ^ w := by
  have h := (a - b).isLt
  rw [Newer, distance, BitVec.toInt_eq_toNat_cond]
  split_ifs with hs <;> omega

theorem not_newer_self (a : BitVec w) : ¬ Newer a a := by
  simp [Newer]

/-- The comparison looks at the difference alone. -/
theorem newer_add_right (a b c : BitVec w) : Newer (a + c) (b + c) ↔ Newer a b := by
  rw [Newer, Newer, add_sub_add_right_eq_sub]

/-- Distances inside a window of the number space add up without wrapping. -/
theorem distance_sub {base a b : BitVec w} (h : distance base b ≤ distance base a) :
    distance b a = distance base a - distance base b := by
  have hab : a - b = (a - base) - (b - base) := (sub_sub_sub_cancel_right a b base).symm
  have hb := (b - base).isLt
  have ha := (a - base).isLt
  simp only [distance] at h ⊢
  rw [hab, BitVec.toNat_sub]
  rw [show 2 ^ w - (b - base).toNat + (a - base).toNat =
      (a - base).toNat - (b - base).toNat + 2 ^ w by omega, Nat.add_mod_right,
    Nat.mod_eq_of_lt (by omega)]

theorem distance_injective (base : BitVec w) : Function.Injective (distance base) :=
  fun _ _ h => sub_left_injective (BitVec.eq_of_toNat_eq h)

/-- On a window shorter than half the number space the serial comparison is the
order of the distances. -/
theorem newer_iff {base a b : BitVec w} (ha : 2 * distance base a < 2 ^ w)
    (hb : 2 * distance base b < 2 ^ w) : Newer a b ↔ distance base b < distance base a := by
  rw [newer_iff_distance]
  rcases le_or_gt (distance base b) (distance base a) with h | h
  · rw [distance_sub h]
    omega
  · have hsum : distance b a = 2 ^ w - (distance base b - distance base a) := by
      have hab : a - b = -(b - a) := (neg_sub b a).symm
      have hd : (b - a).toNat = distance base b - distance base a := distance_sub h.le
      rw [distance, hab, BitVec.toNat_neg, hd, Nat.mod_eq_of_lt (by omega)]
    omega

end PrismSdk.Library.Serial
