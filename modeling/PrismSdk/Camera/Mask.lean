import Mathlib.Data.Fintype.Basic
import Mathlib.Data.FinEnum
import Mathlib.Tactic.FinCases

/-! Camera sets as bit masks. The assembler keeps its four cameras in the low
bits of a byte and works on them with shifts and bitwise operators; here each
operator gets the set operation it stands for. -/

namespace PrismSdk.Camera

/-- `static_cast<uint8_t>(1u << camera)`. -/
def cameraBit (camera : Fin 4) : UInt8 := 1 <<< UInt8.ofNat camera.val

/-- `mask & (1u << camera)`. -/
def hasCamera (mask : UInt8) (camera : Fin 4) : Bool := mask &&& cameraBit camera != 0

/-- The loop `for (camera …) if (p camera) mask |= 1u << camera`. -/
def maskOf (p : Fin 4 → Bool) : UInt8 :=
  (List.finRange 4).foldl (fun mask camera => if p camera then mask ||| cameraBit camera else mask) 0

theorem hasCamera_eq_getLsbD (mask : UInt8) (c : Fin 4) :
    hasCamera mask c = mask.toBitVec.getLsbD c.val := by
  obtain ⟨mask⟩ := mask
  fin_cases c <;> revert mask <;> decide +kernel

@[simp] theorem hasCamera_zero (c : Fin 4) : hasCamera 0 c = false := by
  simp [hasCamera]

@[simp] theorem hasCamera_or_bit (mask : UInt8) (c d : Fin 4) :
    hasCamera (mask ||| cameraBit c) d = (hasCamera mask d || decide (c = d)) := by
  simp only [hasCamera_eq_getLsbD]
  fin_cases c <;> fin_cases d <;> simp [cameraBit]

@[simp] theorem hasCamera_and_not_bit (mask : UInt8) (c d : Fin 4) :
    hasCamera (mask &&& ~~~cameraBit c) d = (hasCamera mask d && decide (c ≠ d)) := by
  simp only [hasCamera_eq_getLsbD]
  fin_cases c <;> fin_cases d <;> simp [cameraBit]

theorem hasCamera_and (m n : UInt8) (c : Fin 4) :
    hasCamera (m &&& n) c = (hasCamera m c && hasCamera n c) := by
  simp only [hasCamera_eq_getLsbD, UInt8.toBitVec_and, BitVec.getLsbD_and]

@[simp] theorem hasCamera_maskOf (p : Fin 4 → Bool) (c : Fin 4) :
    hasCamera (maskOf p) c = p c := by
  have step : ∀ (cs : List (Fin 4)) (mask : UInt8),
      hasCamera (cs.foldl (fun mask c => if p c then mask ||| cameraBit c else mask) mask) c =
        (hasCamera mask c || (decide (c ∈ cs) && p c)) := by
    intro cs
    induction cs with
    | nil => simp
    | cons d cs ih =>
      intro mask
      rw [List.foldl_cons, ih]
      by_cases hd : d = c
      · subst hd
        cases p d <;> simp
      · split_ifs <;> simp [hd, Ne.symm hd]
  simp [maskOf, step]

theorem maskOf_hasCamera : ∀ mask : UInt8, mask < 16 → maskOf (hasCamera mask) = mask := by
  decide +kernel

/-- Masks of the four cameras are equal when they hold the same cameras. -/
theorem mask_ext {m n : UInt8} (hm : m < 16) (hn : n < 16)
    (h : ∀ c, hasCamera m c = hasCamera n c) : m = n := by
  rw [← maskOf_hasCamera m hm, ← maskOf_hasCamera n hn, funext h]

theorem mask_eq_zero {m : UInt8} (hm : m < 16) : m = 0 ↔ ∀ c, hasCamera m c = false := by
  refine ⟨fun h c => by simp [h], fun h => mask_ext hm (by decide) (fun c => by simp [h c])⟩

theorem or_bit_lt : ∀ (mask : UInt8) (c : Fin 4), mask < 16 → mask ||| cameraBit c < 16 := by
  decide +kernel

theorem and_not_bit_lt :
    ∀ (mask : UInt8) (c : Fin 4), mask < 16 → mask &&& ~~~cameraBit c < 16 := by
  decide +kernel

/-- Disjoint masks have no bit in common. -/
theorem and_eq_zero {m n : UInt8} (hm : m < 16)
    (h : ∀ c, hasCamera n c = true → hasCamera m c = false) : m &&& n = 0 := by
  have hlt : m &&& n < 16 := by
    rw [UInt8.lt_iff_toNat_lt, UInt8.toNat_and]
    exact Nat.lt_of_le_of_lt Nat.and_le_left (UInt8.lt_iff_toNat_lt.1 hm)
  rw [mask_eq_zero hlt]
  intro c
  rw [hasCamera_and]
  cases hn : hasCamera n c with
  | false => rw [Bool.and_false]
  | true => rw [h c hn, Bool.false_and]

theorem maskOf_lt (p : Fin 4 → Bool) : maskOf p < 16 := by
  have step : ∀ (cs : List (Fin 4)) (mask : UInt8), mask < 16 →
      cs.foldl (fun mask c => if p c then mask ||| cameraBit c else mask) mask < 16 := by
    intro cs
    induction cs with
    | nil => exact fun _ h => h
    | cons c cs ih =>
      intro mask h
      rw [List.foldl_cons]
      split_ifs
      · exact ih _ (or_bit_lt mask c h)
      · exact ih _ h
  exact step _ 0 (by decide)

end PrismSdk.Camera
