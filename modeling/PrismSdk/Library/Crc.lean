import Mathlib.Algebra.Field.ZMod
import Mathlib.Algebra.Polynomial.Div
import Mathlib.Algebra.Polynomial.Degree.Operations
import Mathlib.Tactic.LinearCombination

/-! Cyclic redundancy checks with a reflected shift register of `w` bits. The
register's step is linear, so a step of several bits splits over the bits it
shifts out, and tables of such steps can be indexed by parts of the register.
Read as a polynomial over two elements, bit `i` for the power `w - 1 - i`, the
register is a remainder modulo the generator. -/

namespace PrismSdk.Library.Crc

open Polynomial

variable {w : ℕ}

/-! ### The register -/

/-- One bit: shift out the lowest, and add the polynomial when it was set. -/
def shift (p r : BitVec w) : BitVec w := (r >>> 1) ^^^ (if r.getLsbD 0 then p else 0)

/-- `n` bits. -/
def shifts (p : BitVec w) : ℕ → BitVec w → BitVec w
  | 0, r => r
  | n + 1, r => shifts p n (shift p r)

/-- The register after one more byte of the message. -/
def feed (p r : BitVec w) (byte : BitVec 8) : BitVec w := shifts p 8 (r ^^^ byte.setWidth w)

/-- The register after the bytes of a message. -/
def feedAll (p r : BitVec w) (bytes : List (BitVec 8)) : BitVec w := bytes.foldl (feed p) r

variable (p : BitVec w)

theorem shift_xor (a b : BitVec w) : shift p (a ^^^ b) = shift p a ^^^ shift p b := by
  have hadd : (if (a ^^^ b).getLsbD 0 then p else 0) =
      (if a.getLsbD 0 then p else 0) ^^^ (if b.getLsbD 0 then p else 0) := by
    rw [BitVec.getLsbD_xor]
    cases a.getLsbD 0 <;> cases b.getLsbD 0 <;> simp
  unfold shift
  rw [BitVec.ushiftRight_xor_distrib, hadd]
  ac_rfl

theorem shifts_xor (n : ℕ) (a b : BitVec w) :
    shifts p n (a ^^^ b) = shifts p n a ^^^ shifts p n b := by
  induction n generalizing a b with
  | zero => rfl
  | succ n ih => rw [shifts, shifts, shifts, shift_xor, ih]

theorem shifts_add (m n : ℕ) (r : BitVec w) : shifts p (m + n) r = shifts p n (shifts p m r) := by
  induction m generalizing r with
  | zero => rw [Nat.zero_add]; rfl
  | succ m ih => rw [Nat.succ_add, shifts, ih, shifts]

/-- Bits that are zero are shifted out without trace. -/
theorem shifts_of_low_zero {n : ℕ} {r : BitVec w} (h : ∀ i < n, r.getLsbD i = false) :
    shifts p n r = r >>> n := by
  induction n generalizing r with
  | zero => simp [shifts]
  | succ n ih =>
    have hshift : shift p r = r >>> 1 := by
      rw [shift, h 0 (Nat.succ_pos n)]
      simp
    rw [shifts, hshift, ih, ← BitVec.shiftRight_add, Nat.add_comm]
    intro i hi
    rw [BitVec.getLsbD_ushiftRight]
    exact h (1 + i) (by omega)

/-- The low bits of a register, in place. -/
def low (n : ℕ) (r : BitVec w) : BitVec w := r &&& (BitVec.allOnes w >>> (w - n))

theorem getLsbD_low {n : ℕ} (hn : n ≤ w) (r : BitVec w) (i : ℕ) :
    (low n r).getLsbD i = (decide (i < n) && r.getLsbD i) := by
  by_cases hi : i < w
  · simp only [low, BitVec.getLsbD_and, BitVec.getLsbD_ushiftRight, BitVec.getLsbD_allOnes]
    rw [Bool.and_comm]
    congr 1
    exact decide_eq_decide.2 (by omega)
  · simp [BitVec.getLsbD_of_ge _ _ (not_lt.1 hi)]

theorem low_xor_shiftLeft {n : ℕ} (hn : n ≤ w) (r : BitVec w) :
    low n r ^^^ (r >>> n) <<< n = r := by
  refine BitVec.eq_of_getLsbD_eq fun i hi => ?_
  rw [BitVec.getLsbD_xor, getLsbD_low hn, BitVec.getLsbD_shiftLeft, BitVec.getLsbD_ushiftRight]
  by_cases h : i < n
  · simp [h]
  · simp [h, hi, Nat.add_sub_cancel' (not_lt.1 h)]

/-- `n` bits at once: the table of `n` steps is indexed by the bits shifted out. -/
theorem shifts_eq_table {n : ℕ} (hn : n ≤ w) (r : BitVec w) :
    shifts p n r = (r >>> n) ^^^ shifts p n (low n r) := by
  have hsplit : r = (r ^^^ low n r) ^^^ low n r := by
    rw [BitVec.xor_assoc, BitVec.xor_self, BitVec.xor_zero]
  have hhigh : shifts p n (r ^^^ low n r) = r >>> n := by
    rw [shifts_of_low_zero]
    · refine BitVec.eq_of_getLsbD_eq fun i hi => ?_
      rw [BitVec.getLsbD_ushiftRight, BitVec.getLsbD_ushiftRight, BitVec.getLsbD_xor,
        getLsbD_low hn]
      simp
    · intro i hi
      rw [BitVec.getLsbD_xor, getLsbD_low hn]
      simp [hi]
  conv_lhs => rw [hsplit]
  rw [shifts_xor, hhigh]

/-- Bits put `m` places up are shifted down first. -/
theorem shifts_shiftLeft {m : ℕ} (n : ℕ) {r : BitVec w} (h : ∀ i, w - m ≤ i → r.getLsbD i = false) :
    shifts p (m + n) (r <<< m) = shifts p n r := by
  have hdown : (r <<< m) >>> m = r := by
    refine BitVec.eq_of_getLsbD_eq fun i hi => ?_
    rw [BitVec.getLsbD_ushiftRight, BitVec.getLsbD_shiftLeft]
    by_cases hlt : m + i < w
    · simp [hlt]
    · simp [hlt, h i (by omega)]
  have hzero : ∀ i < m, (r <<< m).getLsbD i = false := by
    intro i hi
    rw [BitVec.getLsbD_shiftLeft]
    simp [hi]
  rw [shifts_add, shifts_of_low_zero p hzero, hdown]

/-! ### Several bytes at once -/

/-- Bytes side by side in a register, the first one lowest. -/
def littleEndian : List (BitVec 8) → BitVec w
  | [] => 0
  | byte :: bytes => byte.setWidth w ^^^ (littleEndian bytes <<< 8)

/-- A byte below others can be put there by either operation. -/
theorem setWidth_or_shiftLeft (byte : BitVec 8) (r : BitVec w) :
    byte.setWidth w ||| r <<< 8 = byte.setWidth w ^^^ r <<< 8 := by
  refine BitVec.eq_of_getLsbD_eq fun i hi => ?_
  rw [BitVec.getLsbD_or, BitVec.getLsbD_xor, BitVec.getLsbD_setWidth, BitVec.getLsbD_shiftLeft]
  by_cases h : i < 8
  · simp [h]
  · simp [BitVec.getLsbD_of_ge byte i (not_lt.1 h)]

theorem getLsbD_littleEndian_of_ge {bytes : List (BitVec 8)} {i : ℕ} (hi : 8 * bytes.length ≤ i) :
    (littleEndian bytes : BitVec w).getLsbD i = false := by
  induction bytes generalizing i with
  | nil => exact BitVec.getLsbD_zero
  | cons byte bytes ih =>
    rw [List.length_cons] at hi
    rw [littleEndian, BitVec.getLsbD_xor, BitVec.getLsbD_setWidth, BitVec.getLsbD_shiftLeft,
      BitVec.getLsbD_of_ge byte i (by omega), ih (show 8 * bytes.length ≤ i - 8 by omega)]
    simp

/-- As many bytes as fit in the register are one step of all their bits. -/
theorem feedAll_eq_shifts (r : BitVec w) {bytes : List (BitVec 8)} (h : 8 * bytes.length ≤ w) :
    feedAll p r bytes = shifts p (8 * bytes.length) (r ^^^ littleEndian bytes) := by
  induction bytes generalizing r with
  | nil => simp [feedAll, shifts, littleEndian]
  | cons byte bytes ih =>
    rw [List.length_cons] at h
    have hrest : (littleEndian bytes : BitVec w) = shifts p 8 (littleEndian bytes <<< 8) :=
      (shifts_shiftLeft p 0 fun i hi => getLsbD_littleEndian_of_ge (by omega)).symm
    rw [show feedAll p r (byte :: bytes) = feedAll p (feed p r byte) bytes from rfl,
      ih _ (by omega), feed, List.length_cons, Nat.mul_succ, Nat.add_comm, shifts_add, littleEndian,
      ← BitVec.xor_assoc, shifts_xor p 8 (r ^^^ byte.setWidth w)]
    rw [← hrest]

/-! ### The polynomial -/

/-- Bit `i` of the register stands for the power `w - 1 - i`. -/
noncomputable def toPoly (r : BitVec w) : (ZMod 2)[X] :=
  ∑ i ∈ Finset.range w, if r.getLsbD i then X ^ (w - 1 - i) else 0

/-- The generator whose lower terms are `p`. -/
noncomputable def generator (p : BitVec w) : (ZMod 2)[X] := X ^ w + toPoly p

/-- The message, first bit first: within a byte the lowest bit comes first. -/
noncomputable def message : List (BitVec 8) → (ZMod 2)[X]
  | [] => 0
  | byte :: bytes => toPoly byte * X ^ (8 * bytes.length) + message bytes

theorem toPoly_xor (a b : BitVec w) : toPoly (a ^^^ b) = toPoly a + toPoly b := by
  unfold toPoly
  rw [← Finset.sum_add_distrib]
  refine Finset.sum_congr rfl fun i _ => ?_
  rw [BitVec.getLsbD_xor]
  cases a.getLsbD i <;> cases b.getLsbD i <;> simp [CharTwo.add_self_eq_zero]

theorem degree_toPoly_lt (r : BitVec w) : (toPoly r).degree < w := by
  refine (degree_sum_le _ _).trans_lt ((Finset.sup_lt_iff (WithBot.bot_lt_coe w)).2 fun i hi => ?_)
  have hw := Finset.mem_range.1 hi
  split_ifs
  · rw [degree_X_pow]
    exact Nat.cast_lt.2 (by omega)
  · rw [degree_zero]
    exact WithBot.bot_lt_coe w

theorem monic_generator (p : BitVec w) : (generator p).Monic :=
  monic_X_pow_add (degree_toPoly_lt p)

theorem degree_generator (p : BitVec w) : (generator p).degree = w := by
  unfold generator
  rw [degree_add_eq_left_of_degree_lt, degree_X_pow]
  rw [degree_X_pow]
  exact degree_toPoly_lt p

/-- One bit is a multiplication by `X`, up to a multiple of the generator. -/
theorem toPoly_shift (hw : 0 < w) (p r : BitVec w) :
    toPoly (shift p r) = X * toPoly r + if r.getLsbD 0 then generator p else 0 := by
  have hmul : X * toPoly r = (if r.getLsbD 0 then X ^ w else 0) + toPoly (r >>> 1) := by
    obtain ⟨n, rfl⟩ := Nat.exists_eq_succ_of_ne_zero hw.ne'
    have hlow : toPoly (r >>> 1) =
        ∑ i ∈ Finset.range n, if r.getLsbD (i + 1) then X ^ (n - i) else (0 : (ZMod 2)[X]) := by
      unfold toPoly
      rw [Finset.sum_range_succ]
      have hlast : (r >>> 1).getLsbD n = false := by
        rw [BitVec.getLsbD_ushiftRight]
        exact BitVec.getLsbD_of_ge _ _ (by omega)
      rw [hlast, if_neg Bool.false_ne_true, add_zero]
      refine Finset.sum_congr rfl fun i _ => ?_
      rw [BitVec.getLsbD_ushiftRight, Nat.add_comm 1 i, Nat.succ_sub_one]
    rw [hlow, toPoly, Finset.mul_sum, Finset.sum_range_succ']
    rw [add_comm]
    congr 1
    · rw [mul_ite, mul_zero, ← pow_succ']
      congr 2
    · refine Finset.sum_congr rfl fun i hi => ?_
      have := Finset.mem_range.1 hi
      rw [mul_ite, mul_zero, ← pow_succ']
      congr 2
      omega
  unfold shift
  rw [toPoly_xor, hmul]
  cases r.getLsbD 0
  · simp [toPoly]
  · simp only [if_true, generator]
    have hsq : (X : (ZMod 2)[X]) ^ w + X ^ w = 0 := CharTwo.add_self_eq_zero _
    linear_combination -hsq

theorem toPoly_shifts (hw : 0 < w) (p : BitVec w) (n : ℕ) (r : BitVec w) :
    ∃ q, toPoly (shifts p n r) = X ^ n * toPoly r + q * generator p := by
  induction n generalizing r with
  | zero => exact ⟨0, by simp [shifts]⟩
  | succ n ih =>
    obtain ⟨q, hq⟩ := ih (shift p r)
    refine ⟨q + X ^ n * if r.getLsbD 0 then 1 else 0, ?_⟩
    rw [shifts, hq, toPoly_shift hw]
    split_ifs <;> ring

theorem toPoly_setWidth (hw : 8 ≤ w) (byte : BitVec 8) :
    toPoly (byte.setWidth w) = toPoly byte * X ^ (w - 8) := by
  unfold toPoly
  rw [Finset.sum_mul, ← Finset.sum_subset (Finset.range_subset_range.2 hw)]
  · refine Finset.sum_congr rfl fun i hi => ?_
    have hi := Finset.mem_range.1 hi
    rw [BitVec.getLsbD_setWidth, ite_mul, zero_mul, ← pow_add,
      show 8 - 1 - i + (w - 8) = w - 1 - i by omega]
    simp [show i < w by omega]
  · intro i _ hi
    rw [Finset.mem_range, not_lt] at hi
    rw [BitVec.getLsbD_setWidth, BitVec.getLsbD_of_ge _ _ hi]
    simp

theorem toPoly_feedAll_add (hw : 8 ≤ w) (p r : BitVec w) (bytes : List (BitVec 8)) :
    ∃ q, toPoly (feedAll p r bytes) =
      toPoly r * X ^ (8 * bytes.length) + message bytes * X ^ w + q * generator p := by
  induction bytes generalizing r with
  | nil => exact ⟨0, by simp [feedAll, message]⟩
  | cons byte bytes ih =>
    obtain ⟨q, hq⟩ := toPoly_shifts (by omega) p 8 (r ^^^ byte.setWidth w)
    obtain ⟨q', hq'⟩ := ih (feed p r byte)
    refine ⟨q' + q * X ^ (8 * bytes.length), ?_⟩
    have hpow : (X : (ZMod 2)[X]) ^ 8 * X ^ (w - 8) = X ^ w := by
      rw [← pow_add]
      congr 1
      omega
    have hlen : (X : (ZMod 2)[X]) ^ (8 * (byte :: bytes).length) = X ^ 8 * X ^ (8 * bytes.length) := by
      rw [← pow_add]
      congr 1
      rw [List.length_cons]
      omega
    have hfeed : toPoly (feed p r byte) =
        X ^ 8 * toPoly r + toPoly byte * X ^ w + q * generator p := by
      rw [feed, hq, toPoly_xor, toPoly_setWidth hw, ← hpow]
      ring
    rw [show feedAll p r (byte :: bytes) = feedAll p (feed p r byte) bytes from rfl, hq', hfeed,
      message, hlen]
    ring

/-- The register is the remainder of the start value and the message, moved up by the
width, modulo the generator. -/
theorem toPoly_feedAll (hw : 8 ≤ w) (p r : BitVec w) (bytes : List (BitVec 8)) :
    toPoly (feedAll p r bytes) =
      (toPoly r * X ^ (8 * bytes.length) + message bytes * X ^ w) %ₘ generator p := by
  obtain ⟨q, hq⟩ := toPoly_feedAll_add hw p r bytes
  refine ((div_modByMonic_unique (-q) _ (monic_generator p) ⟨?_, ?_⟩).2).symm
  · rw [hq]
    ring
  · rw [degree_generator]
    exact degree_toPoly_lt _

/-- The polynomial determines the register. -/
theorem toPoly_injective : Function.Injective (toPoly (w := w)) := by
  intro a b h
  refine BitVec.eq_of_getLsbD_eq fun i hi => ?_
  have hcoeff : ∀ r : BitVec w, (toPoly r).coeff (w - 1 - i) = if r.getLsbD i then 1 else 0 := by
    intro r
    unfold toPoly
    rw [finsetSum_coeff, Finset.sum_eq_single i]
    · split_ifs <;> simp
    · intro j hj hne
      have hj := Finset.mem_range.1 hj
      split_ifs
      · rw [coeff_X_pow, if_neg (by omega)]
      · exact coeff_zero _
    · intro hni
      exact absurd (Finset.mem_range.2 hi) hni
  have := congrArg (coeff · (w - 1 - i)) h
  simp only [hcoeff] at this
  cases ha : a.getLsbD i <;> cases hb : b.getLsbD i <;> simp [ha, hb] at this ⊢

end PrismSdk.Library.Crc
