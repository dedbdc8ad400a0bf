import Mathlib.Tactic.Common
import Mathlib.Tactic.Ring

/-! Numbers on the wire: `n` bytes, the least significant one first. A list of at least
`n` bytes starts with exactly one such field. -/

namespace PrismSdk.Library.LittleEndian

/-- The number a list of bytes stands for. -/
def value : List UInt8 → ℕ
  | [] => 0
  | b :: bs => b.toNat + 256 * value bs

/-- The `n` low bytes of a number. -/
def bytes : ℕ → ℕ → List UInt8
  | 0, _ => []
  | n + 1, v => UInt8.ofNat v :: bytes n (v / 256)

@[simp] theorem value_nil : value [] = 0 := rfl

theorem value_cons (b : UInt8) (bs : List UInt8) : value (b :: bs) = b.toNat + 256 * value bs := rfl

@[simp] theorem bytes_zero (v : ℕ) : bytes 0 v = [] := rfl

theorem bytes_succ (n v : ℕ) : bytes (n + 1) v = UInt8.ofNat v :: bytes n (v / 256) := rfl

@[simp] theorem length_bytes (n v : ℕ) : (bytes n v).length = n := by
  induction n generalizing v with
  | zero => rfl
  | succ n ih => rw [bytes_succ, List.length_cons, ih]

theorem value_lt (bs : List UInt8) : value bs < 256 ^ bs.length := by
  induction bs with
  | nil => exact Nat.one_pos
  | cons b bs ih =>
    have hb := b.toNat_lt
    rw [value_cons, List.length_cons, pow_succ]
    omega

theorem value_bytes {n v : ℕ} (h : v < 256 ^ n) : value (bytes n v) = v := by
  induction n generalizing v with
  | zero => exact (Nat.lt_one_iff.1 h).symm
  | succ n ih =>
    rw [pow_succ] at h
    rw [bytes_succ, value_cons, ih (show v / 256 < 256 ^ n by omega), UInt8.toNat_ofNat']
    omega

@[simp] theorem bytes_value (bs : List UInt8) : bytes bs.length (value bs) = bs := by
  induction bs with
  | nil => rfl
  | cons b bs ih =>
    have hb := b.toNat_lt
    have hdiv : (b.toNat + 256 * value bs) / 256 = value bs := by omega
    have hlow : UInt8.ofNat (b.toNat + 256 * value bs) = b := by
      rw [← UInt8.toNat_inj, UInt8.toNat_ofNat']
      omega
    rw [List.length_cons, value_cons, bytes_succ, hdiv, hlow, ih]

theorem value_append (xs ys : List UInt8) :
    value (xs ++ ys) = value xs + 256 ^ xs.length * value ys := by
  induction xs with
  | nil => simp
  | cons b xs ih =>
    rw [List.cons_append, value_cons, value_cons, ih, List.length_cons, pow_succ]
    ring

/-- The field at the front of a list, and what follows it. -/
theorem eq_field_append {n : ℕ} {bs : List UInt8} (h : n ≤ bs.length) :
    bs = bytes n (value (bs.take n)) ++ bs.drop n := by
  have htake := bytes_value (bs.take n)
  rw [List.length_take, Nat.min_eq_left h] at htake
  rw [htake, List.take_append_drop]

theorem value_take_field {n v : ℕ} (h : v < 256 ^ n) (rest : List UInt8) :
    value ((bytes n v ++ rest).take n) = v := by
  rw [List.take_append_of_le_length (length_bytes n v).ge,
    List.take_of_length_le (length_bytes n v).le, value_bytes h]

end PrismSdk.Library.LittleEndian
