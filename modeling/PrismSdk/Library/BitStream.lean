import Mathlib.Tactic.Common
import Mathlib.Tactic.Ring

/-! Bytes as streams of bits, the least significant bit of each byte first. A number
is the stream of its low bits; a stream that does not end at a byte is packed with
zeros. -/

namespace PrismSdk.Library.BitStream

/-- The `n` low bits of a number, the least significant first. -/
def bits : ℕ → ℕ → List Bool
  | 0, _ => []
  | n + 1, v => decide (v % 2 = 1) :: bits n (v / 2)

/-- The number a stream of bits stands for. -/
def value : List Bool → ℕ
  | [] => 0
  | b :: s => b.toNat + 2 * value s

@[simp] theorem bits_zero (v : ℕ) : bits 0 v = [] := rfl

theorem bits_succ (n v : ℕ) : bits (n + 1) v = decide (v % 2 = 1) :: bits n (v / 2) := rfl

theorem value_cons (b : Bool) (s : List Bool) : value (b :: s) = b.toNat + 2 * value s := rfl

@[simp] theorem length_bits (n v : ℕ) : (bits n v).length = n := by
  induction n generalizing v with
  | zero => rfl
  | succ n ih => rw [bits_succ, List.length_cons, ih]

theorem value_lt (s : List Bool) : value s < 2 ^ s.length := by
  induction s with
  | nil => exact Nat.one_pos
  | cons b s ih =>
    rw [value_cons, List.length_cons, pow_succ]
    have hb := b.toNat_le
    omega

theorem value_bits {n v : ℕ} (h : v < 2 ^ n) : value (bits n v) = v := by
  induction n generalizing v with
  | zero =>
    rw [pow_zero] at h
    exact (Nat.lt_one_iff.1 h).symm
  | succ n ih =>
    rw [pow_succ] at h
    rw [bits_succ, value_cons, ih (show v / 2 < 2 ^ n by omega)]
    rcases Nat.mod_two_eq_zero_or_one v with hv | hv
    · rw [hv, decide_eq_false Nat.zero_ne_one, Bool.toNat_false]
      omega
    · rw [decide_eq_true hv, Bool.toNat_true]
      omega

@[simp] theorem bits_value (s : List Bool) : bits s.length (value s) = s := by
  induction s with
  | nil => rfl
  | cons b s ih =>
    have hmod : (b.toNat + 2 * value s) % 2 = b.toNat := by
      have hb := b.toNat_le
      omega
    have hdiv : (b.toNat + 2 * value s) / 2 = value s := by
      have hb := b.toNat_le
      omega
    rw [List.length_cons, bits_succ, value_cons, hmod, hdiv, ih]
    cases b <;> rfl

/-- The bits of a number with `w` above its `n` low bits. -/
theorem bits_add {n v : ℕ} (m w : ℕ) (h : v < 2 ^ n) :
    bits (n + m) (v + 2 ^ n * w) = bits n v ++ bits m w := by
  induction n generalizing v with
  | zero =>
    rw [pow_zero] at h
    simp [Nat.lt_one_iff.1 h]
  | succ n ih =>
    have hpow : 2 ^ (n + 1) * w = 2 * (2 ^ n * w) := by ring
    rw [pow_succ] at h
    have hmod : (v + 2 * (2 ^ n * w)) % 2 = v % 2 := by omega
    have hdiv : (v + 2 * (2 ^ n * w)) / 2 = v / 2 + 2 ^ n * w := by omega
    rw [hpow, Nat.succ_add, bits_succ, bits_succ, hmod, hdiv, ih (show v / 2 < 2 ^ n by omega),
      List.cons_append]

@[simp] theorem bits_zero_right (n : ℕ) : bits n 0 = List.replicate n false := by
  induction n with
  | zero => rfl
  | succ n ih =>
    rw [bits_succ, Nat.zero_div, ih]
    rfl

/-- A stream split after `n` bits, as the number it stands for is. -/
theorem bits_split (n m v : ℕ) : bits (n + m) v = bits n (v % 2 ^ n) ++ bits m (v / 2 ^ n) := by
  conv_lhs => rw [← Nat.mod_add_div v (2 ^ n)]
  exact bits_add m _ (Nat.mod_lt _ (Nat.two_pow_pos n))

theorem bits_mod (n v : ℕ) : bits n (v % 2 ^ n) = bits n v := by
  have h := bits_split n 0 v
  rw [bits_zero, List.append_nil] at h
  exact h.symm

theorem bits_value_pad (s : List Bool) (m : ℕ) :
    bits (s.length + m) (value s) = s ++ List.replicate m false := by
  have h := bits_add m 0 (value_lt s)
  rwa [Nat.mul_zero, Nat.add_zero, bits_value, bits_zero_right] at h

/-! ### Bytes -/

/-- The bits of a list of bytes. -/
def ofBytes (bytes : List UInt8) : List Bool := bytes.flatMap fun b => bits 8 b.toNat

@[simp] theorem ofBytes_nil : ofBytes [] = [] := rfl

@[simp] theorem ofBytes_cons (b : UInt8) (bytes : List UInt8) :
    ofBytes (b :: bytes) = bits 8 b.toNat ++ ofBytes bytes := rfl

@[simp] theorem ofBytes_append (bytes rest : List UInt8) :
    ofBytes (bytes ++ rest) = ofBytes bytes ++ ofBytes rest := List.flatMap_append

@[simp] theorem length_ofBytes (bytes : List UInt8) : (ofBytes bytes).length = 8 * bytes.length := by
  induction bytes with
  | nil => rfl
  | cons b bytes ih =>
    rw [ofBytes_cons, List.length_append, length_bits, ih, List.length_cons]
    omega

theorem ofBytes_injective : Function.Injective ofBytes := by
  intro bytes
  induction bytes with
  | nil =>
    intro rest h
    have hlen := congrArg List.length h
    rw [length_ofBytes, length_ofBytes, List.length_nil] at hlen
    exact (List.eq_nil_of_length_eq_zero (by omega)).symm
  | cons b bytes ih =>
    intro rest h
    cases rest with
    | nil =>
      have hlen := congrArg List.length h
      rw [length_ofBytes, length_ofBytes, List.length_nil, List.length_cons] at hlen
      omega
    | cons c rest =>
      rw [ofBytes_cons, ofBytes_cons] at h
      obtain ⟨hbyte, hrest⟩ := List.append_inj h (by rw [length_bits, length_bits])
      have hvalue := congrArg value hbyte
      rw [value_bits b.toNat_lt, value_bits c.toNat_lt] at hvalue
      rw [UInt8.toNat_inj.1 hvalue, ih hrest]

/-- The `n` low bytes of a number, the least significant first. -/
def bytesOf (n v : ℕ) : List UInt8 := (List.range n).map fun i => UInt8.ofNat (v / 2 ^ (8 * i))

@[simp] theorem length_bytesOf (n v : ℕ) : (bytesOf n v).length = n := by simp [bytesOf]

theorem ofBytes_bytesOf (n v : ℕ) : ofBytes (bytesOf n v) = bits (8 * n) v := by
  induction n with
  | zero => rfl
  | succ n ih =>
    have hsucc : bytesOf (n + 1) v = bytesOf n v ++ [UInt8.ofNat (v / 2 ^ (8 * n))] := by
      simp [bytesOf, List.range_succ]
    rw [hsucc, ofBytes_append, ih, ofBytes_cons, UInt8.toNat_ofNat', bits_mod, ofBytes_nil,
      List.append_nil, Nat.mul_succ, bits_split (8 * n) 8 v, bits_mod]

/-- The bytes of a stream, with zeros up to the end of the last byte. -/
def pack (s : List Bool) : List UInt8 := bytesOf ((s.length + 7) / 8) (value s)

@[simp] theorem length_pack (s : List Bool) : (pack s).length = (s.length + 7) / 8 :=
  length_bytesOf _ _

theorem ofBytes_pack (s : List Bool) :
    ofBytes (pack s) = s ++ List.replicate (8 * ((s.length + 7) / 8) - s.length) false := by
  have h := bits_value_pad s (8 * ((s.length + 7) / 8) - s.length)
  rw [show s.length + (8 * ((s.length + 7) / 8) - s.length) = 8 * ((s.length + 7) / 8) by omega] at h
  rw [pack, ofBytes_bytesOf, h]

/-- Packing is the only way to end a stream in fewer than eight zeros at a byte. -/
theorem eq_pack_iff {bytes : List UInt8} {s : List Bool} :
    bytes = pack s ↔ ∃ m < 8, ofBytes bytes = s ++ List.replicate m false := by
  constructor
  · rintro rfl
    exact ⟨_, by omega, ofBytes_pack s⟩
  · rintro ⟨m, hm, h⟩
    apply ofBytes_injective
    have hlen := congrArg List.length h
    rw [length_ofBytes, List.length_append, List.length_replicate] at hlen
    rw [ofBytes_pack, h, show 8 * ((s.length + 7) / 8) - s.length = m by omega]

end PrismSdk.Library.BitStream
