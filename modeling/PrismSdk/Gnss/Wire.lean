import Mathlib.Data.List.GetD
import Mathlib.Tactic.NormNum
import PrismSdk.Library.LittleEndian

/-! Frames of the USB link, and how the GNSS responses are read from their payloads. A
read past the end of the payload throws. -/

namespace PrismSdk

open Library

/-- `FrameType` is a byte: a frame may carry any, named or not. -/
structure Frame where
  type : UInt8 := 0
  flags : UInt16 := 0
  sequence : UInt32 := 0
  payload : List UInt8 := []
  deriving DecidableEq

namespace Gnss

/-- Code that may throw a `std::runtime_error` with the text. -/
abbrev Result (α : Type) := Except String α

/-- `if (bad) throw std::runtime_error(what)`. -/
def throwIf (bad : Prop) [Decidable bad] (what : String) : Result Unit :=
  if bad then .error what else .ok ()

/-- `n` bytes at `pos`, least significant first. -/
def gnssRead (p : List UInt8) (pos n : ℕ) : Result UInt64 :=
  if pos + n > p.length then .error "truncated GNSS observations"
  else .ok ((List.range n).foldl
    (fun v i => v ||| (p.getD (pos + i) 0).toUInt64 <<< UInt64.ofNat (i * 8)) 0)

theorem bind_eq_ok {α β : Type} {x : Result α} {f : α → Result β} {b : β} :
    x >>= f = .ok b ↔ ∃ a, x = .ok a ∧ f a = .ok b := by
  cases x with
  | error e =>
    constructor
    · rintro ⟨⟩
    · rintro ⟨a, ⟨⟩, -⟩
  | ok a =>
    constructor
    · exact fun h => ⟨a, rfl, h⟩
    · rintro ⟨_, ⟨⟩, h⟩
      exact h

theorem throwIf_eq_ok {bad : Prop} [Decidable bad] {what : String} {u : Unit} :
    throwIf bad what = .ok u ↔ ¬ bad := by
  unfold throwIf
  split_ifs with h
  · simp [h]
  · simp [h]

/-- The loop of `gnssRead` adds up the bytes. -/
theorem toNat_gnssRead (p : List UInt8) {pos n : ℕ} (hn : n ≤ 8) (h : pos + n ≤ p.length) :
    ((List.range n).foldl
      (fun v i => v ||| (p.getD (pos + i) 0).toUInt64 <<< UInt64.ofNat (i * 8)) 0).toNat =
      LittleEndian.value ((p.drop pos).take n) := by
  induction n with
  | zero => simp
  | succ n ih =>
    have ih := ih (by omega) (by omega)
    have hlen : ((p.drop pos).take n).length = n := by
      rw [List.length_take, List.length_drop]
      omega
    have hget : (p.drop pos).take (n + 1) = (p.drop pos).take n ++ [p.getD (pos + n) 0] := by
      have hlt : n < (p.drop pos).length := by
        rw [List.length_drop]
        omega
      rw [List.take_add_one, List.getElem?_eq_getElem hlt, List.getElem_drop,
        List.getD_eq_getElem _ _ (by omega), Option.toList_some]
    have hlow := LittleEndian.value_lt ((p.drop pos).take n)
    have hpow : 256 ^ n = 2 ^ (n * 8) := by
      rw [mul_comm, pow_mul]
      norm_num
    have hbyte := (p.getD (pos + n) 0).toNat_lt
    have hshift : ((p.getD (pos + n) 0).toUInt64 <<< UInt64.ofNat (n * 8)).toNat =
        2 ^ (n * 8) * (p.getD (pos + n) 0).toNat := by
      have hroom : 2 ^ (n * 8) * 2 ^ 8 ≤ 2 ^ 64 := by
        rw [← pow_add]
        exact Nat.pow_le_pow_right (by decide) (by omega)
      rw [UInt64.toNat_shiftLeft, UInt64.toNat_ofNat', UInt8.toNat_toUInt64,
        Nat.mod_eq_of_lt (show n * 8 < 2 ^ 64 by omega),
        Nat.mod_eq_of_lt (show n * 8 < 64 by omega),
        Nat.shiftLeft_eq, mul_comm, Nat.mod_eq_of_lt]
      exact (Nat.mul_lt_mul_of_pos_left hbyte (Nat.two_pow_pos _)).trans_le hroom
    rw [hlen, hpow] at hlow
    rw [List.range_succ, List.foldl_append, List.foldl_cons, List.foldl_nil, UInt64.toNat_or, ih,
      hshift, hget, LittleEndian.value_append, hlen, hpow, LittleEndian.value_cons,
      LittleEndian.value_nil, Nat.or_comm, ← Nat.two_pow_add_eq_or_of_lt hlow]
    ring

/-- A read returns the field that the bytes from `pos` on start with. -/
theorem gnssRead_eq_ok {p : List UInt8} {pos n : ℕ} {v : UInt64} (h0 : 0 < n) (h8 : n ≤ 8) :
    gnssRead p pos n = .ok v ↔
      v.toNat < 256 ^ n ∧ ∃ rest, p.drop pos = LittleEndian.bytes n v.toNat ++ rest := by
  have hlen : (p.drop pos).length = p.length - pos := List.length_drop
  unfold gnssRead
  constructor
  · intro h
    split_ifs at h with hshort
    obtain rfl := Except.ok.inj h
    have htake : ((p.drop pos).take n).length = n := by
      rw [List.length_take]
      omega
    have hlt := LittleEndian.value_lt ((p.drop pos).take n)
    rw [htake] at hlt
    rw [toNat_gnssRead p h8 (by omega)]
    exact ⟨hlt, _, LittleEndian.eq_field_append (by omega)⟩
  · rintro ⟨hv, rest, hrest⟩
    have hle := congrArg List.length hrest
    rw [List.length_append, LittleEndian.length_bytes] at hle
    rw [if_neg (by omega)]
    refine congrArg Except.ok (UInt64.toNat_inj.1 ?_)
    rw [toNat_gnssRead p h8 (by omega), hrest, LittleEndian.value_take_field hv]

/-- A read returns any field that is there. -/
theorem gnssRead_field {p : List UInt8} {pos n : ℕ} (v : UInt64) {rest : List UInt8} (h0 : 0 < n)
    (h8 : n ≤ 8) (hv : v.toNat < 256 ^ n)
    (h : p.drop pos = LittleEndian.bytes n v.toNat ++ rest) : gnssRead p pos n = .ok v :=
  (gnssRead_eq_ok h0 h8).2 ⟨hv, rest, h⟩

/-- The bytes after a field. -/
theorem drop_field {p : List UInt8} {pos n v : ℕ} {rest : List UInt8}
    (h : p.drop pos = LittleEndian.bytes n v ++ rest) : p.drop (pos + n) = rest := by
  rw [← List.drop_drop, h, List.drop_left' (LittleEndian.length_bytes n v)]

/-- A byte of the payload, and the bytes after it. -/
theorem drop_eq_getD_cons {p : List UInt8} {pos : ℕ} (h : pos < p.length) :
    p.drop pos = p.getD pos 0 :: p.drop (pos + 1) := by
  rw [List.getD_eq_getElem _ _ h, List.drop_eq_getElem_cons h]

theorem getD_of_drop {p : List UInt8} {pos : ℕ} {byte : UInt8} {rest : List UInt8}
    (h : p.drop pos = byte :: rest) : p.getD pos 0 = byte ∧ p.drop (pos + 1) = rest := by
  have hget := congrArg List.head? h
  rw [List.head?_drop, List.head?_cons] at hget
  refine ⟨?_, ?_⟩
  · rw [List.getD_eq_getElem?_getD, hget, Option.getD_some]
  · rw [← List.drop_drop, h, List.drop_one, List.tail_cons]

end Gnss

end PrismSdk
