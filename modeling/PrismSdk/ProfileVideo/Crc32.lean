import Mathlib.Data.UInt
import PrismSdk.Library.Crc

/-! The two checksums of the RAW12 envelope: `rawCrc32` of `profile_video.hpp`, which
folds eight bytes at a time through eight tables, and `rawHeaderCrc32` of
`raw12_header.hpp`, which shifts bit by bit. Both are the IEEE CRC-32. -/

namespace PrismSdk.ProfileVideo

open Library (Crc.shift Crc.shifts Crc.feed Crc.feedAll)

/-- `(x >> 1) ^ ((0u - (x & 1u)) & 0xedb88320u)`. -/
def crcBit (x : UInt32) : UInt32 := (x >>> 1) ^^^ ((0 - (x &&& 1)) &&& 0xedb88320)

/-- `for (k = 0; k < n; k++) x = crcBit(x)`. -/
def crcBits : ℕ → UInt32 → UInt32
  | 0, x => x
  | n + 1, x => crcBits n (crcBit x)

def rawHeaderCrc32 (p : List UInt8) : UInt32 :=
  ~~~p.foldl (fun c byte => crcBits 8 (c ^^^ byte.toUInt32)) (~~~0)

def rawLe32 (p0 p1 p2 p3 : UInt8) : UInt32 :=
  p0.toUInt32 ||| p1.toUInt32 <<< 8 ||| p2.toUInt32 <<< 16 ||| p3.toUInt32 <<< 24

/-- `table[j][i]`. Each table is built from the one before it. -/
def crcTable : ℕ → UInt32 → UInt32
  | 0, i => crcBits 8 i
  | j + 1, i => (crcTable j i >>> 8) ^^^ crcBits 8 (crcTable j i &&& 255)

/-- The body of the loop over eight bytes. -/
def crcEight (crc : UInt32) (p0 p1 p2 p3 p4 p5 p6 p7 : UInt8) : UInt32 :=
  let a := rawLe32 p0 p1 p2 p3 ^^^ crc
  let b := rawLe32 p4 p5 p6 p7
  crcTable 7 (a &&& 255) ^^^ crcTable 6 ((a >>> 8) &&& 255) ^^^ crcTable 5 ((a >>> 16) &&& 255) ^^^
    crcTable 4 (a >>> 24) ^^^ crcTable 3 (b &&& 255) ^^^ crcTable 2 ((b >>> 8) &&& 255) ^^^
    crcTable 1 ((b >>> 16) &&& 255) ^^^ crcTable 0 (b >>> 24)

/-- The body of the loop over the tail. -/
def crcByte (crc : UInt32) (byte : UInt8) : UInt32 :=
  (crc >>> 8) ^^^ crcTable 0 ((crc ^^^ byte.toUInt32) &&& 255)

/-- The two loops of `rawCrc32`. -/
def rawCrc32Loop (crc : UInt32) : List UInt8 → UInt32
  | p0 :: p1 :: p2 :: p3 :: p4 :: p5 :: p6 :: p7 :: p =>
    rawCrc32Loop (crcEight crc p0 p1 p2 p3 p4 p5 p6 p7) p
  | p => p.foldl crcByte crc

def rawCrc32 (p : List UInt8) : UInt32 := ~~~rawCrc32Loop (~~~0) p

/-! ### The register -/

/-- The reflected polynomial of the IEEE CRC-32. -/
def ieee : BitVec 32 := 0xedb88320

theorem toBitVec_crcBit (x : UInt32) : (crcBit x).toBitVec = Crc.shift ieee x.toBitVec := by
  have hlow : x.toBitVec &&& 1#32 = (BitVec.ofBool (x.toBitVec.getLsbD 0)).setWidth 32 :=
    BitVec.and_one_eq_setWidth_ofBool_getLsbD
  have hmask : (0#32 - (x.toBitVec &&& 1#32)) &&& 0xedb88320#32 =
      if x.toBitVec.getLsbD 0 then ieee else 0 := by
    rw [hlow]
    cases x.toBitVec.getLsbD 0 <;> decide
  exact congrArg (x.toBitVec >>> 1 ^^^ ·) hmask

theorem toBitVec_crcBits (n : ℕ) (x : UInt32) :
    (crcBits n x).toBitVec = Crc.shifts ieee n x.toBitVec := by
  induction n generalizing x with
  | zero => rfl
  | succ n ih => rw [crcBits, ih, toBitVec_crcBit, Crc.shifts]

theorem and_255 (x : BitVec 32) : x &&& 255#32 = Library.Crc.low 8 x := by
  unfold Library.Crc.low
  congr 1

theorem shifts_eight (x : BitVec 32) :
    Crc.shifts ieee 8 x = (x >>> 8) ^^^ Crc.shifts ieee 8 (x &&& 255#32) := by
  rw [and_255]
  exact Library.Crc.shifts_eq_table ieee (by decide) x

/-- Table `j` steps its index by `j + 1` bytes. -/
theorem toBitVec_crcTable (j : ℕ) (i : UInt32) :
    (crcTable j i).toBitVec = Crc.shifts ieee (8 * (j + 1)) i.toBitVec := by
  induction j with
  | zero => exact toBitVec_crcBits 8 i
  | succ j ih =>
    rw [crcTable, UInt32.toBitVec_xor, toBitVec_crcBits, Nat.mul_succ, Library.Crc.shifts_add, ← ih]
    exact (shifts_eight _).symm

theorem toBitVec_crcByte (crc : UInt32) (byte : UInt8) :
    (crcByte crc byte).toBitVec = Crc.feed ieee crc.toBitVec byte.toBitVec := by
  have hhigh : (crc.toBitVec ^^^ byte.toBitVec.setWidth 32) >>> 8 = crc.toBitVec >>> 8 := by
    refine BitVec.eq_of_getLsbD_eq fun i hi => ?_
    simp [BitVec.getLsbD_setWidth]
  rw [crcByte, UInt32.toBitVec_xor, toBitVec_crcTable, Crc.feed,
    shifts_eight (crc.toBitVec ^^^ _), hhigh]
  rfl

/-- A register is its four bytes, each in its place. -/
theorem eq_bytes (x : BitVec 32) :
    x = (x &&& 255#32) ^^^ ((x >>> 8 &&& 255#32) <<< 8) ^^^ ((x >>> 16 &&& 255#32) <<< 16) ^^^
      ((x >>> 24) <<< 24) := by
  have hbyte : ∀ y : BitVec 32, (y &&& 255#32) ^^^ (y >>> 8) <<< 8 = y := fun y => by
    rw [and_255, Library.Crc.low_xor_shiftLeft (by decide)]
  have h16 : x >>> 16 = x >>> 8 >>> 8 := BitVec.shiftRight_add x 8 8
  have h24 : x >>> 24 = x >>> 16 >>> 8 := BitVec.shiftRight_add x 16 8
  conv_lhs => rw [← hbyte x, ← hbyte (x >>> 8), ← h16, ← hbyte (x >>> 16), ← h24]
  simp only [BitVec.shiftLeft_xor_distrib, ← BitVec.shiftLeft_add, BitVec.xor_assoc]

theorem toBitVec_rawLe32 (p0 p1 p2 p3 : UInt8) : (rawLe32 p0 p1 p2 p3).toBitVec =
    Library.Crc.littleEndian [p0.toBitVec, p1.toBitVec, p2.toBitVec, p3.toBitVec] := by
  have hle : (rawLe32 p0 p1 p2 p3).toBitVec =
      p0.toBitVec.setWidth 32 ||| p1.toBitVec.setWidth 32 <<< 8 |||
        p2.toBitVec.setWidth 32 <<< 16 ||| p3.toBitVec.setWidth 32 <<< 24 := rfl
  have hnest : p0.toBitVec.setWidth 32 ||| p1.toBitVec.setWidth 32 <<< 8 |||
      p2.toBitVec.setWidth 32 <<< 16 ||| p3.toBitVec.setWidth 32 <<< 24 =
      p0.toBitVec.setWidth 32 ||| (p1.toBitVec.setWidth 32 ||| (p2.toBitVec.setWidth 32 |||
        p3.toBitVec.setWidth 32 <<< 8) <<< 8) <<< 8 := by
    simp only [BitVec.shiftLeft_or_distrib, ← BitVec.shiftLeft_add, BitVec.or_assoc]
  rw [hle, hnest]
  simp [Library.Crc.setWidth_or_shiftLeft, Library.Crc.littleEndian]

/-- The tables of four bytes, for a register `8 * k` bits before its end. -/
theorem shifts_bytes (k : ℕ) (x : BitVec 32) :
    Crc.shifts ieee (8 * (k + 4)) x = Crc.shifts ieee (8 * (k + 4)) (x &&& 255#32) ^^^
      Crc.shifts ieee (8 * (k + 3)) (x >>> 8 &&& 255#32) ^^^
      Crc.shifts ieee (8 * (k + 2)) (x >>> 16 &&& 255#32) ^^^
      Crc.shifts ieee (8 * (k + 1)) (x >>> 24) := by
  have hbyte : ∀ (m n : ℕ) (y : BitVec 32), m ≤ 24 → (∀ i, 8 ≤ i → y.getLsbD i = false) →
      Crc.shifts ieee (m + n) (y <<< m) = Crc.shifts ieee n y := fun m n y hm hy =>
    Library.Crc.shifts_shiftLeft ieee n fun i hi => hy i (by omega)
  have hlow : ∀ (y : BitVec 32) (i : ℕ), 8 ≤ i → (y &&& 255#32).getLsbD i = false := by
    intro y i hi
    rw [and_255, Library.Crc.getLsbD_low (by decide)]
    simp [hi]
  have htop : ∀ i, 8 ≤ i → (x >>> 24).getLsbD i = false := by
    intro i hi
    rw [BitVec.getLsbD_ushiftRight]
    exact BitVec.getLsbD_of_ge _ _ (by omega)
  conv_lhs => rw [eq_bytes x]
  simp only [Library.Crc.shifts_xor]
  rw [show 8 * (k + 4) = 8 + 8 * (k + 3) by ring, hbyte 8 _ _ (by decide) (hlow _),
    show 8 + 8 * (k + 3) = 16 + 8 * (k + 2) by ring, hbyte 16 _ _ (by decide) (hlow _),
    show 16 + 8 * (k + 2) = 24 + 8 * (k + 1) by ring, hbyte 24 _ _ (by decide) htop]

/-- The eight tables step the register by eight bytes. -/
theorem toBitVec_crcEight (crc : UInt32) (p0 p1 p2 p3 p4 p5 p6 p7 : UInt8) :
    (crcEight crc p0 p1 p2 p3 p4 p5 p6 p7).toBitVec = Crc.feedAll ieee crc.toBitVec
      ([p0, p1, p2, p3, p4, p5, p6, p7].map UInt8.toBitVec) := by
  have hsplit : Crc.feedAll ieee crc.toBitVec
      ([p0, p1, p2, p3, p4, p5, p6, p7].map UInt8.toBitVec) =
        Crc.feedAll ieee (Crc.feedAll ieee crc.toBitVec
          [p0.toBitVec, p1.toBitVec, p2.toBitVec, p3.toBitVec])
          [p4.toBitVec, p5.toBitVec, p6.toBitVec, p7.toBitVec] := rfl
  rw [hsplit, Library.Crc.feedAll_eq_shifts _ _ (by simp),
    Library.Crc.feedAll_eq_shifts _ _ (by simp), Library.Crc.shifts_xor, ← toBitVec_rawLe32,
    ← toBitVec_rawLe32]
  simp only [List.length_cons, List.length_nil, ← Library.Crc.shifts_add]
  have ha := shifts_bytes 4 (crc.toBitVec ^^^ (rawLe32 p0 p1 p2 p3).toBitVec)
  have hb := shifts_bytes 0 (rawLe32 p4 p5 p6 p7).toBitVec
  simp only [Nat.reduceAdd, Nat.reduceMul] at ha hb ⊢
  rw [ha, hb, BitVec.xor_comm crc.toBitVec]
  simp only [crcEight, UInt32.toBitVec_xor, toBitVec_crcTable, BitVec.xor_assoc]
  rfl

theorem toBitVec_rawCrc32Loop (crc : UInt32) (p : List UInt8) :
    (rawCrc32Loop crc p).toBitVec =
      Crc.feedAll ieee crc.toBitVec (p.map UInt8.toBitVec) := by
  have htail : ∀ (p : List UInt8) (crc : UInt32),
      (p.foldl crcByte crc).toBitVec = Crc.feedAll ieee crc.toBitVec (p.map UInt8.toBitVec) := by
    intro p
    induction p with
    | nil => exact fun _ => rfl
    | cons byte p ih =>
      intro crc
      rw [List.foldl_cons, ih, toBitVec_crcByte]
      rfl
  induction crc, p using rawCrc32Loop.induct with
  | case1 crc p0 p1 p2 p3 p4 p5 p6 p7 p ih =>
    rw [rawCrc32Loop, ih, toBitVec_crcEight, List.map_cons, List.map_cons, List.map_cons,
      List.map_cons, List.map_cons, List.map_cons, List.map_cons, List.map_cons]
    rfl
  | case2 crc p h =>
    rw [rawCrc32Loop.eq_2 _ _ h]
    exact htail p crc

theorem toBitVec_rawHeaderCrc32 (p : List UInt8) :
    (rawHeaderCrc32 p).toBitVec =
      ~~~Crc.feedAll ieee (BitVec.allOnes 32) (p.map UInt8.toBitVec) := by
  have hloop : ∀ (p : List UInt8) (c : UInt32),
      (p.foldl (fun c byte => crcBits 8 (c ^^^ byte.toUInt32)) c).toBitVec =
        Crc.feedAll ieee c.toBitVec (p.map UInt8.toBitVec) := by
    intro p
    induction p with
    | nil => exact fun _ => rfl
    | cons byte p ih =>
      intro c
      rw [List.foldl_cons, ih, toBitVec_crcBits]
      rfl
  rw [rawHeaderCrc32, UInt32.toBitVec_not, hloop]
  rfl

open Polynomial in
theorem generator_ieee : Library.Crc.generator ieee =
    X ^ 32 + (X ^ 26 + X ^ 23 + X ^ 22 + X ^ 16 + X ^ 12 + X ^ 11 + X ^ 10 + X ^ 8 + X ^ 7 +
      X ^ 5 + X ^ 4 + X ^ 2 + X + 1) := by
  unfold Library.Crc.generator Library.Crc.toPoly
  simp only [Finset.sum_range_succ, Finset.sum_range_zero, ieee]
  simp

/-- Both checksums are the IEEE CRC-32: the one number whose polynomial is the remainder
of the message with its first 32 bits complemented, complemented. -/
theorem crc32_ieee (p : List UInt8) :
    rawCrc32 p = rawHeaderCrc32 p ∧ ∀ v : UInt32, v = rawCrc32 p ↔
      Library.Crc.toPoly v.toBitVec =
        (Library.Crc.toPoly (BitVec.allOnes 32) * Polynomial.X ^ (8 * p.length) +
            Library.Crc.message (p.map UInt8.toBitVec) * Polynomial.X ^ 32) %ₘ
          Library.Crc.generator ieee + Library.Crc.toPoly (BitVec.allOnes 32) := by
  have hraw : (rawCrc32 p).toBitVec =
      ~~~Crc.feedAll ieee (BitVec.allOnes 32) (p.map UInt8.toBitVec) := by
    rw [rawCrc32, UInt32.toBitVec_not, toBitVec_rawCrc32Loop]
    rfl
  have hpoly : Library.Crc.toPoly (rawCrc32 p).toBitVec =
      (Library.Crc.toPoly (BitVec.allOnes 32) * Polynomial.X ^ (8 * p.length) +
          Library.Crc.message (p.map UInt8.toBitVec) * Polynomial.X ^ 32) %ₘ
        Library.Crc.generator ieee + Library.Crc.toPoly (BitVec.allOnes 32) := by
    rw [hraw, ← BitVec.xor_allOnes, Library.Crc.toPoly_xor,
      Library.Crc.toPoly_feedAll (by decide), List.length_map]
  refine ⟨UInt32.toBitVec_inj.1 (hraw.trans (toBitVec_rawHeaderCrc32 p).symm), fun v => ?_⟩
  rw [← hpoly, Library.Crc.toPoly_injective.eq_iff, UInt32.toBitVec_inj]

/-- The vector of the self-test: the digits 1 to 9. -/
example : rawCrc32 [0x31, 0x32, 0x33, 0x34, 0x35, 0x36, 0x37, 0x38, 0x39] = 0xcbf43926 := by
  decide +kernel

end PrismSdk.ProfileVideo
