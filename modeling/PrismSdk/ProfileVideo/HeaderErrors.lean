import Mathlib.Tactic.NormNum.Prime
import PrismSdk.Library.CrcErrors
import PrismSdk.ProfileVideo.Raw12Header

/-! Which errors the IEEE CRC-32 detects, and with it the checksum of a version 2
header: `X` has the largest order there is modulo the polynomial, so any two wrong bits
less than half a gigabyte apart are detected, and no one or two wrong bits make one
header another. -/

namespace PrismSdk.ProfileVideo

open Library (Checked Fault)
open Library.Crc (errors root errors_self)

/-- `2 ^ 32 - 1` has five prime factors. -/
theorem prime_dvd_order {q : ℕ} (hq : q.Prime) (h : q ∣ 2 ^ 32 - 1) :
    q ∈ [3, 5, 17, 257, 65537] := by
  have hfactors : 2 ^ 32 - 1 = 3 * 5 * 17 * 257 * 65537 := by norm_num
  rw [hfactors, hq.dvd_mul, hq.dvd_mul, hq.dvd_mul, hq.dvd_mul,
    Nat.prime_dvd_prime_iff_eq hq (by norm_num), Nat.prime_dvd_prime_iff_eq hq (by norm_num),
    Nat.prime_dvd_prime_iff_eq hq (by norm_num), Nat.prime_dvd_prime_iff_eq hq (by norm_num),
    Nat.prime_dvd_prime_iff_eq hq (by norm_num)] at h
  simpa [or_assoc] using h

theorem orderOf_root_ieee : orderOf (root ieee) = 2 ^ 32 - 1 := by
  apply orderOf_eq_of_pow_and_pow_div_prime (by norm_num)
  · rw [Library.Crc.root_pow_eq_one (by decide) (show 2 ^ 32 - 1 < 2 ^ 32 by norm_num)]
    decide +kernel
  · intro q hq hdvd
    have hmem := prime_dvd_order hq hdvd
    have hlt : (2 ^ 32 - 1) / q < 2 ^ 32 := (Nat.div_le_self _ _).trans_lt (by norm_num)
    rw [Ne, Library.Crc.root_pow_eq_one (by decide) hlt]
    have hpowers : ∀ q ∈ [3, 5, 17, 257, 65537],
        Library.Crc.power ieee (Library.BitStream.bits 32 ((2 ^ 32 - 1) / q)) ≠
          Library.Crc.power ieee [] := by decide +kernel
    exact hpowers q hmem

/-- Up to half a gigabyte, a burst of 32 bits or a pair of bits changes the register. -/
theorem feedAll_ne {r : BitVec 32} {xs ys : List UInt8} (hlen : xs.length = ys.length)
    (hsize : xs.length < 2 ^ 29) (hne : xs ≠ ys)
    (h : (∃ start, errors xs ys ⊆ Finset.Ico start (start + 32)) ∨ (errors xs ys).card = 2) :
    Library.Crc.feedAll ieee r (xs.map UInt8.toBitVec) ≠
      Library.Crc.feedAll ieee r (ys.map UInt8.toBitVec) := by
  rcases h with ⟨start, hburst⟩ | hpair
  · exact Library.Crc.feedAll_ne_of_burst (by decide) (by decide) r hlen hne hburst
  · apply Library.Crc.feedAll_ne_of_pair (by decide) (by decide) r hlen hpair
    rw [orderOf_root_ieee]
    omega

/-! ### One or two wrong bits in a header -/

section Errors

variable {p q : List UInt8} {total : ℕ} {format : UInt8}

/-- A header that passes its checksum leaves a fixed register. -/
theorem HeaderAccepted.feedAll_eq (h : HeaderAccepted p total format)
    (hextended : isExtended p = true) :
    Library.Crc.feedAll ieee (BitVec.allOnes 32) ((p.take (headerBytes p)).map UInt8.toBitVec) =
      Library.Crc.shifts ieee 32 (BitVec.allOnes 32) := by
  have hlegacy := legacyBytes_cases p
  have hle := le_headerBytes p
  have havailable := h.available
  obtain ⟨n, hn⟩ : ∃ n, headerBytes p = n + 4 := ⟨headerBytes p - 4, by omega⟩
  have htail : (p.drop n).take 4 =
      [p.getD n 0, p.getD (n + 1) 0, p.getD (n + 2) 0, p.getD (n + 3) 0] := by
    have hcons : ∀ i < p.length, p.drop i = p.getD i 0 :: p.drop (i + 1) := fun i hi => by
      rw [List.getD_eq_getElem p 0 hi, List.drop_eq_getElem_cons hi]
    rw [hcons n (by omega), hcons (n + 1) (by omega), hcons (n + 2) (by omega),
      hcons (n + 3) (by omega)]
    rfl
  have hcrc := (h.extension hextended).1.2.2
  rw [hn, Nat.add_sub_cancel] at hcrc
  rw [hn, List.take_add, htail, List.map_append]
  apply Library.Crc.feedAll_complement
  · rfl
  · rw [← toBitVec_rawHeaderCrc32, hcrc]
    exact (toBitVec_rawLe32 _ _ _ _).symm

/-- Fewer than three wrong bits do not lead from one magic to the other. -/
theorem isRice_eq_of_errors (hp : HeaderAccepted p total format)
    (hq : HeaderAccepted q total format) (hcard : (errors p q).card ≤ 2) : isRice q = isRice p := by
  have hlength := hp.eight_le
  have hthree : ∀ {x y : UInt8}, p.getD 2 0 = x → q.getD 2 0 = y →
      (∀ i ∈ [0, 2, 3], x.toNat.testBit i ≠ y.toNat.testBit i) → False := by
    intro x y hx hy hbits
    have hsub : {16, 18, 19} ⊆ errors p q := by
      intro i hi
      rw [Library.Crc.mem_errors]
      simp only [Finset.mem_insert, Finset.mem_singleton] at hi
      obtain rfl | rfl | rfl := hi
      · exact ⟨by omega, by rw [hx, hy]; exact hbits 0 (by decide)⟩
      · exact ⟨by omega, by rw [hx, hy]; exact hbits 2 (by decide)⟩
      · exact ⟨by omega, by rw [hx, hy]; exact hbits 3 (by decide)⟩
    have hle := Finset.card_le_card hsub
    have hcard' : ({16, 18, 19} : Finset ℕ).card = 3 := by decide
    omega
  have hthird : ∀ {r : List UInt8} {magic : List UInt8}, r.take 4 = magic →
      r.getD 2 0 = magic.getD 2 0 := by
    rintro r _ rfl
    rw [List.getD_eq_getElem?_getD, List.getD_eq_getElem?_getD, List.getElem?_take_of_lt (by decide)]
  unfold isRice
  rcases hp.magic with hpm | hpm <;> rcases hq.magic with hqm | hqm
  · rw [hpm, hqm]
  · exact (hthree (hthird hpm) (hthird hqm) (by decide)).elim
  · exact (hthree (hthird hpm) (hthird hqm) (by decide)).elim
  · rw [hpm, hqm]

/-- Nor from version 2 to version 1: the header size would have to change as well. -/
theorem isExtended_of_errors (hp : HeaderAccepted p total format)
    (hq : HeaderAccepted q total format) (hextended : isExtended p = true)
    (hcard : (errors p q).card ≤ 2) : isExtended q = true := by
  have hlength := hp.eight_le
  have hrice := isRice_eq_of_errors hp hq hcard
  by_contra hversion
  have hpv : p.getD 4 0 = 2 := of_decide_eq_true hextended
  have hqv : q.getD 4 0 = 1 := hq.version.resolve_right fun htwo => hversion (decide_eq_true htwo)
  have hps := hp.size
  have hqs := hq.size
  rw [headerBytes, if_pos hextended] at hps
  rw [headerBytes, if_neg hversion, legacyBytes, hrice] at hqs
  have hsize : (p.getD 5 0).toNat.testBit 4 ≠ (q.getD 5 0).toNat.testBit 4 := by
    rw [hps, hqs, legacyBytes]
    split_ifs
    · decide
    · decide
  have hsub : {32, 33, 44} ⊆ errors p q := by
    intro i hi
    rw [Library.Crc.mem_errors]
    simp only [Finset.mem_insert, Finset.mem_singleton] at hi
    obtain rfl | rfl | rfl := hi
    · exact ⟨by omega, by rw [hpv, hqv]; decide⟩
    · exact ⟨by omega, by rw [hpv, hqv]; decide⟩
    · exact ⟨by omega, hsize⟩
  have hle := Finset.card_le_card hsub
  have hcard' : ({32, 33, 44} : Finset ℕ).card = 3 := by decide
  omega

/-- One or two wrong bits in a version 2 header are always refused: neither the magic nor
the version can change, and with the same checks the checksum detects them. -/
theorem header_errors_refused (p q : List UInt8) (total : ℕ) (format : UInt8) (header : Raw12Header)
    (hparse : parseRaw12Header (some p) total format = .ok header) (hversion : p.getD 4 0 = 2)
    (hlen : q.length = p.length) (hplace : ∀ i ∈ errors p q, i < 8 * header.bytes)
    (hcard : (errors p q).card = 1 ∨ (errors p q).card = 2) :
    ∃ what, parseRaw12Header (some q) total format = .error (.thrown what) := by
  obtain ⟨_, ⟨⟩, hp, rfl⟩ := (parseRaw12Header_iff _ total format header).1 hparse
  have hextended : isExtended p = true := decide_eq_true hversion
  refine ⟨"Invalid RAW12 envelope header/group CRC", parse_of_not_accepted fun hq => ?_⟩
  have hrice := isRice_eq_of_errors hp hq (by omega)
  have hextended' := isExtended_of_errors hp hq hextended (by omega)
  have hbytes : headerBytes q = headerBytes p := by
    rw [headerBytes, headerBytes, legacyBytes, legacyBytes, hrice, hextended, hextended']
  have hpcrc := hp.feedAll_eq hextended
  have hqcrc := hq.feedAll_eq hextended'
  have havailable := hp.available
  have hlegacy := legacyBytes_cases p
  have hsmall : headerBytes p ≤ 80 := by
    rw [headerBytes, if_pos hextended]
    omega
  rw [hbytes] at hqcrc
  have htake : errors (p.take (headerBytes p)) (q.take (headerBytes p)) = errors p q := by
    rw [Library.Crc.errors_take havailable]
    exact Finset.filter_true_of_mem hplace
  refine feedAll_ne ?_ ?_ ?_ ?_ (hpcrc.trans hqcrc.symm)
  · rw [List.length_take, List.length_take, hlen]
  · rw [List.length_take]
    omega
  · intro heq
    rw [← htake, heq, errors_self, Finset.card_empty] at hcard
    omega
  · rw [htake]
    rcases hcard with hone | htwo
    · obtain ⟨i, hi⟩ := Finset.card_eq_one.1 hone
      refine Or.inl ⟨i, ?_⟩
      rw [hi, Finset.singleton_subset_iff, Finset.mem_Ico]
      omega
    · exact Or.inr htwo

end Errors

/-- A version 2 header without timing. -/
def zstdHeader2 : List UInt8 :=
  prz1 ++ [2, 64, 12, 0, 0x00, 0x14, 0, 0, 0x00, 0x0c, 0, 0, 0x00, 0x00, 0x68, 0x01] ++
    List.replicate 16 0 ++ [2, 0, 0, 0] ++ List.replicate 20 0 ++ [0xb5, 0x55, 0x01, 0xb8]

/-- A wrong bit in the frame number. -/
theorem zstdHeader2_errors_refused : ∃ what,
    parseRaw12Header (some (zstdHeader2.set 24 1)) 65 3 = .error (.thrown what) :=
  header_errors_refused zstdHeader2 _ 65 3 ⟨64, 0⟩ (by decide +kernel) rfl rfl
    (fun _ hi => (Library.Crc.mem_errors.1 hi).1)
    (by rw [Library.Crc.errors_set (by decide)]; decide)

end PrismSdk.ProfileVideo
