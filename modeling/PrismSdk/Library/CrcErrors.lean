import Mathlib.Data.List.GetD
import Mathlib.GroupTheory.OrderOfElement
import Mathlib.RingTheory.AdjoinRoot
import PrismSdk.Library.BitStream
import PrismSdk.Library.Crc

/-! The errors a cyclic redundancy check detects. Two messages of one length leave the
same register only when the generator divides the polynomial of the bits in which they
differ. It divides no burst as narrow as the register, and no pair of bits closer than
the order of `X` modulo the generator, which products of registers compute. -/

namespace PrismSdk.Library.Crc

open Polynomial
open BitStream (ofBytes bits value)

variable {w : ℕ}

/-! ### Streams of bits -/

/-- The polynomial of a stream, the first bit for the highest power. -/
noncomputable def streamPoly : List Bool → (ZMod 2)[X]
  | [] => 0
  | b :: s => (if b then X ^ s.length else 0) + streamPoly s

theorem streamPoly_append (s t : List Bool) :
    streamPoly (s ++ t) = streamPoly s * X ^ t.length + streamPoly t := by
  induction s with
  | nil => simp [streamPoly]
  | cons b s ih =>
    rw [List.cons_append, streamPoly, ih, streamPoly, List.length_append, add_mul, ite_mul,
      zero_mul, ← pow_add, add_assoc]

theorem streamPoly_eq_sum (s : List Bool) : streamPoly s =
    ∑ i ∈ Finset.range s.length, if s.getD i false then X ^ (s.length - 1 - i) else 0 := by
  induction s with
  | nil => rfl
  | cons b s ih =>
    rw [streamPoly, ih, List.length_cons, Finset.sum_range_succ', add_comm]
    congr 1
    refine Finset.sum_congr rfl fun i _ => ?_
    rw [List.getD_cons_succ, show s.length + 1 - 1 - (i + 1) = s.length - 1 - i by omega]

theorem getD_bits {n i : ℕ} (hi : i < n) (v : ℕ) : (bits n v).getD i false = v.testBit i := by
  induction n generalizing i v with
  | zero => omega
  | succ n ih =>
    rw [BitStream.bits_succ]
    cases i with
    | zero => rw [List.getD_cons_zero, Nat.testBit_zero]
    | succ i => rw [List.getD_cons_succ, ih (by omega), Nat.testBit_succ]

theorem toPoly_eq_streamPoly (r : BitVec w) : toPoly r = streamPoly (bits w r.toNat) := by
  rw [streamPoly_eq_sum, BitStream.length_bits, toPoly]
  refine Finset.sum_congr rfl fun i hi => ?_
  rw [getD_bits (Finset.mem_range.1 hi)]
  rfl

theorem message_eq_streamPoly (bytes : List UInt8) :
    message (bytes.map UInt8.toBitVec) = streamPoly (ofBytes bytes) := by
  induction bytes with
  | nil => rfl
  | cons b bytes ih =>
    rw [List.map_cons, message, ih, BitStream.ofBytes_cons, streamPoly_append, List.length_map,
      BitStream.length_ofBytes, toPoly_eq_streamPoly]
    rfl

/-! ### Errors -/

/-- The bits in which two messages of one length differ. -/
def errors (xs ys : List UInt8) : Finset ℕ :=
  (Finset.range (8 * xs.length)).filter fun i =>
    (ofBytes xs).getD i false ≠ (ofBytes ys).getD i false

theorem getD_ofBytes (bytes : List UInt8) (i : ℕ) :
    (ofBytes bytes).getD i false = (bytes.getD (i / 8) 0).toNat.testBit (i % 8) := by
  induction bytes generalizing i with
  | nil => simp [BitStream.ofBytes_nil]
  | cons b bytes ih =>
    rw [BitStream.ofBytes_cons]
    rcases Nat.lt_or_ge i 8 with hi | hi
    · rw [List.getD_append _ _ _ _ (by rwa [BitStream.length_bits]), getD_bits hi,
        Nat.div_eq_of_lt hi, Nat.mod_eq_of_lt hi, List.getD_cons_zero]
    · obtain ⟨j, rfl⟩ := Nat.exists_eq_add_of_le hi
      rw [List.getD_append_right _ _ _ _ (by rwa [BitStream.length_bits]), BitStream.length_bits,
        Nat.add_sub_cancel_left, ih, Nat.add_div_left j (by decide), Nat.add_mod_left,
        List.getD_cons_succ]

theorem mem_errors {xs ys : List UInt8} {i : ℕ} : i ∈ errors xs ys ↔ i < 8 * xs.length ∧
    (xs.getD (i / 8) 0).toNat.testBit (i % 8) ≠ (ys.getD (i / 8) 0).toNat.testBit (i % 8) := by
  rw [errors, Finset.mem_filter, Finset.mem_range, getD_ofBytes, getD_ofBytes]

@[simp] theorem errors_self (xs : List UInt8) : errors xs xs = ∅ :=
  Finset.filter_false_of_mem fun _ _ => not_not.2 rfl

/-- The errors in the first bytes of a message. -/
theorem errors_take {xs ys : List UInt8} {n : ℕ} (hn : n ≤ xs.length) :
    errors (xs.take n) (ys.take n) = (errors xs ys).filter (· < 8 * n) := by
  ext i
  rw [Finset.mem_filter, mem_errors, mem_errors, List.length_take, Nat.min_eq_left hn]
  by_cases hi : i < 8 * n
  · have hbyte : ∀ zs : List UInt8, (zs.take n).getD (i / 8) 0 = zs.getD (i / 8) 0 := fun zs => by
      rw [List.getD_eq_getElem?_getD, List.getElem?_take_of_lt (by omega),
        List.getD_eq_getElem?_getD]
    rw [hbyte, hbyte]
    constructor
    · exact fun h => ⟨⟨by omega, h.2⟩, hi⟩
    · exact fun h => ⟨hi, h.1.2⟩
  · constructor
    · exact fun h => absurd h.1 hi
    · exact fun h => absurd h.2 hi

/-- The errors after the first bytes, when there are none in these. -/
theorem errors_drop {xs ys : List UInt8} {n : ℕ} (hn : n ≤ xs.length)
    (h : ys.take n = xs.take n) :
    errors xs ys = (errors (xs.drop n) (ys.drop n)).map (addLeftEmbedding (8 * n)) := by
  have hdrop : ∀ (zs : List UInt8) (k : ℕ), (zs.drop n).getD k 0 = zs.getD (n + k) 0 := by
    intro zs k
    rw [List.getD_eq_getElem?_getD, List.getElem?_drop, List.getD_eq_getElem?_getD]
  ext i
  rw [Finset.mem_map, mem_errors]
  constructor
  · rintro ⟨hi, hne⟩
    have hplace : n ≤ i / 8 := by
      by_contra hlt
      have hbyte : ys.getD (i / 8) 0 = xs.getD (i / 8) 0 := by
        have hget := congrArg (·[i / 8]?) h
        simp only [List.getElem?_take, if_pos (not_le.1 hlt)] at hget
        rw [List.getD_eq_getElem?_getD, hget, List.getD_eq_getElem?_getD]
      exact hne (by rw [hbyte])
    refine ⟨i - 8 * n, mem_errors.2 ⟨?_, ?_⟩, Nat.add_sub_cancel' (by omega)⟩
    · rw [List.length_drop]
      omega
    · rw [hdrop, hdrop, show n + (i - 8 * n) / 8 = i / 8 by omega,
        show (i - 8 * n) % 8 = i % 8 by omega]
      exact hne
  · rintro ⟨j, hj, rfl⟩
    obtain ⟨hlt, hne⟩ := mem_errors.1 hj
    rw [List.length_drop] at hlt
    rw [hdrop, hdrop] at hne
    rw [addLeftEmbedding_apply, show (8 * n + j) / 8 = n + j / 8 by omega,
      show (8 * n + j) % 8 = j % 8 by omega]
    exact ⟨by omega, hne⟩

/-- A burst, or a pair of errors, is one after the first bytes too. -/
theorem burst_or_pair_drop {xs ys : List UInt8} {n w : ℕ} (hn : n ≤ xs.length)
    (htake : ys.take n = xs.take n)
    (h : (∃ start, errors xs ys ⊆ Finset.Ico start (start + w)) ∨ (errors xs ys).card = 2) :
    (∃ start, errors (xs.drop n) (ys.drop n) ⊆ Finset.Ico start (start + w)) ∨
      (errors (xs.drop n) (ys.drop n)).card = 2 := by
  have hplaces := errors_drop hn htake
  rcases h with ⟨start, hburst⟩ | htwo
  · refine Or.inl ⟨start - 8 * n, fun i hi => ?_⟩
    have hmem : 8 * n + i ∈ errors xs ys := by
      rw [hplaces]
      exact Finset.mem_map_of_mem _ hi
    have hwindow := Finset.mem_Ico.1 (hburst hmem)
    exact Finset.mem_Ico.2 ⟨by omega, by omega⟩
  · rw [hplaces, Finset.card_map] at htwo
    exact Or.inr htwo

/-- The errors of one changed byte. -/
theorem errors_set {xs : List UInt8} {n : ℕ} (hn : n < xs.length) (b : UInt8) :
    errors xs (xs.set n b) = ((Finset.range 8).filter fun j =>
      (xs.getD n 0).toNat.testBit j ≠ b.toNat.testBit j).image (8 * n + ·) := by
  have hset : (xs.set n b).getD n 0 = b := by
    rw [List.getD_eq_getElem?_getD, List.getElem?_set_self hn, Option.getD_some]
  ext i
  rw [mem_errors, Finset.mem_image]
  constructor
  · rintro ⟨hi, hne⟩
    have hplace : i / 8 = n := by
      by_contra hother
      have hsame : (xs.set n b).getD (i / 8) 0 = xs.getD (i / 8) 0 := by
        rw [List.getD_eq_getElem?_getD, List.getElem?_set_ne (Ne.symm hother),
          List.getD_eq_getElem?_getD]
      exact hne (by rw [hsame])
    rw [hplace, hset] at hne
    exact ⟨i % 8, Finset.mem_filter.2 ⟨Finset.mem_range.2 (Nat.mod_lt i (by decide)), hne⟩, by omega⟩
  · rintro ⟨j, hj, rfl⟩
    obtain ⟨hlt, hne⟩ := Finset.mem_filter.1 hj
    have hlt := Finset.mem_range.1 hlt
    rw [show (8 * n + j) / 8 = n by omega, show (8 * n + j) % 8 = j by omega, hset]
    exact ⟨by omega, hne⟩

/-- The polynomial of some bits of a message of `n` bits. -/
noncomputable def errorPoly (n : ℕ) (places : Finset ℕ) : (ZMod 2)[X] :=
  ∑ i ∈ places, X ^ (n - 1 - i)

theorem streamPoly_add {s t : List Bool} (h : s.length = t.length) :
    streamPoly s + streamPoly t = errorPoly s.length
      ((Finset.range s.length).filter fun i => s.getD i false ≠ t.getD i false) := by
  rw [streamPoly_eq_sum, streamPoly_eq_sum, ← h, ← Finset.sum_add_distrib, errorPoly,
    Finset.sum_filter]
  refine Finset.sum_congr rfl fun i _ => ?_
  cases s.getD i false <;> cases t.getD i false <;> simp [CharTwo.add_self_eq_zero]

theorem errors_eq {xs ys : List UInt8} (h : xs.length = ys.length) :
    message (xs.map UInt8.toBitVec) + message (ys.map UInt8.toBitVec) =
      errorPoly (8 * xs.length) (errors xs ys) := by
  have hbits : (ofBytes xs).length = (ofBytes ys).length := by
    rw [BitStream.length_ofBytes, BitStream.length_ofBytes, h]
  rw [message_eq_streamPoly, message_eq_streamPoly, streamPoly_add hbits, BitStream.length_ofBytes]
  rfl

theorem errors_nonempty {xs ys : List UInt8} (hlen : xs.length = ys.length) (hne : xs ≠ ys) :
    (errors xs ys).Nonempty := by
  by_contra hempty
  apply hne
  apply BitStream.ofBytes_injective
  have hbits : (ofBytes xs).length = (ofBytes ys).length := by
    rw [BitStream.length_ofBytes, BitStream.length_ofBytes, hlen]
  apply List.ext_getElem hbits
  intro i hi hi'
  have hnot : i ∉ errors xs ys := fun hmem => hempty ⟨i, hmem⟩
  rw [errors, Finset.mem_filter, Finset.mem_range, ← BitStream.length_ofBytes, not_and, not_not] at hnot
  rw [← List.getD_eq_getElem _ false hi, ← List.getD_eq_getElem _ false hi']
  exact hnot hi

variable {p : BitVec w}

/-- The generator has a constant term, so it has no factor `X`. -/
theorem isCoprime_X_pow (hw : 0 < w) (hp : p.getLsbD (w - 1) = true) (n : ℕ) :
    IsCoprime (generator p) (X ^ n) := by
  have hconstant : (toPoly p).coeff 0 = 1 := by
    unfold toPoly
    rw [finsetSum_coeff, Finset.sum_eq_single (w - 1)]
    · rw [hp, if_pos rfl, Nat.sub_self, pow_zero, coeff_one_zero]
    · intro i hi hne
      have hi := Finset.mem_range.1 hi
      split_ifs
      · rw [coeff_X_pow, if_neg (by omega)]
      · exact coeff_zero 0
    · intro hni
      exact absurd (Finset.mem_range.2 (Nat.sub_lt hw Nat.one_pos)) hni
  have hndvd : ¬ (X : (ZMod 2)[X]) ∣ generator p := by
    rw [X_dvd_iff, generator, coeff_add, hconstant, coeff_X_pow, if_neg hw.ne, zero_add]
    exact one_ne_zero
  exact ((irreducible_X.coprime_iff_not_dvd.2 hndvd).pow_left).symm

/-- Messages that leave the same register differ by a multiple of the generator. -/
theorem dvd_errorPoly (hw : 8 ≤ w) (hp : p.getLsbD (w - 1) = true) {r : BitVec w}
    {xs ys : List UInt8} (hlen : xs.length = ys.length)
    (h : feedAll p r (xs.map UInt8.toBitVec) = feedAll p r (ys.map UInt8.toBitVec)) :
    generator p ∣ errorPoly (8 * xs.length) (errors xs ys) := by
  obtain ⟨q, hq⟩ := toPoly_feedAll_add hw p r (xs.map UInt8.toBitVec)
  obtain ⟨q', hq'⟩ := toPoly_feedAll_add hw p r (ys.map UInt8.toBitVec)
  rw [List.length_map] at hq hq'
  rw [h, hq', hlen] at hq
  have htwo : (2 : (ZMod 2)[X]) = 0 := CharTwo.two_eq_zero
  have hmul : generator p ∣
      errorPoly (8 * xs.length) (errors xs ys) * X ^ w := by
    refine ⟨q + q', ?_⟩
    rw [← errors_eq hlen]
    linear_combination -hq + (message (ys.map UInt8.toBitVec) * X ^ w - q * generator p) * htwo
  exact (isCoprime_X_pow (by omega) hp w).dvd_of_dvd_mul_right hmul

/-- Bits in a window as wide as the register are a power of `X` times a polynomial of lower
degree than the generator. -/
theorem errorPoly_window {n start : ℕ} {places : Finset ℕ} (hn : places ⊆ Finset.range n)
    (hwindow : places ⊆ Finset.Ico start (start + w)) (hne : places.Nonempty) :
    ∃ b : (ZMod 2)[X], b ≠ 0 ∧ b.degree < w ∧
      errorPoly n places = X ^ (n - (start + w)) * b := by
  have hplace : ∀ i ∈ places, i < n ∧ start ≤ i ∧ i < start + w := fun i hi =>
    ⟨Finset.mem_range.1 (hn hi), Finset.mem_Ico.1 (hwindow hi)⟩
  refine ⟨∑ i ∈ places, X ^ (n - 1 - i - (n - (start + w))), ?_, ?_, ?_⟩
  · obtain ⟨i, hi⟩ := hne
    have hcoeff : (∑ j ∈ places, (X : (ZMod 2)[X]) ^ (n - 1 - j - (n - (start + w)))).coeff
        (n - 1 - i - (n - (start + w))) = 1 := by
      rw [finsetSum_coeff, Finset.sum_eq_single i]
      · rw [coeff_X_pow, if_pos rfl]
      · intro j hj hji
        have hpj := hplace j hj
        have hpi := hplace i hi
        rw [coeff_X_pow, if_neg (by omega)]
      · exact fun hni => absurd hi hni
    intro hzero
    rw [hzero, coeff_zero] at hcoeff
    exact zero_ne_one hcoeff
  · refine (degree_sum_le _ _).trans_lt ((Finset.sup_lt_iff (WithBot.bot_lt_coe w)).2 fun i hi => ?_)
    have hpi := hplace i hi
    rw [degree_X_pow]
    exact Nat.cast_lt.2 (by omega)
  · rw [errorPoly, Finset.mul_sum]
    refine Finset.sum_congr rfl fun i hi => ?_
    have hpi := hplace i hi
    rw [← pow_add]
    congr 1
    omega

/-- A burst no wider than the register is detected. -/
theorem feedAll_ne_of_burst (hw : 8 ≤ w) (hp : p.getLsbD (w - 1) = true) (r : BitVec w)
    {xs ys : List UInt8} {start : ℕ} (hlen : xs.length = ys.length) (hne : xs ≠ ys)
    (hburst : errors xs ys ⊆ Finset.Ico start (start + w)) :
    feedAll p r (xs.map UInt8.toBitVec) ≠ feedAll p r (ys.map UInt8.toBitVec) := by
  intro h
  have hdvd := dvd_errorPoly hw hp hlen h
  obtain ⟨b, hzero, hdegree, heq⟩ := errorPoly_window
    (show errors xs ys ⊆ Finset.range (8 * xs.length) from Finset.filter_subset _ _) hburst
    (errors_nonempty hlen hne)
  rw [heq] at hdvd
  have hb := (isCoprime_X_pow (by omega) hp _).dvd_of_dvd_mul_left hdvd
  have hle := degree_le_of_dvd hb hzero
  rw [degree_generator] at hle
  exact absurd hdegree (not_lt.2 hle)

/-- The residue of `X` modulo the generator. -/
noncomputable abbrev root (p : BitVec w) : AdjoinRoot (generator p) := AdjoinRoot.root (generator p)

theorem dvd_X_pow_add_one {n : ℕ} : generator p ∣ X ^ n + 1 ↔ root p ^ n = 1 := by
  rw [← CharTwo.sub_eq_add, ← AdjoinRoot.mk_eq_zero, map_sub, map_pow, AdjoinRoot.mk_X, map_one,
    sub_eq_zero]

/-- Two wrong bits are detected in messages with fewer bits than the order of `X`. -/
theorem feedAll_ne_of_pair (hw : 8 ≤ w) (hp : p.getLsbD (w - 1) = true) (r : BitVec w)
    {xs ys : List UInt8} (hlen : xs.length = ys.length) (hpair : (errors xs ys).card = 2)
    (horder : 8 * xs.length ≤ orderOf (root p)) :
    feedAll p r (xs.map UInt8.toBitVec) ≠ feedAll p r (ys.map UInt8.toBitVec) := by
  intro h
  have hdvd := dvd_errorPoly hw hp hlen h
  obtain ⟨i, j, hij, heq⟩ := Finset.card_eq_two.1 hpair
  wlog hlt : i < j generalizing i j
  · exact this j i hij.symm (by rw [heq, Finset.pair_comm]) (by omega)
  have hj : j < 8 * xs.length := by
    have hmem : j ∈ errors xs ys := by simp [heq]
    exact Finset.mem_range.1 (Finset.mem_filter.1 hmem).1
  have hpoly : errorPoly (8 * xs.length) (errors xs ys) =
      X ^ (8 * xs.length - 1 - j) * (X ^ (j - i) + 1) := by
    rw [errorPoly, heq, Finset.sum_pair hij, mul_add, mul_one, ← pow_add]
    congr 2
    omega
  rw [hpoly] at hdvd
  have hb := (isCoprime_X_pow (by omega) hp _).dvd_of_dvd_mul_left hdvd
  exact pow_ne_one_of_lt_orderOf (by omega) (show j - i < orderOf (root p) by omega)
    (dvd_X_pow_add_one.1 hb)

/-- A message with the complement of its register after it leaves the same register as any
other. -/
theorem feedAll_complement (r : BitVec w) {bytes tail : List (BitVec 8)}
    (htail : 8 * tail.length = w) (h : littleEndian tail = ~~~feedAll p r bytes) :
    feedAll p r (bytes ++ tail) = shifts p w (BitVec.allOnes w) := by
  have hsplit : feedAll p r (bytes ++ tail) = feedAll p (feedAll p r bytes) tail :=
    List.foldl_append
  rw [hsplit, feedAll_eq_shifts p _ htail.le, htail, h, ← BitVec.xor_allOnes, ← BitVec.xor_assoc,
    BitVec.xor_self, BitVec.zero_xor]

/-! ### Products of registers -/

/-- The residue a register stands for. -/
noncomputable def residue (p r : BitVec w) : AdjoinRoot (generator p) :=
  AdjoinRoot.mk (generator p) (toPoly r)

/-- The product of two registers, by the bits of the first. -/
def product (p a b : BitVec w) : BitVec w :=
  (bits w a.toNat).foldl (fun c bit => shift p c ^^^ if bit then b else 0) 0

/-- The power of `X` whose exponent has these bits, the lowest first. -/
def power (p : BitVec w) : List Bool → BitVec w
  | [] => BitVec.twoPow w (w - 1)
  | b :: s =>
    let c := product p (power p s) (power p s)
    if b then shift p c else c

theorem residue_shift (hw : 0 < w) (r : BitVec w) :
    residue p (shift p r) = root p * residue p r := by
  unfold residue
  rw [toPoly_shift hw, map_add, map_mul, AdjoinRoot.mk_X]
  split_ifs
  · rw [AdjoinRoot.mk_self, add_zero]
  · rw [map_zero, add_zero]

theorem residue_xor (a b : BitVec w) : residue p (a ^^^ b) = residue p a + residue p b := by
  rw [residue, toPoly_xor, map_add]
  rfl

theorem residue_zero : residue p 0 = 0 := by
  simp [residue, toPoly]

theorem residue_product (hw : 0 < w) (a b : BitVec w) :
    residue p (product p a b) = residue p a * residue p b := by
  have hloop : ∀ (s : List Bool) (c : BitVec w),
      residue p (s.foldl (fun c bit => shift p c ^^^ if bit then b else 0) c) =
        root p ^ s.length * residue p c +
          AdjoinRoot.mk (generator p) (streamPoly s) * residue p b := by
    intro s
    induction s with
    | nil =>
      intro c
      simp [streamPoly]
    | cons bit s ih =>
      intro c
      have hbit : residue p (if bit then b else 0) = (if bit then 1 else 0) * residue p b := by
        cases bit
        · rw [if_neg Bool.false_ne_true, if_neg Bool.false_ne_true, residue_zero, zero_mul]
        · rw [if_pos rfl, if_pos rfl, one_mul]
      have hpoly : AdjoinRoot.mk (generator p) (if bit then X ^ s.length else 0) =
          (if bit then 1 else 0) * root p ^ s.length := by
        cases bit <;> simp
      rw [List.foldl_cons, ih, residue_xor, residue_shift hw, hbit, streamPoly, map_add, hpoly,
        List.length_cons]
      ring
  rw [product, hloop, residue_zero, mul_zero, zero_add, ← toPoly_eq_streamPoly]
  rfl

theorem residue_power (hw : 0 < w) (s : List Bool) : residue p (power p s) = root p ^ value s := by
  induction s with
  | nil =>
    have hone : toPoly (BitVec.twoPow w (w - 1)) = 1 := by
      unfold toPoly
      rw [Finset.sum_eq_single (w - 1)]
      · simp [Nat.sub_lt hw Nat.one_pos]
      · intro i _ hne
        simp [BitVec.getLsbD_twoPow, hne.symm]
      · intro hni
        exact absurd (Finset.mem_range.2 (Nat.sub_lt hw Nat.one_pos)) hni
    rw [power, residue, hone, map_one]
    rfl
  | cons b s ih =>
    have hsquare := residue_product (p := p) hw (power p s) (power p s)
    rw [ih] at hsquare
    cases b with
    | false =>
      rw [power, if_neg Bool.false_ne_true, hsquare, BitStream.value_cons, Bool.toNat_false, zero_add,
        two_mul, pow_add]
    | true =>
      rw [power, if_pos rfl, residue_shift hw, hsquare, BitStream.value_cons, Bool.toNat_true,
        pow_add, pow_one, two_mul, pow_add]

theorem residue_injective : Function.Injective (residue p) := by
  intro a b h
  apply toPoly_injective
  rw [residue, residue, AdjoinRoot.mk_eq_mk] at h
  apply eq_of_sub_eq_zero
  refine eq_zero_of_dvd_of_degree_lt h ?_
  rw [degree_generator]
  exact (degree_sub_le _ _).trans_lt (max_lt (degree_toPoly_lt a) (degree_toPoly_lt b))

/-- A power of `X` is one when the register says so. -/
theorem root_pow_eq_one (hw : 0 < w) {n k : ℕ} (hn : n < 2 ^ k) :
    root p ^ n = 1 ↔ power p (bits k n) = power p [] := by
  rw [← residue_injective.eq_iff, residue_power hw, residue_power hw, BitStream.value_bits hn]
  rfl

end PrismSdk.Library.Crc
