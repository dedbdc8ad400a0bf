import PrismSdk.ProfileVideo.Raw12Decode

/-! Packing twelve bits to a pixel: three bytes hold two samples, the low halves of both
in the third. Packing and unpacking are inverse to each other; the packing loop computes
the one and the pixels are read by the other. -/

namespace PrismSdk.ProfileVideo

open Library (Checked Fault)
open Library.Checked (load save)
open Raw12Rice (sampleBytes)

/-! ### Three bytes for two samples -/

/-- Two samples in three bytes. -/
def packTwo (a b : ℕ) : List UInt8 :=
  [UInt8.ofNat (a >>> 4), UInt8.ofNat (b >>> 4), UInt8.ofNat (a &&& 15 ||| (b &&& 15) <<< 4)]

def packSamples : List ℕ → List UInt8
  | [] => []
  | [_] => []
  | a :: b :: samples => packTwo a b ++ packSamples samples

/-- The samples in packed bytes. -/
def unpack : List UInt8 → List ℕ
  | x :: y :: z :: bytes =>
    (x.toNat * 16 + (z &&& 15).toNat) :: (y.toNat * 16 + (z >>> 4).toNat) :: unpack bytes
  | _ => []

theorem length_packSamples (samples : List ℕ) :
    (packSamples samples).length = samples.length / 2 * 3 := by
  fun_induction packSamples samples with
  | case1 => rfl
  | case2 => simp
  | case3 a b samples ih =>
    rw [List.length_append, ih, packTwo]
    simp only [List.length_cons, List.length_nil]
    omega

theorem length_unpack (bytes : List UInt8) : (unpack bytes).length = bytes.length / 3 * 2 := by
  fun_induction unpack bytes with
  | case1 x y z bytes ih =>
    simp only [List.length_cons, ih]
    omega
  | case2 bytes h =>
    match bytes, h with
    | [], _ => rfl
    | [_], _ => simp
    | [_, _], _ => simp
    | x :: y :: z :: rest, h => exact (h x y z rest rfl).elim

theorem toNat_and_15 (z : UInt8) : (z &&& 15).toNat = z.toNat % 16 := by
  rw [UInt8.toNat_and, show (15 : UInt8).toNat = 2 ^ 4 - 1 from rfl, Nat.and_two_pow_sub_one_eq_mod]

theorem toNat_shiftRight_4 (z : UInt8) : (z >>> 4).toNat = z.toNat / 16 := by
  rw [UInt8.toNat_shiftRight, Nat.shiftRight_eq_div_pow]
  rfl

/-- The third byte: the low half of the first sample below that of the second. -/
theorem low_halves (a b : ℕ) : a &&& 15 ||| (b &&& 15) <<< 4 = a % 16 + 16 * (b % 16) := by
  rw [show (15 : ℕ) = 2 ^ 4 - 1 from rfl, Nat.and_two_pow_sub_one_eq_mod,
    Nat.and_two_pow_sub_one_eq_mod, Nat.shiftLeft_eq, Nat.mul_comm, Nat.or_comm,
    ← Nat.two_pow_add_eq_or_of_lt (Nat.mod_lt a (by decide)), Nat.add_comm]

theorem unpack_le (bytes : List UInt8) : ∀ v ∈ unpack bytes, v ≤ 4095 := by
  fun_induction unpack bytes with
  | case1 x y z bytes ih =>
    have hx := x.toNat_lt
    have hy := y.toNat_lt
    have hz := z.toNat_lt
    simp only [List.forall_mem_cons, toNat_and_15, toNat_shiftRight_4]
    exact ⟨by omega, by omega, ih⟩
  | case2 => exact List.forall_mem_nil _

theorem unpack_packSamples {samples : List ℕ} (heven : samples.length % 2 = 0)
    (hle : ∀ v ∈ samples, v ≤ 4095) : unpack (packSamples samples) = samples := by
  fun_induction packSamples samples with
  | case1 => rfl
  | case2 => cases heven
  | case3 a b samples ih =>
    simp only [List.length_cons, List.forall_mem_cons] at heven hle
    obtain ⟨ha, hb, hrest⟩ := hle
    rw [packTwo, List.cons_append, List.cons_append, List.cons_append, List.nil_append, unpack,
      ih (by omega) hrest, toNat_and_15, toNat_shiftRight_4, low_halves, UInt8.toNat_ofNat',
      UInt8.toNat_ofNat', UInt8.toNat_ofNat', Nat.shiftRight_eq_div_pow, Nat.shiftRight_eq_div_pow]
    congr 2 <;> omega

theorem packSamples_unpack {bytes : List UInt8} (h : bytes.length % 3 = 0) :
    packSamples (unpack bytes) = bytes := by
  fun_induction unpack bytes with
  | case1 x y z bytes ih =>
    simp only [List.length_cons] at h
    have hx := x.toNat_lt
    have hy := y.toNat_lt
    have hz := z.toNat_lt
    have hbyte : ∀ (v : UInt8) (n : ℕ), n = v.toNat → UInt8.ofNat n = v := by
      rintro v n rfl
      exact UInt8.ofNat_toNat
    rw [packSamples, ih (by omega), packTwo, low_halves, toNat_and_15, toNat_shiftRight_4,
      Nat.shiftRight_eq_div_pow, Nat.shiftRight_eq_div_pow, hbyte x _ (by omega),
      hbyte y _ (by omega), hbyte z _ (by omega)]
    rfl
  | case2 bytes hshort =>
    match bytes, hshort with
    | [], _ => rfl
    | [_], _ => cases h
    | [_, _], _ => cases h
    | x :: y :: z :: rest, hshort => exact (hshort x y z rest rfl).elim

/-! ### Reading a pixel -/

theorem raw12Pixel_eq (r : Raw12Image) (i : ℕ) :
    raw12Pixel r i = raw12Pixel { packed := r.packed } i := rfl

theorem raw12Pixel_add_two (x y z : UInt8) (bytes : List UInt8) (i : ℕ) :
    raw12Pixel { packed := x :: y :: z :: bytes } (i + 2) = raw12Pixel { packed := bytes } i := by
  have hhalf : (i + 2) / 2 * 3 = i / 2 * 3 + 3 := by omega
  have hparity : (i + 2) &&& 1 = i &&& 1 := by
    rw [Nat.and_one_is_mod, Nat.and_one_is_mod, Nat.add_mod_right]
  have hload : ∀ k, load (x :: y :: z :: bytes) (k + 3) = load bytes k := fun k => rfl
  unfold raw12Pixel
  rw [hhalf, hparity]
  dsimp only
  rw [show i / 2 * 3 + 3 + (i &&& 1) = i / 2 * 3 + (i &&& 1) + 3 by omega, hload,
    show i / 2 * 3 + 3 + 2 = i / 2 * 3 + 2 + 3 by omega, hload]

/-- A pixel is a sample of the packed bytes. -/
theorem raw12Pixel_unpack {bytes : List UInt8} {i : ℕ} (h : bytes.length % 3 = 0)
    (hi : i < (unpack bytes).length) :
    raw12Pixel { packed := bytes } i = .ok (UInt16.ofNat (unpack bytes)[i]) := by
  fun_induction unpack bytes generalizing i with
  | case1 x y z bytes ih =>
    simp only [List.length_cons] at h hi
    match i, hi with
    | 0, _ => rfl
    | 1, _ => rfl
    | i + 2, hi =>
      rw [raw12Pixel_add_two]
      exact ih (by omega) (by omega)
  | case2 => exact absurd hi (Nat.not_lt_zero i)

/-- Every pixel of a packed buffer can be read, and is a sample. -/
theorem exists_raw12Pixel (r : Raw12Image) (h : r.packed.length % 3 = 0) {i : ℕ}
    (hi : i < (unpack r.packed).length) :
    ∃ pixel, raw12Pixel r i = .ok pixel ∧ pixel.toNat = (unpack r.packed)[i] := by
  refine ⟨_, (raw12Pixel_eq r i).trans (raw12Pixel_unpack h hi), ?_⟩
  have hle := unpack_le r.packed _ (List.getElem_mem hi)
  rw [UInt16.toNat_ofNat']
  omega

/-! ### The packing loop -/

theorem load_sampleBytes {u16 rest : List UInt8} {i a b : ℕ} (ha : a ≤ 4095) (hb : b ≤ 4095)
    (hdata : u16.drop (2 * i) = sampleBytes a ++ sampleBytes b ++ rest) :
    ∃ a0 a1 b0 b1, load u16 (2 * i) = .ok a0 ∧ load u16 (2 * i + 1) = .ok a1 ∧
      load u16 (2 * i + 2) = .ok b0 ∧ load u16 (2 * i + 3) = .ok b1 ∧
      a0.toNat ||| a1.toNat <<< 8 = a ∧ b0.toNat ||| b1.toNat <<< 8 = b := by
  have hload := Raw12Rice.load_of_drop hdata
  have hzero := hload 0
  rw [Nat.add_zero] at hzero
  refine ⟨_, _, _, _, hzero, hload 1, hload 2, hload 3, ?_, ?_⟩
  · rw [Raw12Rice.or_shiftLeft_eq, Raw12Rice.toNat_sampleBytes (by omega)]
  · rw [Raw12Rice.or_shiftLeft_eq, Raw12Rice.toNat_sampleBytes (by omega)]

/-- Three writes in a row. -/
theorem save_three {pre rest : List UInt8} {n : ℕ} (hn : pre.length = n) (hrest : 3 ≤ rest.length)
    (x y z : UInt8) : (do
      let packed ← save (pre ++ rest) n x
      let packed ← save packed (n + 1) y
      save packed (n + 2) z) = .ok (pre ++ [x, y, z] ++ rest.drop 3) := by
  obtain ⟨u, v, w, rest, rfl⟩ : ∃ u v w rest', rest = u :: v :: w :: rest' :=
    match rest, hrest with
    | u :: v :: w :: rest', _ => ⟨u, v, w, rest', rfl⟩
  subst hn
  have hset : ∀ (k : ℕ) (ys : List UInt8) (v : UInt8),
      (pre ++ ys).set (pre.length + k) v = pre ++ ys.set k v := fun k ys v => by
    rw [List.set_append_right _ _ (Nat.le_add_right _ _), Nat.add_sub_cancel_left]
  have hzero := hset 0
  rw [Nat.add_zero] at hzero
  rw [Library.Checked.save_of_lt (by simp), hzero, Library.Checked.ok_bind,
    Library.Checked.save_of_lt (by simp), hset, Library.Checked.ok_bind,
    Library.Checked.save_of_lt (by simp), hset]
  simp

theorem packPair_eq {u16 pre rest data : List UInt8} {i a b : ℕ} (hi : pre.length = i / 2 * 3)
    (hrest : 3 ≤ rest.length) (ha : a ≤ 4095) (hb : b ≤ 4095)
    (hdata : u16.drop (2 * i) = sampleBytes a ++ sampleBytes b ++ data) :
    packPair u16 (pre ++ rest) i = .ok (pre ++ packTwo a b ++ rest.drop 3) := by
  obtain ⟨a0, a1, b0, b1, ha0, ha1, hb0, hb1, rfl, rfl⟩ := load_sampleBytes ha hb hdata
  unfold packPair
  rw [ha0, ha1, hb0, hb1]
  exact save_three hi hrest _ _ _

theorem packSamples_append {done : List ℕ} (h : done.length % 2 = 0) (rest : List ℕ) :
    packSamples (done ++ rest) = packSamples done ++ packSamples rest := by
  fun_induction packSamples done with
  | case1 => rfl
  | case2 => cases h
  | case3 a b done ih =>
    simp only [List.length_cons] at h
    rw [List.cons_append, List.cons_append, packSamples, ih (by omega), List.append_assoc]

/-- The packing loop after the samples `done`. -/
theorem packLoop_eq (rest done : List ℕ) (hdone : done.length % 2 = 0) (heven : rest.length % 2 = 0)
    (hle : ∀ v ∈ rest, v ≤ 4095) :
    (List.range' done.length (rest.length / 2) 2).foldlM
        (packPair ((done ++ rest).flatMap sampleBytes))
        (packSamples done ++ List.replicate (rest.length / 2 * 3) 0) =
      .ok (packSamples done ++ packSamples rest) := by
  induction rest using packSamples.induct generalizing done with
  | case1 =>
    simp [packSamples]
    rfl
  | case2 => cases heven
  | case3 a b rest ih =>
    simp only [List.length_cons, List.forall_mem_cons] at heven hle
    obtain ⟨ha, hb, hrest⟩ := hle
    have hhalf : (a :: b :: rest).length / 2 = rest.length / 2 + 1 := by
      simp only [List.length_cons]
      omega
    have hdata : ((done ++ a :: b :: rest).flatMap sampleBytes).drop (2 * done.length) =
        sampleBytes a ++ sampleBytes b ++ rest.flatMap sampleBytes := by
      rw [List.flatMap_append, List.drop_left' (Raw12Rice.length_flatMap_sampleBytes done),
        List.flatMap_cons, List.flatMap_cons, List.append_assoc]
    have hpair := packPair_eq (length_packSamples done)
      (show 3 ≤ (List.replicate ((rest.length / 2 + 1) * 3) (0 : UInt8)).length by
        rw [List.length_replicate]; omega) ha hb hdata
    have hdrop : (List.replicate ((rest.length / 2 + 1) * 3) (0 : UInt8)).drop 3 =
        List.replicate (rest.length / 2 * 3) 0 := by
      rw [List.drop_replicate]
      congr 1
      omega
    have hnext : packSamples (done ++ [a, b]) = packSamples done ++ packTwo a b :=
      packSamples_append hdone [a, b]
    have hlen : (done ++ [a, b]).length = done.length + 2 := by simp
    have hih := ih (done ++ [a, b]) (by omega) (by omega) hrest
    rw [hhalf, List.range'_succ, List.foldlM_cons, hpair, Library.Checked.ok_bind, hdrop, ← hnext,
      ← hlen]
    rw [List.append_assoc done, hnext] at hih
    rw [hnext, packSamples, ← List.append_assoc]
    exact hih

/-- The packing loop computes the packed samples. -/
theorem packRaw12_eq {samples : List ℕ} (heven : samples.length % 2 = 0)
    (hle : ∀ v ∈ samples, v ≤ 4095) :
    packRaw12 (samples.flatMap sampleBytes) samples.length = .ok (packSamples samples) := by
  unfold packRaw12
  rw [show (samples.length + 1) / 2 = samples.length / 2 by omega]
  exact packLoop_eq samples [] rfl heven hle

end PrismSdk.ProfileVideo
