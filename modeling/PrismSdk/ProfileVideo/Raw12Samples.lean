import PrismSdk.ProfileVideo.Raw12Reader

/-! The samples of a block. Its loop reads one residual after another, and what it
stores are the samples these give after the first two; the padding is what it leaves. -/

namespace PrismSdk.ProfileVideo.Raw12Rice

open Library (Checked Fault PrefixCode)
open Library.Checked (load save)
open Library.BitStream (ofBytes pack)
open Library.Residual (restore restoreAll residuals residualAt)

/-! ### The buffer of samples -/

/-- A sample in the buffer, low byte first; the size and the seeds of a block likewise. -/
def sampleBytes (v : ℕ) : List UInt8 := [UInt8.ofNat v, UInt8.ofNat (v >>> 8)]

/-- The buffer with other samples from index `j` on. -/
def putSamples (u16 : List UInt8) (j : ℕ) (values : List ℕ) : List UInt8 :=
  u16.take (2 * j) ++ values.flatMap sampleBytes ++ u16.drop (2 * (j + values.length))

@[simp] theorem length_flatMap_sampleBytes (values : List ℕ) :
    (values.flatMap sampleBytes).length = 2 * values.length := by
  induction values with
  | nil => rfl
  | cons v values ih =>
    rw [List.flatMap_cons, List.length_append, ih, List.length_cons, sampleBytes]
    simp only [List.length_cons, List.length_nil]
    omega

theorem putSamples_nil (u16 : List UInt8) (j : ℕ) : putSamples u16 j [] = u16 := by
  simp [putSamples]

theorem length_putSamples {u16 : List UInt8} {j : ℕ} {values : List ℕ}
    (h : 2 * (j + values.length) ≤ u16.length) : (putSamples u16 j values).length = u16.length := by
  simp only [putSamples, List.length_append, List.length_take, List.length_drop,
    length_flatMap_sampleBytes]
  omega

theorem putSamples_append {u16 : List UInt8} {j : ℕ} (values rest : List ℕ)
    (h : 2 * (j + values.length + rest.length) ≤ u16.length) :
    putSamples (putSamples u16 j values) (j + values.length) rest =
      putSamples u16 j (values ++ rest) := by
  have hstart : (u16.take (2 * j) ++ values.flatMap sampleBytes).length = 2 * (j + values.length) := by
    rw [List.length_append, List.length_take, length_flatMap_sampleBytes]
    omega
  have htake : (putSamples u16 j values).take (2 * (j + values.length)) =
      u16.take (2 * j) ++ values.flatMap sampleBytes := List.take_left' hstart
  have hdrop : (putSamples u16 j values).drop (2 * (j + values.length + rest.length)) =
      u16.drop (2 * (j + (values ++ rest).length)) := by
    rw [show 2 * (j + values.length + rest.length) =
        2 * (j + values.length) + 2 * rest.length by omega,
      ← List.drop_drop, putSamples, List.drop_left' hstart, List.drop_drop, List.length_append]
    congr 1
    omega
  rw [putSamples, htake, hdrop, putSamples, List.flatMap_append, List.append_assoc (u16.take (2 * j))]

theorem store_ok {base i : ℕ} {s : BlockState} (value : ℕ) (h : 2 * (base + i + 1) ≤ s.u16.length) :
    store base i value s = .ok { s with
      u16 := putSamples s.u16 (base + i) [value]
      previous := Function.update s.previous (lane i) (UInt16.ofNat value) } := by
  have hset : (s.u16.set (2 * (base + i)) (UInt8.ofNat value)).set (2 * (base + i) + 1)
      (UInt8.ofNat (value >>> 8)) = putSamples s.u16 (base + i) [value] := by
    have hlow : (s.u16.set (2 * (base + i)) (UInt8.ofNat value)).take (2 * (base + i) + 1) =
        s.u16.take (2 * (base + i)) ++ [UInt8.ofNat value] := by
      rw [List.take_add_one, List.take_set_of_le (le_refl _), List.getElem?_set_self (by omega),
        Option.toList_some]
    rw [List.set_eq_take_append_cons_drop, if_pos (by rw [List.length_set]; omega), hlow,
      List.drop_set_of_lt (by omega)]
    simp [putSamples, sampleBytes, Nat.mul_add]
  unfold store
  rw [Library.Checked.save_of_lt (by omega), Library.Checked.ok_bind,
    Library.Checked.save_of_lt (by rw [List.length_set]; omega), Library.Checked.ok_bind, hset]
  rfl

/-! ### Samples from residuals -/

theorem predicted_eq (previous : UInt16) (q : ℕ) :
    predicted previous q = restore 2048 previous.toNat q := by
  have hdelta : delta q = Library.Residual.unzigzag q := by
    unfold delta Library.Residual.unzigzag
    rw [Nat.and_one_is_mod]
    split_ifs <;> omega
  unfold predicted restore
  rw [hdelta, show (4095 : ℕ) = 2 ^ 12 - 1 from rfl, Nat.and_two_pow_sub_one_eq_mod]
  omega

/-- The samples that residuals give after two others; a mode may store them directly. -/
def sampleValues (mode : ℕ) : ℕ → ℕ → List ℕ → List ℕ
  | _, _, [] => []
  | a, b, q :: qs =>
    let value := if mode = 12 then q else restore 2048 a q
    value :: sampleValues mode b value qs

@[simp] theorem length_sampleValues (mode a b : ℕ) (qs : List ℕ) :
    (sampleValues mode a b qs).length = qs.length := by
  induction qs generalizing a b with
  | nil => rfl
  | cons q qs ih => rw [sampleValues, List.length_cons, ih, List.length_cons]

theorem sampleValues_direct (a b : ℕ) (qs : List ℕ) : sampleValues 12 a b qs = qs := by
  induction qs generalizing a b with
  | nil => rfl
  | cons q qs ih => rw [sampleValues, if_pos rfl, ih]

theorem sampleValues_predicted {mode : ℕ} (h : mode ≠ 12) (a b : ℕ) (qs : List ℕ) :
    sampleValues mode a b qs = restoreAll 2048 a b qs := by
  induction qs generalizing a b with
  | nil => rfl
  | cons q qs ih => rw [sampleValues, if_neg h, ih, restoreAll]

/-- What a residual can be: the quotient limit of a Rice mode only keeps it in twelve bits. -/
theorem residualCode_valid {mode k q : ℕ} (hmode : LegalMode mode)
    (hk : k = shiftOf mode) :
    (residualCode mode k).Valid q ↔ q < if mode ≥ 32 then 4096 else 2 ^ mode := by
  unfold residualCode
  split_ifs with hrice
  · rw [shiftOf, if_pos hrice] at hk
    have hle : k ≤ 12 := by
      unfold LegalMode at hmode
      omega
    have hlimit : 4095 >>> k + 1 = 2 ^ (12 - k) :=
      (show ∀ k ≤ 12, 4095 >>> k + 1 = 2 ^ (12 - k) by decide) k hle
    have hpow : 2 ^ (12 - k) * 2 ^ k = 4096 := by
      rw [← pow_add, Nat.sub_add_cancel hle]
      rfl
    rw [PrefixCode.rice_valid, ← Nat.lt_succ_iff, Nat.succ_eq_add_one, hlimit,
      Nat.div_lt_iff_lt_mul (Nat.two_pow_pos k), hpow]
  · exact Iff.rfl

theorem le_of_valid {mode k q : ℕ} (hmode : LegalMode mode)
    (hk : k = shiftOf mode) (h : (residualCode mode k).Valid q) : q ≤ 4095 := by
  rw [residualCode_valid hmode hk] at h
  split_ifs at h with hrice
  · omega
  · unfold LegalMode at hmode
    have hpow : 2 ^ mode ≤ 2 ^ 12 := Nat.pow_le_pow_right (by omega) (by omega)
    omega

variable {d : BlockData}

theorem lane_succ_ne (i : ℕ) : lane (i + 1) ≠ lane i := by
  intro h
  have hval := congrArg Fin.val h
  simp only [lane, Fin.ofNat] at hval
  omega

theorem lane_add_two (i : ℕ) : lane (i + 1 + 1) = lane i := by
  apply Fin.ext
  simp only [lane, Fin.ofNat]
  omega

/-- The sample a residual gives. -/
def BlockState.sample (mode i q : ℕ) (s : BlockState) : ℕ :=
  if mode = 12 then q else restore 2048 (s.previous (lane i)).toNat q

/-- The state after a sample. -/
def BlockState.next (mode base i q : ℕ) (reader : BitReader) (s : BlockState) : BlockState where
  reader := reader
  u16 := putSamples s.u16 (base + i) [s.sample mode i q]
  previous := Function.update s.previous (lane i) (UInt16.ofNat (s.sample mode i q))

theorem BlockState.sample_le (mode i : ℕ) {q : ℕ} (s : BlockState) (h : q ≤ 4095) :
    s.sample mode i q ≤ 4095 := by
  have hlt := Library.Residual.restore_lt (show 0 < 2048 by decide) (s.previous (lane i)).toNat q
  unfold sample
  split_ifs <;> omega

theorem decodeSample_ok {mode k base i q : ℕ} {s : BlockState} {reader : BitReader}
    (hrun : takeResidual d mode k s.reader = .ok (q, reader)) (hq : q ≤ 4095)
    (hroom : 2 * (base + i + 1) ≤ s.u16.length) :
    decodeSample d mode k base s i = .ok (s.next mode base i q reader) := by
  have hvalue : (if mode = 12 then q else predicted (s.previous (lane i)) q) = s.sample mode i q := by
    rw [predicted_eq]
    rfl
  unfold decodeSample
  rw [hrun, Library.Checked.ok_bind]
  dsimp only
  rw [if_neg (by omega), hvalue, store_ok (s := { s with reader := reader }) _ hroom]
  rfl

theorem decodeSample_error {mode k base i : ℕ} {s : BlockState} {e : Fault}
    (hrun : takeResidual d mode k s.reader = .error e) :
    decodeSample d mode k base s i = .error e := by
  unfold decodeSample
  rw [hrun]
  rfl

/-- The loop over `n` samples from index `i` on reads `n` residuals, and stores the samples
they give after the last two. -/
theorem decodeLoop_spec (hd : d.Inside) {mode k : ℕ} (hmode : LegalMode mode)
    (hk : k = shiftOf mode) (base n i : ℕ) (s : BlockState)
    (hroom : 2 * (base + i + n) ≤ s.u16.length) (h : s.reader.Holds d 8) :
    (∀ qs rest, (residualCode mode k).readSeq n (s.reader.stream d) = some (qs, rest) →
      ∃ s', (List.range' i n).foldlM (decodeSample d mode k base) s = .ok s' ∧
        s'.reader.Holds d 8 ∧ s'.reader.stream d = rest ∧
        s'.u16 = putSamples s.u16 (base + i) (sampleValues mode (s.previous (lane i)).toNat
          (s.previous (lane (i + 1))).toNat qs)) ∧
    ((residualCode mode k).readSeq n (s.reader.stream d) = none →
      ∃ what, (List.range' i n).foldlM (decodeSample d mode k base) s = .error (.thrown what)) := by
  induction n generalizing i s with
  | zero =>
    constructor
    · rintro qs rest ⟨⟩
      exact ⟨s, rfl, h, rfl, (putSamples_nil _ _).symm⟩
    · rintro ⟨⟩
  | succ n ih =>
    rw [List.range'_succ, List.foldlM_cons, PrefixCode.readSeq]
    rcases hread : (residualCode mode k).read (s.reader.stream d) with _ | ⟨q, rest⟩
    · obtain ⟨what, hrun⟩ := (takeResidual_reads hd hmode hk).throws h hread
      refine ⟨by rintro qs rest ⟨⟩, fun _ => ⟨what, ?_⟩⟩
      rw [decodeSample_error hrun]
      rfl
    · obtain ⟨reader, hrun, hreader, rfl⟩ := (takeResidual_reads hd hmode hk).reads h hread
      have hq := le_of_valid hmode hk ((residualCode mode k).read_eq_some.1 hread).1
      have hone : 2 * (base + i + [s.sample mode i q].length) ≤ s.u16.length := by
        rw [List.length_singleton]
        omega
      rw [decodeSample_ok hrun hq hone, Library.Checked.ok_bind]
      have hlen : (s.next mode base i q reader).u16.length = s.u16.length := length_putSamples hone
      obtain ⟨hsome, hnone⟩ := ih (i + 1) (s.next mode base i q reader)
        (by rw [hlen]; omega) hreader
      constructor
      · intro qs' rest' hall
        rw [Option.bind_some] at hall
        obtain ⟨⟨qs, rest⟩, hqs, heq⟩ := Option.map_eq_some_iff.1 hall
        cases heq
        obtain ⟨s', hloop, hs', hstream, hu16⟩ := hsome qs rest hqs
        refine ⟨s', hloop, hs', hstream, ?_⟩
        have hnext : (s.next mode base i q reader).previous (lane (i + 1)) =
            s.previous (lane (i + 1)) := Function.update_of_ne (lane_succ_ne i) _ _
        have hlast : ((s.next mode base i q reader).previous (lane (i + 1 + 1))).toNat =
            s.sample mode i q := by
          have hle := s.sample_le mode i hq
          rw [lane_add_two]
          show (Function.update s.previous (lane i) (UInt16.ofNat _) (lane i)).toNat = _
          rw [Function.update_self, UInt16.toNat_ofNat']
          omega
        have hqslen := ((residualCode mode k).readSeq_eq_some.1 hqs).1.1
        rw [hu16, hnext, hlast]
        apply putSamples_append [s.sample mode i q]
        rw [List.length_singleton, length_sampleValues]
        omega
      · intro hqs
        rw [Option.bind_some] at hqs
        exact hnone (Option.map_eq_none_iff.1 hqs)

/-- The padding is canonical when fewer than eight bits are left, all of them zero. -/
theorem checkPadding_ok (hd : d.Inside) {r : BitReader} (h : r.Holds d 8) :
    checkPadding d r = .ok () ↔ ∃ m < 8, r.stream d = List.replicate m false := by
  have hlen := r.length_stream hd
  have hpos := h.pos
  unfold checkPadding
  constructor
  · intro hok
    split_ifs at hok with hbad
    simp only [not_or, not_not] at hbad
    obtain ⟨hend, -, hbits⟩ := hbad
    refine ⟨r.held, h.held, ?_⟩
    have hdone : d.window.drop r.pos = [] := by
      rw [hend, ← BlockData.length_window hd, List.drop_length]
    rw [BitReader.stream, hdone, hbits, UInt32.toNat_zero, Library.BitStream.bits_zero_right,
      Library.BitStream.ofBytes_nil, List.append_nil]
  · rintro ⟨m, hm, hstream⟩
    rw [hstream, List.length_replicate] at hlen
    have hend : r.pos = d.length := by omega
    have hbits : r.bits = 0 := by
      have hdone : d.window.drop r.pos = [] := by
        rw [hend, ← BlockData.length_window hd, List.drop_length]
      have hvalue := congrArg Library.BitStream.value hstream
      rw [BitReader.stream, hdone, Library.BitStream.ofBytes_nil, List.append_nil,
        Library.BitStream.value_bits h.bits, ← Library.BitStream.bits_zero_right,
        Library.BitStream.value_bits (Nat.two_pow_pos m)] at hvalue
      exact UInt32.toNat_inj.1 hvalue
    rw [if_neg]
    simp only [not_or, not_not]
    exact ⟨hend, by omega, hbits⟩

/-- The code of a block: a word for each sample after the seeds. -/
def blockCode (mode : ℕ) : PrefixCode (List ℕ) :=
  (residualCode mode (shiftOf mode)).seq (256 - firstSample mode)

/-- The data of a block are its code words, packed; its samples go to the buffer. -/
theorem decodeBody_ok (hd : d.Inside) {mode : ℕ} (hmode : LegalMode mode) (base : ℕ)
    (s : BlockState) (hs : s.reader = {}) (hroom : 2 * (base + 256) ≤ s.u16.length)
    (u16' : List UInt8) :
    decodeBody d mode (shiftOf mode) base s = .ok u16' ↔
      ∃ qs : List ℕ, (blockCode mode).Valid qs ∧ d.window = pack ((blockCode mode).write qs) ∧
        u16' = putSamples s.u16 (base + firstSample mode)
          (sampleValues mode (s.previous 0).toNat (s.previous 1).toNat qs) := by
  have hfirst : firstSample mode = 0 ∨ firstSample mode = 2 := by
    unfold firstSample
    split_ifs <;> simp
  have hholds : s.reader.Holds d 8 := by
    rw [hs]
    exact ⟨Nat.zero_le _, by decide, by decide⟩
  have hstream : s.reader.stream d = ofBytes d.window := by
    rw [hs]
    rfl
  have hlanes : lane (firstSample mode) = 0 ∧ lane (firstSample mode + 1) = 1 := by
    rcases hfirst with h | h <;> rw [h] <;> exact ⟨rfl, rfl⟩
  obtain ⟨hsome, hnone⟩ := decodeLoop_spec hd hmode rfl base (256 - firstSample mode)
    (firstSample mode) s (by omega) hholds
  rw [hstream, hlanes.1, hlanes.2] at hsome
  rw [hstream] at hnone
  constructor
  · intro hok
    obtain ⟨s', hloop, hok⟩ := Library.Checked.bind_eq_ok.1 hok
    obtain ⟨⟨⟩, hpad, hok⟩ := Library.Checked.bind_eq_ok.1 hok
    cases hok
    rcases hread : (blockCode mode).read (ofBytes d.window) with _ | ⟨qs, rest⟩
    · obtain ⟨what, herror⟩ := hnone hread
      rw [decodeSamples, herror] at hloop
      cases hloop
    · obtain ⟨s'', hloop', hs'', hrest, hu16⟩ := hsome qs rest hread
      rw [decodeSamples, hloop'] at hloop
      cases hloop
      obtain ⟨hvalid, hwindow⟩ := (blockCode mode).read_eq_some.1 hread
      obtain ⟨m, hm, hzeros⟩ := (checkPadding_ok hd hs'').1 hpad
      rw [← hrest, hzeros] at hwindow
      exact ⟨qs, hvalid, Library.BitStream.eq_pack_iff.2 ⟨m, hm, hwindow⟩, hu16⟩
  · rintro ⟨qs, hvalid, hwindow, rfl⟩
    obtain ⟨m, hm, hbits⟩ := Library.BitStream.eq_pack_iff.1 hwindow
    obtain ⟨s', hloop, hs', hrest, hu16⟩ := hsome qs _
      ((blockCode mode).read_eq_some.2 ⟨hvalid, hbits⟩)
    have hpad := (checkPadding_ok hd hs').2 ⟨m, hm, hrest⟩
    unfold decodeBody decodeSamples
    rw [hloop, Library.Checked.ok_bind, hpad, Library.Checked.ok_bind, hu16]
    rfl

end PrismSdk.ProfileVideo.Raw12Rice
