import Mathlib.Data.List.GetD
import PrismSdk.ProfileVideo.Raw12Layout

/-! The block code as a whole. Samples are written as the code words of their residuals,
packed into bytes after a header. One iteration of the block loop accepts exactly the
blocks written so, and stores the samples they were written from. -/

namespace PrismSdk.ProfileVideo.Raw12Rice

open Library (PrefixCode)
open Library.BitStream (pack)
open Library.Residual (restoreAll residuals residualAt)

/-! ### Encoding -/

/-- What the code words of a block stand for: its samples, or the residuals of those
after the first two. -/
def codeValues (mode : ℕ) (samples : List ℕ) : List ℕ :=
  if mode = 12 then samples
  else residuals 2048 (samples.getD 0 0) (samples.getD 1 0) (samples.drop 2)

def payload (mode : ℕ) (samples : List ℕ) : List UInt8 :=
  pack ((blockCode mode).write (codeValues mode samples))

/-- The block of some samples in a mode. -/
def encodeBlock (mode : ℕ) (samples : List ℕ) : List UInt8 :=
  layout mode (samples.take (firstSample mode)) (payload mode samples)

/-- The samples a mode can code: residuals that fit the bits of a fixed mode, and in a
Rice mode a block that is not longer than 385 bytes. -/
structure Encodable (mode : ℕ) (samples : List ℕ) : Prop where
  length : samples.length = 256
  le : ∀ v ∈ samples, v ≤ 4095
  fixed : mode < 12 → ∀ i, 2 ≤ i → i < 256 → residualAt 2048 samples i < 2 ^ mode
  rice : mode ≥ 32 →
    7 + (∑ i ∈ Finset.Ico 2 256,
      (residualAt 2048 samples i >>> (mode - 32) + 1 + (mode - 32)) + 7) / 8 ≤ 385

theorem codeValues_predicted {mode : ℕ} (h : mode ≠ 12) (a b : ℕ) (vs : List ℕ) :
    codeValues mode (a :: b :: vs) = residuals 2048 a b vs := if_neg h

theorem length_codeValues (mode : ℕ) {samples : List ℕ} (h : samples.length = 256) :
    (codeValues mode samples).length = 256 - firstSample mode := by
  unfold codeValues firstSample
  split_ifs
  · exact h
  · rw [Library.Residual.length_residuals, List.length_drop, h]

/-- The code words of a block in bits. -/
theorem length_payload (mode : ℕ) (samples : List ℕ) :
    (payload mode samples).length = (((codeValues mode samples).map fun q =>
      ((residualCode mode (shiftOf mode)).write q).length).sum + 7) / 8 := by
  rw [payload, Library.BitStream.length_pack]
  exact congrArg (fun n => (n + 7) / 8) List.length_flatMap

theorem length_payload_fixed {mode : ℕ} (h : ¬ mode ≥ 32) (samples : List ℕ) :
    (payload mode samples).length = ((codeValues mode samples).length * mode + 7) / 8 := by
  rw [length_payload, residualCode, if_neg h]
  simp only [PrefixCode.length_fixed, List.map_const', List.sum_replicate_nat]

theorem length_payload_rice {mode : ℕ} (h : mode ≥ 32) (a b : ℕ) (vs : List ℕ) :
    (payload mode (a :: b :: vs)).length = (∑ i ∈ Finset.Ico 2 (vs.length + 2),
      (residualAt 2048 (a :: b :: vs) i >>> (mode - 32) + 1 + (mode - 32)) + 7) / 8 := by
  rw [length_payload, residualCode, if_pos h, codeValues_predicted (by omega), shiftOf, if_pos h]
  simp only [PrefixCode.length_rice, ← Nat.shiftRight_eq_div_pow]
  rw [Library.Residual.sum_residuals fun q => q >>> (mode - 32) + 1 + (mode - 32)]

/-- The samples a mode can code are those whose code words exist and fill data of a size
the mode allows. -/
theorem encodable_iff {mode : ℕ} (hmode : LegalMode mode) {samples : List ℕ}
    (hlen : samples.length = 256) (hle : ∀ v ∈ samples, v ≤ 4095) :
    Encodable mode samples ↔
      (blockCode mode).Valid (codeValues mode samples) ∧ DataFits mode (payload mode samples) := by
  have hvalid : (blockCode mode).Valid (codeValues mode samples) ↔
      ∀ q ∈ codeValues mode samples, q < if mode ≥ 32 then 4096 else 2 ^ mode := by
    have hcode := length_codeValues mode hlen
    simp only [← residualCode_valid hmode rfl]
    exact and_iff_right hcode
  rw [hvalid]
  by_cases hdirect : mode = 12
  · subst hdirect
    constructor
    · rintro -
      refine ⟨fun q hq => Nat.lt_succ_of_le (hle q hq), ?_⟩
      show (payload 12 samples).length = 384
      rw [length_payload_fixed (by decide), codeValues, if_pos rfl, hlen]
    · rintro -
      exact ⟨hlen, hle, by omega, by omega⟩
  · obtain ⟨a, b, vs, rfl⟩ : ∃ a b vs, samples = a :: b :: vs :=
      match samples, (show 2 ≤ samples.length by omega) with
      | a :: b :: vs, _ => ⟨a, b, vs, rfl⟩
    have hvs : vs.length + 2 = 256 := hlen
    by_cases hrice : mode ≥ 32
    · rw [DataFits, if_pos hrice, length_payload_rice hrice, hvs, codeValues_predicted hdirect,
        if_pos hrice]
      constructor
      · intro h
        refine ⟨?_, h.rice hrice⟩
        rw [Library.Residual.forall_residuals (· < 4096)]
        exact fun i _ _ => Library.Residual.residual_lt (by decide) _ _
      · rintro ⟨-, hfits⟩
        exact ⟨hlen, hle, by omega, fun _ => hfits⟩
    · rw [DataFits, if_neg hrice, if_neg hdirect, length_payload_fixed hrice,
        codeValues_predicted hdirect, if_neg hrice, Library.Residual.length_residuals,
        Library.Residual.forall_residuals (· < 2 ^ mode), hvs]
      unfold LegalMode at hmode
      constructor
      · intro h
        refine ⟨h.fixed (by omega), ?_⟩
        rw [show vs.length = 254 by omega]
      · rintro ⟨hfits, -⟩
        exact ⟨hlen, hle, fun _ => hfits, fun h => absurd h hrice⟩

/-! ### The block code -/

/-- The samples that seeds and residuals give. -/
theorem exists_samples {mode : ℕ} (hmode : LegalMode mode) {seeds qs : List ℕ}
    (hseeds : seeds.length = firstSample mode) (hle : ∀ v ∈ seeds, v ≤ 4095)
    (hvalid : (blockCode mode).Valid qs) (hfits : DataFits mode (pack ((blockCode mode).write qs))) :
    ∃ samples, Encodable mode samples ∧
      encodeBlock mode samples = layout mode seeds (pack ((blockCode mode).write qs)) ∧
      samples = seeds ++ sampleValues mode (seeds.getD 0 0) (seeds.getD 1 0) qs := by
  have hqle : ∀ q ∈ qs, q ≤ 4095 := fun q hq => le_of_valid hmode rfl (hvalid.2 q hq)
  have hqs : qs.length = 256 - firstSample mode := hvalid.1
  unfold firstSample at hseeds hqs
  by_cases hdirect : mode = 12
  · rw [if_pos hdirect] at hseeds hqs
    obtain rfl := List.eq_nil_of_length_eq_zero hseeds
    have hvalues : codeValues mode qs = qs := if_pos hdirect
    refine ⟨qs, ?_, ?_, ?_⟩
    · rw [encodable_iff hmode hqs hqle, payload, hvalues]
      exact ⟨hvalid, hfits⟩
    · rw [encodeBlock, payload, hvalues, firstSample, if_pos hdirect, List.take_zero]
    · subst hdirect
      rw [sampleValues_direct, List.nil_append]
  · rw [if_neg hdirect] at hseeds hqs
    obtain ⟨a, b, rfl⟩ := List.length_eq_two.1 hseeds
    have hvalues : codeValues mode (a :: b :: restoreAll 2048 a b qs) = qs := by
      rw [codeValues_predicted hdirect]
      exact Library.Residual.residuals_restoreAll a b fun q hq => Nat.lt_succ_of_le (hqle q hq)
    refine ⟨a :: b :: restoreAll 2048 a b qs, ?_, ?_, ?_⟩
    · have hlen : (a :: b :: restoreAll 2048 a b qs).length = 256 := by
        rw [List.length_cons, List.length_cons, Library.Residual.length_restoreAll, hqs]
      have hrest : ∀ v ∈ a :: b :: restoreAll 2048 a b qs, v ≤ 4095 := by
        simp only [List.forall_mem_cons] at hle ⊢
        exact ⟨hle.1, hle.2.1, fun v hv => Nat.le_of_lt_succ
          (Library.Residual.restoreAll_lt (by decide) a b qs v hv)⟩
      rw [encodable_iff hmode hlen hrest, payload, hvalues]
      exact ⟨hvalid, hfits⟩
    · rw [encodeBlock, payload, hvalues, firstSample, if_neg hdirect]
      rfl
    · rw [sampleValues_predicted hdirect]
      rfl

/-- The seeds and the residuals of samples give them back. -/
theorem sampleValues_codeValues {mode : ℕ} {samples : List ℕ} (h : Encodable mode samples) :
    samples.take (firstSample mode) ++ sampleValues mode
      ((samples.take (firstSample mode)).getD 0 0) ((samples.take (firstSample mode)).getD 1 0)
      (codeValues mode samples) = samples := by
  by_cases hdirect : mode = 12
  · subst hdirect
    rw [sampleValues_direct]
    rfl
  · have hlen := h.length
    obtain ⟨a, b, vs, rfl⟩ : ∃ a b vs, samples = a :: b :: vs :=
      match samples, (show 2 ≤ samples.length by omega) with
      | a :: b :: vs, _ => ⟨a, b, vs, rfl⟩
    have hvs : ∀ v ∈ vs, v < 2 * 2048 := fun v hv =>
      Nat.lt_succ_of_le (h.le v (List.mem_cons_of_mem a (List.mem_cons_of_mem b hv)))
    rw [firstSample, if_neg hdirect, sampleValues_predicted hdirect, codeValues_predicted hdirect]
    show a :: b :: restoreAll 2048 a b (residuals 2048 a b vs) = _
    rw [Library.Residual.restoreAll_residuals a b hvs]

/-- The data of a block as the reader sees it. -/
def blockData (bytes : List UInt8) (position mode : ℕ) (data : List UInt8) : BlockData where
  bytes := bytes
  data := position + headerSize mode
  length := data.length

section Layout

variable {bytes : List UInt8} {position mode base : ℕ} {seeds : List ℕ} {data post u16 : List UInt8}

theorem inside_blockData (hblock : bytes.drop position = layout mode seeds data ++ post)
    (hseeds : seeds.length = firstSample mode) : (blockData bytes position mode data).Inside := by
  have htotal : bytes.length - position = headerSize mode + data.length + post.length := by
    rw [← List.length_drop, hblock, List.length_append, length_layout mode data hseeds]
  have hpos : 0 < headerSize mode := by
    unfold headerSize
    split_ifs <;> decide
  show position + headerSize mode + data.length ≤ bytes.length
  omega

theorem window_blockData (hblock : bytes.drop position = layout mode seeds data ++ post)
    (hseeds : seeds.length = firstSample mode) :
    (blockData bytes position mode data).window = data := by
  show (bytes.drop (position + headerSize mode)).take data.length = data
  rw [← List.drop_drop, hblock, drop_layout mode data post hseeds, List.take_left]

theorem toNat_previous (hle : ∀ v ∈ seeds, v ≤ 4095) (i : Fin 2) :
    ((seeded u16 base seeds).previous i).toNat = seeds.getD i 0 := by
  have hget : seeds.getD i 0 ≤ 4095 := by
    rcases Nat.lt_or_ge i seeds.length with hi | hi
    · rw [List.getD_eq_getElem _ _ hi]
      exact hle _ (List.getElem_mem hi)
    · rw [List.getD_eq_default _ _ hi]
      exact Nat.zero_le _
  show (UInt16.ofNat (seeds.getD i 0)).toNat = _
  rw [UInt16.toNat_ofNat']
  omega

/-- The samples after the seeds go where the seeds end. -/
theorem putSamples_seeded (hseeds : seeds.length = firstSample mode)
    (hroom : 2 * (base + 256) ≤ u16.length) {values : List ℕ}
    (hvalues : values.length = 256 - firstSample mode) :
    putSamples (seeded u16 base seeds).u16 (base + firstSample mode) values =
      putSamples u16 base (seeds ++ values) := by
  have hfirst : firstSample mode ≤ 2 := by
    unfold firstSample
    split_ifs <;> omega
  rw [← hseeds]
  apply putSamples_append
  omega

/-- What an iteration does at a legal header depends on the data alone. -/
theorem decodeBlock_layout_ok (hblock : bytes.drop position = layout mode seeds data ++ post)
    (hmode : LegalMode mode) (hseeds : seeds.length = firstSample mode)
    (hle : ∀ v ∈ seeds, v ≤ 4095) (hfits : DataFits mode data)
    (hroom : 2 * (base + 256) ≤ u16.length) (position' : ℕ) (u16' : List UInt8) :
    decodeBlock bytes position base u16 = .ok (position', u16') ↔
      ∃ qs : List ℕ, (blockCode mode).Valid qs ∧ data = pack ((blockCode mode).write qs) ∧
        position' = position + (layout mode seeds data).length ∧
        u16' = putSamples u16 base
          (seeds ++ sampleValues mode (seeds.getD 0 0) (seeds.getD 1 0) qs) := by
  have hu16 : (seeded u16 base seeds).u16.length = u16.length := by
    apply length_putSamples
    have hfirst : firstSample mode ≤ 2 := by
      unfold firstSample
      split_ifs <;> omega
    omega
  have hbody := decodeBody_ok (inside_blockData hblock hseeds) hmode base (seeded u16 base seeds)
    rfl (by rw [hu16]; exact hroom)
  have hzero : ((seeded u16 base seeds).previous 0).toNat = seeds.getD 0 0 := toNat_previous hle 0
  have hone : ((seeded u16 base seeds).previous 1).toNat = seeds.getD 1 0 := toNat_previous hle 1
  rw [window_blockData hblock hseeds, hzero, hone] at hbody
  have hput : ∀ qs, (blockCode mode).Valid qs →
      putSamples (seeded u16 base seeds).u16 (base + firstSample mode)
        (sampleValues mode (seeds.getD 0 0) (seeds.getD 1 0) qs) = putSamples u16 base
          (seeds ++ sampleValues mode (seeds.getD 0 0) (seeds.getD 1 0) qs) := fun qs hvalid =>
    putSamples_seeded hseeds hroom ((length_sampleValues _ _ _ _).trans hvalid.1)
  rw [decodeBlock_layout hblock hmode hseeds hle hfits hroom, Library.Checked.bind_eq_ok]
  constructor
  · rintro ⟨u, hu, h⟩
    cases h
    obtain ⟨qs, hvalid, hdata, rfl⟩ := (hbody u16').1 hu
    exact ⟨qs, hvalid, hdata, rfl, hput qs hvalid⟩
  · rintro ⟨qs, hvalid, hdata, rfl, rfl⟩
    refine ⟨_, (hbody _).2 ⟨qs, hvalid, hdata, rfl⟩, ?_⟩
    rw [hput qs hvalid]

end Layout

/-- One iteration accepts exactly the blocks written from samples their mode can code, and
puts these samples in the buffer. -/
theorem decodeBlock_iff {bytes : List UInt8} {position base : ℕ} {u16 : List UInt8}
    (hroom : 2 * (base + 256) ≤ u16.length) (position' : ℕ) (u16' : List UInt8) :
    decodeBlock bytes position base u16 = .ok (position', u16') ↔
      ∃ mode samples, LegalMode mode ∧ Encodable mode samples ∧
        encodeBlock mode samples <+: bytes.drop position ∧
        position' = position + (encodeBlock mode samples).length ∧
        u16' = putSamples u16 base samples := by
  constructor
  · intro h
    obtain ⟨mode, hmode, seeds, data, post, hseeds, hle, hfits, hblock⟩ := exists_laid h
    obtain ⟨qs, hvalid, rfl, rfl, rfl⟩ :=
      (decodeBlock_layout_ok hblock hmode hseeds hle hfits hroom position' u16').1 h
    obtain ⟨samples, hsamples, hencode, hvalues⟩ :=
      exists_samples hmode hseeds hle hvalid hfits
    exact ⟨mode, samples, hmode, hsamples, ⟨post, by rw [hencode, hblock]⟩, by rw [hencode],
      by rw [hvalues]⟩
  · rintro ⟨mode, samples, hmode, hsamples, ⟨post, hblock⟩, rfl, rfl⟩
    obtain ⟨hvalid, hfits⟩ := (encodable_iff hmode hsamples.length hsamples.le).1 hsamples
    have hfirst : (samples.take (firstSample mode)).length = firstSample mode := by
      rw [List.length_take, hsamples.length, firstSample]
      split_ifs <;> rfl
    rw [decodeBlock_layout_ok hblock.symm hmode hfirst
      (fun v hv => hsamples.le v (List.mem_of_mem_take hv)) hfits hroom]
    exact ⟨codeValues mode samples, hvalid, rfl, rfl,
      by rw [sampleValues_codeValues hsamples]⟩

/-- A sample of the buffer, as the packing loop reads it. -/
def sampleAt (u16 : List UInt8) (i : ℕ) : ℕ :=
  (u16.getD (2 * i) 0).toNat ||| (u16.getD (2 * i + 1) 0).toNat <<< 8

theorem getD_flatMap_sampleBytes (values : List ℕ) (i : ℕ) :
    (values.flatMap sampleBytes).getD (2 * i) 0 = UInt8.ofNat (values.getD i 0) ∧
      (values.flatMap sampleBytes).getD (2 * i + 1) 0 = UInt8.ofNat (values.getD i 0 >>> 8) := by
  induction values generalizing i with
  | nil => exact ⟨rfl, by simp⟩
  | cons v values ih =>
    cases i with
    | zero => exact ⟨rfl, rfl⟩
    | succ i => exact ih i

theorem sampleAt_putSamples {u16 : List UInt8} {j i : ℕ} {values : List ℕ}
    (hroom : 2 * (j + values.length) ≤ u16.length) (hi : i < values.length)
    (hle : ∀ v ∈ values, v ≤ 4095) :
    sampleAt (putSamples u16 j values) (j + i) = values.getD i 0 := by
  have hvalue : values.getD i 0 ≤ 4095 := by
    rw [List.getD_eq_getElem _ _ hi]
    exact hle _ (List.getElem_mem hi)
  have hget : ∀ n < 2 * values.length, (putSamples u16 j values).getD (2 * j + n) 0 =
      (values.flatMap sampleBytes).getD n 0 := by
    intro n hn
    have htake : (u16.take (2 * j)).length = 2 * j := by
      rw [List.length_take]
      omega
    rw [putSamples, List.append_assoc, List.getD_append_right _ _ _ _ (by omega), htake,
      Nat.add_sub_cancel_left, List.getD_append _ _ _ _ (by rwa [length_flatMap_sampleBytes])]
  obtain ⟨hlow, hhigh⟩ := getD_flatMap_sampleBytes values i
  rw [sampleAt, Nat.mul_add, Nat.add_assoc, hget _ (by omega), hget _ (by omega), hlow, hhigh,
    or_shiftLeft_eq, toNat_sampleBytes (by omega)]

/-- The byte strings one iteration accepts as a block with this first byte. -/
def acceptedBlocks (mode : UInt8) : Set (List UInt8) :=
  {block | block.head? = some mode ∧
    ∃ u16, decodeBlock block 0 0 (List.replicate 512 0) = .ok (block.length, u16)}

/-- The samples one iteration stores for a block. -/
def blockSamples (block : List UInt8) : List ℕ :=
  match decodeBlock block 0 0 (List.replicate 512 0) with
  | .ok (_, u16) => (List.range 256).map (sampleAt u16)
  | .error _ => []

theorem head_encodeBlock (mode : ℕ) (samples : List ℕ) :
    (encodeBlock mode samples).head? = some (UInt8.ofNat mode) := rfl

theorem decodeBlock_encodeBlock {mode : ℕ} (hmode : LegalMode mode) {samples : List ℕ}
    (h : Encodable mode samples) :
    decodeBlock (encodeBlock mode samples) 0 0 (List.replicate 512 0) =
      .ok ((encodeBlock mode samples).length, putSamples (List.replicate 512 0) 0 samples) := by
  apply (decodeBlock_iff (by rw [List.length_replicate]) _ _).2
  exact ⟨mode, samples, hmode, h, List.prefix_rfl, (Nat.zero_add _).symm, rfl⟩

theorem blockSamples_encodeBlock {mode : ℕ} (hmode : LegalMode mode) {samples : List ℕ}
    (h : Encodable mode samples) : blockSamples (encodeBlock mode samples) = samples := by
  have hlen := h.length
  unfold blockSamples
  rw [decodeBlock_encodeBlock hmode h]
  apply List.ext_getElem
  · rw [List.length_map, List.length_range, hlen]
  · intro i h₁ h₂
    have hsample := @sampleAt_putSamples (List.replicate 512 0) 0 i samples
      (by rw [List.length_replicate, hlen]) h₂ h.le
    rw [Nat.zero_add, List.getD_eq_getElem _ _ h₂] at hsample
    rw [List.getElem_map, List.getElem_range, hsample]

/-- The accepted blocks are the written ones. -/
theorem mem_acceptedBlocks {mode : UInt8} {block : List UInt8} :
    block ∈ acceptedBlocks mode ↔ LegalMode mode.toNat ∧ ∃ samples,
      Encodable mode.toNat samples ∧ block = encodeBlock mode.toNat samples := by
  constructor
  · rintro ⟨hhead, u16, h⟩
    obtain ⟨m, samples, hmode, hsamples, hstart, hlen, -⟩ :=
      (decodeBlock_iff (by rw [List.length_replicate]) _ _).1 h
    rw [Nat.zero_add] at hlen
    obtain rfl := hstart.eq_of_length hlen.symm
    have hbyte : UInt8.ofNat m = mode := Option.some.inj hhead
    have hm : m = mode.toNat := by
      unfold LegalMode at hmode
      rw [← hbyte, UInt8.toNat_ofNat']
      omega
    subst hm
    exact ⟨hmode, samples, hsamples, rfl⟩
  · rintro ⟨hmode, samples, hsamples, rfl⟩
    refine ⟨?_, _, decodeBlock_encodeBlock hmode hsamples⟩
    rw [head_encodeBlock, UInt8.ofNat_toNat]

/-- The block code is lossless and canonical: wherever it stands, an iteration accepts
just the accepted blocks and stores their samples, and for each mode it is a bijection
between these blocks and the samples the mode can code. -/
theorem block_lossless (mode : UInt8) (hmode : LegalMode mode.toNat) :
    (∀ (bytes u16 u16' : List UInt8) (position base position' : ℕ),
      2 * (base + 256) ≤ u16.length → bytes[position]? = some mode →
        (decodeBlock bytes position base u16 = .ok (position', u16') ↔
          ∃ block ∈ acceptedBlocks mode, block <+: bytes.drop position ∧
            position' = position + block.length ∧
            u16' = putSamples u16 base (blockSamples block))) ∧
      Set.BijOn blockSamples (acceptedBlocks mode) {samples | Encodable mode.toNat samples} := by
  constructor
  · intro bytes u16 u16' position base position' hroom hbyte
    rw [decodeBlock_iff hroom]
    constructor
    · rintro ⟨m, samples, hm, hsamples, hstart, hposition, hu16⟩
      have hfirst : UInt8.ofNat m = mode := by
        obtain ⟨post, hpost⟩ := hstart
        rw [← List.head?_drop, ← hpost] at hbyte
        exact Option.some.inj hbyte
      have hmeq : m = mode.toNat := by
        unfold LegalMode at hm
        rw [← hfirst, UInt8.toNat_ofNat']
        omega
      subst hmeq
      refine ⟨_, mem_acceptedBlocks.2 ⟨hm, samples, hsamples, rfl⟩, hstart, hposition, ?_⟩
      rw [blockSamples_encodeBlock hm hsamples, hu16]
    · rintro ⟨block, hblock, hstart, hposition, hu16⟩
      obtain ⟨-, samples, hsamples, rfl⟩ := mem_acceptedBlocks.1 hblock
      rw [blockSamples_encodeBlock hmode hsamples] at hu16
      exact ⟨_, samples, hmode, hsamples, hstart, hposition, hu16⟩
  · refine ⟨?_, ?_, ?_⟩
    · intro block hblock
      obtain ⟨-, samples, hsamples, rfl⟩ := mem_acceptedBlocks.1 hblock
      rw [blockSamples_encodeBlock hmode hsamples]
      exact hsamples
    · intro block hblock block' hblock' heq
      obtain ⟨-, samples, hsamples, rfl⟩ := mem_acceptedBlocks.1 hblock
      obtain ⟨-, samples', hsamples', rfl⟩ := mem_acceptedBlocks.1 hblock'
      rw [blockSamples_encodeBlock hmode hsamples, blockSamples_encodeBlock hmode hsamples'] at heq
      rw [heq]
    · intro samples hsamples
      exact ⟨_, mem_acceptedBlocks.2 ⟨hmode, samples, hsamples, rfl⟩,
        blockSamples_encodeBlock hmode hsamples⟩

/-- The Rice mode with `k = 0`. -/
theorem block_lossless_rice :
    Set.BijOn blockSamples (acceptedBlocks 32) {samples | Encodable 32 samples} :=
  (block_lossless 32 (by decide)).2

end PrismSdk.ProfileVideo.Raw12Rice
