import PrismSdk.ProfileVideo.Raw12Envelope

/-! A writer of Rice envelopes: a version 1 header without timing, and blocks. Whatever
61440 blocks it is given, the decoder accepts what it writes and returns their samples. -/

namespace PrismSdk.ProfileVideo

open Library (Checked Fault)
open Raw12Rice (LegalMode Encodable encodeBlock sampleBytes)
open RiceBlock (written image)

/-- A block is no longer than the decoder allows. -/
theorem RiceBlock.length_bytes_le (block : RiceBlock) : block.bytes.length ≤ 385 := by
  have hlegal := block.legal
  have hlength := block.encodable.length
  have hfits := ((Raw12Rice.encodable_iff hlegal hlength block.encodable.le).1 block.encodable).2
  have hseeds : (block.samples.take (Raw12Rice.firstSample block.mode)).length =
      Raw12Rice.firstSample block.mode := by
    rw [List.length_take, hlength, Raw12Rice.firstSample]
    split_ifs <;> rfl
  rw [RiceBlock.bytes, encodeBlock, Raw12Rice.length_layout _ _ hseeds, Raw12Rice.headerSize]
  unfold Raw12Rice.DataFits at hfits
  unfold LegalMode at hlegal
  split_ifs at hfits ⊢ <;> omega

theorem length_written_le (blocks : List RiceBlock) :
    (written blocks).length ≤ 385 * blocks.length := by
  induction blocks with
  | nil => exact Nat.zero_le _
  | cons block blocks ih =>
    have hblock := block.length_bytes_le
    rw [written] at ih ⊢
    rw [List.flatMap_cons, List.length_append, List.length_cons]
    omega

theorem length_written_pos {blocks : List RiceBlock} (h : blocks ≠ []) :
    0 < (written blocks).length := by
  obtain ⟨block, rest, rfl⟩ := List.exists_cons_of_ne_nil h
  rw [written, List.flatMap_cons, List.length_append]
  exact Nat.add_pos_left (List.length_pos_of_ne_nil block.bytes_ne_nil) _

/-- A version 1 header without timing. -/
def riceHeader (decodedCrc encodedCrc size : UInt32) : List UInt8 :=
  prg1 ++ ([1, 64, 12, 0, 0x00, 0x14, 0, 0, 0x00, 0x0c, 0, 0, 0x00, 0x00, 0x68, 0x01] ++
    (le32 decodedCrc ++ (List.replicate 12 0 ++ ([2, 0, 0, 0] ++ (List.replicate 8 0 ++
      (le32 encodedCrc ++ ([0, 1, 0, 0] ++ (le32 size ++ List.replicate 4 0))))))))

/-- The envelope of some blocks. -/
def encodeRaw12Rice (blocks : List RiceBlock) : List UInt8 :=
  riceHeader (rawCrc32 ((image blocks).flatMap sampleBytes)) (rawCrc32 (written blocks))
    (UInt32.ofNat (written blocks).length) ++ written blocks

section Header

variable (d e n : UInt32) (payload : List UInt8)

theorem length_riceHeader : (riceHeader d e n).length = 64 := rfl

theorem isExtended_riceHeader : isExtended (riceHeader d e n ++ payload) = false := rfl

theorem headerBytes_riceHeader : headerBytes (riceHeader d e n ++ payload) = 64 := rfl

theorem le32At_riceHeader : le32At (riceHeader d e n ++ payload) 20 = d ∧
    le32At (riceHeader d e n ++ payload) 48 = e ∧ le32At (riceHeader d e n ++ payload) 56 = n :=
  ⟨rawLe32_le32 d, rawLe32_le32 e, rawLe32_le32 n⟩

theorem headerAccepted_riceHeader {payload : List UInt8} (hpos : 0 < payload.length)
    (hsize : n.toNat = payload.length) (hlimit : payload.length + 64 ≤ 32 * 1024 * 1024) :
    HeaderAccepted (riceHeader d e n ++ payload) (riceHeader d e n ++ payload).length
      kRaw12Rice := by
  have hlen : (riceHeader d e n ++ payload).length = 64 + payload.length := by
    rw [List.length_append, length_riceHeader]
  have hbytes := headerBytes_riceHeader d e n payload
  refine ⟨Or.inl rfl, Or.inr rfl, Or.inl rfl, rfl, ?_, ?_, ?_, ?_, ?_, fun _ => ?_, ?_⟩
  · omega
  · omega
  · omega
  · exact ⟨rfl, show (0 : UInt8) ≤ 3 by decide, rfl, show (0 : UInt8) < 4 by decide, rfl,
      show rawLe32 0x00 0x14 0 0 = 5120 by decide, show rawLe32 0x00 0x0c 0 0 = 3072 by decide,
      show rawLe32 0x00 0x00 0x68 0x01 = 23592960 by decide⟩
  · exact Or.inl ⟨rfl, show rawStamp (rawLe32 0 0 0 0) (rawLe32 0 0 0 0) = 0 by decide⟩
  · refine ⟨show rawLe32 0 1 0 0 = 256 by decide, ?_, show rawLe32 0 0 0 0 = 0 by decide⟩
    rw [(le32At_riceHeader d e n payload).2.2, hbytes, hlen, Nat.add_sub_cancel_left, hsize]
  · intro hyes
    rw [isExtended_riceHeader] at hyes
    cases hyes

end Header

/-- What is written is an envelope. -/
theorem riceEnvelope_encode {blocks : List RiceBlock} (h : blocks.length = pixels / 256) :
    RiceEnvelope (encodeRaw12Rice blocks) blocks := by
  have hcount : pixels / 256 = 61440 := by decide
  have hle := length_written_le blocks
  have hpos : 0 < (written blocks).length := by
    apply length_written_pos
    rintro rfl
    rw [hcount] at h
    cases h
  have hsize : (UInt32.ofNat (written blocks).length).toNat = (written blocks).length := by
    rw [UInt32.toNat_ofNat']
    omega
  unfold encodeRaw12Rice
  refine ⟨headerAccepted_riceHeader _ _ _ hpos hsize (by omega), ?_, ?_, h, ?_, ?_⟩
  · rw [List.length_append, length_riceHeader, kProfileImageLimit]
    omega
  · rw [headerBytes_riceHeader, List.drop_left' (length_riceHeader _ _ _)]
    exact (le32At_riceHeader _ _ _ _).2.1.symm
  · rw [headerBytes_riceHeader, List.drop_left' (length_riceHeader _ _ _)]
  · exact (le32At_riceHeader _ _ _ _).1.symm

/-- The decoder returns the samples of any blocks. -/
theorem decodeRaw12Rice_encode {blocks : List RiceBlock} (h : blocks.length = pixels / 256) :
    decodeRaw12Rice (encodeRaw12Rice blocks) = .ok (raw12ImageOf (encodeRaw12Rice blocks) 0
      (packSamples (image blocks))) :=
  (decodeRaw12Rice_iff _ _).2 ⟨blocks, riceEnvelope_encode h, rfl⟩

/-- A block of zeros, without a bit of data. -/
def blankBlock : RiceBlock where
  mode := 0
  samples := List.replicate 256 0
  legal := by decide
  encodable := ⟨List.length_replicate, fun v hv => by rw [List.eq_of_mem_replicate hv]; decide,
    fun _ i _ hi => (show ∀ i < 256,
      Library.Residual.residualAt 2048 (List.replicate 256 0) i < 2 ^ 0 by decide +kernel) i hi,
    fun h => absurd h (by decide)⟩

/-- A black image. -/
def blankBlocks : List RiceBlock := List.replicate (pixels / 256) blankBlock

theorem length_blankBlocks : blankBlocks.length = pixels / 256 := List.length_replicate

end PrismSdk.ProfileVideo
