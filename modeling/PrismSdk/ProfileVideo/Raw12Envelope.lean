import PrismSdk.ProfileVideo.Raw12Blocks

/-! What the two decoders accept. The checks they repeat never fail on a header the
parser accepted, so only the payload is left to judge: for a Rice envelope, 61440 blocks
between the two checksums; for a Zstandard envelope, what the library says. -/

namespace PrismSdk.ProfileVideo

open Library (Checked Fault)
open Library.Checked (load loadAll Safe)
open Raw12Rice (sampleBytes)
open RiceBlock (written image)

variable {bytes : List UInt8} {total : ℕ} {format : UInt8}

/-! ### The repeated checks -/

theorem HeaderAccepted.le_length (h : HeaderAccepted bytes total format) : 48 ≤ bytes.length := by
  have hlegacy := legacyBytes_cases bytes
  have hle := le_headerBytes bytes
  have havailable := h.available
  omega

theorem HeaderAccepted.isRice_of_rice (h : HeaderAccepted bytes total kRaw12Rice) :
    isRice bytes = true := by
  have hformat := h.format
  by_contra hzstd
  rw [if_neg hzstd] at hformat
  exact absurd hformat (by decide)

theorem HeaderAccepted.isRice_of_zstd (h : HeaderAccepted bytes total kRaw12Zstd) :
    isRice bytes = false := by
  have hformat := h.format
  by_contra hrice
  rw [if_pos (Bool.eq_true_of_not_eq_false hrice)] at hformat
  exact absurd hformat (by decide)

/-- The two timing predicates agree. -/
theorem validProfileTiming_iff (mode : UInt8) (stamp : UInt64) :
    validProfileTiming mode stamp = true ↔
      mode = 0 ∧ stamp = 0 ∨ 1 ≤ mode ∧ mode ≤ 3 ∨ mode = 4 ∧ stamp ≠ 0 := by
  have hzero : ∀ m : UInt8, m = 0 ↔ m.toNat = 0 := fun m => UInt8.toNat_inj.symm
  have hfour : ∀ m : UInt8, m = 4 ↔ m.toNat = 4 := fun m => UInt8.toNat_inj.symm
  unfold validProfileTiming
  simp only [Bool.and_eq_true, decide_eq_true_eq, UInt8.le_iff_toNat_le, hzero mode, hfour mode,
    UInt8.reduceToNat]
  split_ifs with hmode hmode
  · simp [hmode]
  · simp [hmode]
  · simp only [and_true, hmode, false_and, or_false]
    omega

theorem badFields_of_accepted (h : HeaderAccepted bytes total format) :
    badFields bytes = .ok false := by
  have hlength := h.le_length
  obtain ⟨hdepth, hbayer, hpacking, hcamera, hreserved, -⟩ := h.image
  have hmode : ¬ bytes.getD 38 0 > 4 := by
    have htiming := (validProfileTiming_iff _ _).2 h.timing
    rw [validProfileTiming, Bool.and_eq_true, decide_eq_true_eq] at htiming
    exact UInt8.not_lt.2 htiming.1
  have hcamera' : ¬ bytes.getD 37 0 > 3 := by
    rw [gt_iff_lt, UInt8.lt_iff_toNat_lt]
    rw [UInt8.lt_iff_toNat_lt] at hcamera
    exact Nat.not_lt.2 (Nat.le_of_lt_succ hcamera)
  unfold badFields
  rw [Library.Checked.load_of_lt (show 6 < bytes.length by omega),
    Library.Checked.load_of_lt (show 7 < bytes.length by omega),
    Library.Checked.load_of_lt (show 36 < bytes.length by omega),
    Library.Checked.load_of_lt (show 37 < bytes.length by omega),
    Library.Checked.load_of_lt (show 38 < bytes.length by omega),
    Library.Checked.load_of_lt (show 39 < bytes.length by omega)]
  simp only [Library.Checked.ok_bind]
  rw [decide_eq_false]
  · rfl
  · simp only [not_or, not_not]
    exact ⟨hdepth, UInt8.not_lt.2 hbayer, hpacking, hcamera', hmode, hreserved⟩

theorem checkTiming_of_accepted (h : HeaderAccepted bytes total format) :
    checkTiming bytes = .ok () := by
  have hlength := h.le_length
  unfold checkTiming
  rw [Library.Checked.load_of_lt (show 38 < bytes.length by omega),
    rawHeaderLe32_of_le (show 40 + 4 ≤ bytes.length by omega),
    rawHeaderLe32_of_le (show 44 + 4 ≤ bytes.length by omega)]
  have hvalid : validProfileTiming (bytes.getD 38 0) (headerStamp bytes) = true :=
    (validProfileTiming_iff _ _).2 h.timing
  unfold headerStamp at hvalid
  simp only [Library.Checked.ok_bind]
  rw [if_pos hvalid]
  rfl

/-- The image of a header with the pixels. -/
def raw12ImageOf (bytes : List UInt8) (trigger : UInt32) (packed : List UInt8) : Raw12Image where
  width := le32At bytes 8
  height := le32At bytes 12
  frameId := le32At bytes 24
  exposureUs := le32At bytes 28
  gainX1024 := le32At bytes 32
  camera := bytes.getD 37 0
  bayer := bytes.getD 7 0
  timingMode := bytes.getD 38 0
  sourceTimestampUs := headerStamp bytes
  packed := packed
  triggerSequence := trigger

/-- The image is in the fields of the header. -/
theorem SameFields.raw12ImageOf {p q : List UInt8} (h : SameFields p q) (trigger : UInt32)
    (packed : List UInt8) :
    ProfileVideo.raw12ImageOf q trigger packed = ProfileVideo.raw12ImageOf p trigger packed := by
  unfold ProfileVideo.raw12ImageOf
  rw [h.headerStamp, h 37 (by decide) (by decide), h 7 (by decide) (by decide),
    h 38 (by decide) (by decide), h.le32At (by decide) (by decide),
    h.le32At (by decide) (by decide), h.le32At (by decide) (by decide),
    h.le32At (by decide) (by decide),
    h.le32At (by decide) (by decide)]

theorem describe_eq (h : 48 ≤ bytes.length) (envelope : Raw12Header) (packed : List UInt8) :
    describe bytes envelope packed = .ok (raw12ImageOf bytes envelope.triggerSequence packed) := by
  unfold describe
  rw [rawHeaderLe32_of_le (show 8 + 4 ≤ bytes.length by omega),
    rawHeaderLe32_of_le (show 12 + 4 ≤ bytes.length by omega),
    rawHeaderLe32_of_le (show 24 + 4 ≤ bytes.length by omega),
    rawHeaderLe32_of_le (show 28 + 4 ≤ bytes.length by omega),
    rawHeaderLe32_of_le (show 32 + 4 ≤ bytes.length by omega),
    Library.Checked.load_of_lt (show 37 < bytes.length by omega),
    Library.Checked.load_of_lt (show 7 < bytes.length by omega),
    Library.Checked.load_of_lt (show 38 < bytes.length by omega),
    rawHeaderLe32_of_le (show 40 + 4 ≤ bytes.length by omega),
    rawHeaderLe32_of_le (show 44 + 4 ≤ bytes.length by omega)]
  rfl

/-- The payload is read as a whole. -/
theorem loadAll_payload {header : ℕ} (h : header ≤ bytes.length) :
    loadAll bytes header (bytes.length - header) = .ok (bytes.drop header) := by
  rw [Library.Checked.loadAll_of_le (by omega), List.take_of_length_le]
  rw [List.length_drop]

/-! ### Rice -/

section Rice

theorem checkRiceHeader_of_accepted (h : HeaderAccepted bytes bytes.length kRaw12Rice)
    (hlimit : bytes.length ≤ kProfileImageLimit) : checkRiceHeader bytes = .ok () := by
  have hrice := h.isRice_of_rice
  have hlegacy : legacyBytes bytes = 64 := if_pos hrice
  have hle := le_headerBytes bytes
  have hpayload := h.payload
  have hmagic : decide (bytes.take 4 = prg1) = true := hrice
  unfold checkRiceHeader
  rw [if_neg (by omega), hasMagic_of_le (by omega), badFields_of_accepted h,
    rawHeaderLe32_of_le (show 60 + 4 ≤ bytes.length by omega), hmagic, (h.rice hrice).2.2]
  rfl

theorem badGeometry_of_accepted (h : HeaderAccepted bytes bytes.length kRaw12Rice) :
    badGeometry bytes ⟨headerBytes bytes, headerTrigger bytes⟩ = .ok false := by
  have hrice := h.isRice_of_rice
  have hlegacy : legacyBytes bytes = 64 := if_pos hrice
  have hle := le_headerBytes bytes
  have havailable := h.available
  obtain ⟨-, -, -, -, -, hwidth, hheight, hsize⟩ := h.image
  obtain ⟨hblock, hencoded, -⟩ := h.rice hrice
  unfold badGeometry
  rw [rawHeaderLe32_of_le (show 8 + 4 ≤ bytes.length by omega),
    rawHeaderLe32_of_le (show 12 + 4 ≤ bytes.length by omega),
    rawHeaderLe32_of_le (show 16 + 4 ≤ bytes.length by omega),
    rawHeaderLe32_of_le (show 52 + 4 ≤ bytes.length by omega),
    rawHeaderLe32_of_le (show 56 + 4 ≤ bytes.length by omega)]
  simp only [Library.Checked.ok_bind]
  rw [decide_eq_false]
  · rfl
  · simp only [not_or, not_not]
    exact ⟨hwidth, hheight, hsize, hblock, hencoded⟩

/-- On an accepted header, the encoded checksum and the payload decide. -/
theorem decodeRaw12Rice_of_accepted (h : HeaderAccepted bytes bytes.length kRaw12Rice)
    (hlimit : bytes.length ≤ kProfileImageLimit) : decodeRaw12Rice bytes =
      if rawCrc32 (bytes.drop (headerBytes bytes)) ≠ le32At bytes 48 then
        .error (.thrown "invalid GPU RAW12 size or encoded CRC")
      else decodePayload bytes ⟨headerBytes bytes, headerTrigger bytes⟩ := by
  have hlegacy : legacyBytes bytes = 64 := if_pos h.isRice_of_rice
  have hle := le_headerBytes bytes
  have havailable := h.available
  unfold decodeRaw12Rice checkRiceSize badEncodedCrc
  rw [h.parse, Library.Checked.ok_bind, checkRiceHeader_of_accepted h hlimit,
    Library.Checked.ok_bind, checkTiming_of_accepted h, Library.Checked.ok_bind,
    badGeometry_of_accepted h, Library.Checked.ok_bind, loadAll_payload havailable,
    rawHeaderLe32_of_le (show 48 + 4 ≤ bytes.length by omega)]
  simp only [Library.Checked.ok_bind]
  by_cases hcrc : rawCrc32 (bytes.drop (headerBytes bytes)) = le32At bytes 48
  · rw [if_neg (not_not.2 hcrc), decide_eq_false (not_not.2 hcrc)]
    rfl
  · rw [if_pos hcrc, decide_eq_true hcrc]
    rfl

/-- The envelope of an image: an accepted header around 61440 blocks. -/
structure RiceEnvelope (bytes : List UInt8) (blocks : List RiceBlock) : Prop where
  header : HeaderAccepted bytes bytes.length kRaw12Rice
  limit : bytes.length ≤ kProfileImageLimit
  encodedCrc : rawCrc32 (bytes.drop (headerBytes bytes)) = le32At bytes 48
  count : blocks.length = pixels / 256
  payload : bytes.drop (headerBytes bytes) = written blocks
  decodedCrc : rawCrc32 ((image blocks).flatMap sampleBytes) = le32At bytes 20

theorem packRaw12_image {blocks : List RiceBlock} (h : blocks.length = pixels / 256) :
    packRaw12 ((image blocks).flatMap sampleBytes) pixels = .ok (packSamples (image blocks)) := by
  have hlen : (image blocks).length = pixels := by
    rw [RiceBlock.length_image, h]
    decide
  conv_lhs => rw [← hlen]
  exact packRaw12_eq (by rw [hlen]; decide) (RiceBlock.image_le blocks)

/-- The rest of the decoder accepts just the blocks that fill the payload and give the
decoded checksum. -/
theorem decodePayload_iff {envelope : Raw12Header} (hlength : 48 ≤ bytes.length)
    (havailable : envelope.bytes ≤ bytes.length) (r : Raw12Image) :
    decodePayload bytes envelope = .ok r ↔ ∃ blocks : List RiceBlock,
      blocks.length = pixels / 256 ∧ bytes.drop envelope.bytes = written blocks ∧
        rawCrc32 ((image blocks).flatMap sampleBytes) = le32At bytes 20 ∧
        r = raw12ImageOf bytes envelope.triggerSequence (packSamples (image blocks)) := by
  have hexpected := rawHeaderLe32_of_le (show 20 + 4 ≤ bytes.length by omega)
  unfold decodePayload
  rw [Library.Checked.bind_eq_ok]
  constructor
  · rintro ⟨⟨position, u16⟩, hloop, h⟩
    obtain ⟨blocks, hcount, hstart, rfl, rfl⟩ := (decodeBlocks_iff le_rfl _ _).1 hloop
    dsimp only at h
    rw [putSamples_all hcount, hexpected, Library.Checked.ok_bind] at h
    split_ifs at h with hbad
    simp only [not_or, not_not] at hbad
    obtain ⟨hend, hcrc⟩ := hbad
    rw [packRaw12_image hcount, Library.Checked.ok_bind, describe_eq hlength] at h
    refine ⟨blocks, hcount, ?_, hcrc, (Except.ok.inj h).symm⟩
    refine (hstart.eq_of_length ?_).symm
    rw [List.length_drop]
    omega
  · rintro ⟨blocks, hcount, hpayload, hcrc, rfl⟩
    have hend : envelope.bytes + (written blocks).length = bytes.length := by
      rw [← hpayload, List.length_drop]
      omega
    refine ⟨_, (decodeBlocks_iff le_rfl _ _).2
      ⟨blocks, hcount, by rw [hpayload], rfl, rfl⟩, ?_⟩
    dsimp only
    rw [putSamples_all hcount, hexpected, Library.Checked.ok_bind,
      if_neg (by simp only [not_or, not_not]; exact ⟨hend, hcrc⟩), packRaw12_image hcount,
      Library.Checked.ok_bind, describe_eq hlength]

/-- The Rice decoder accepts just the envelopes. -/
theorem decodeRaw12Rice_iff (bytes : List UInt8) (r : Raw12Image) :
    decodeRaw12Rice bytes = .ok r ↔ ∃ blocks, RiceEnvelope bytes blocks ∧
      r = raw12ImageOf bytes (headerTrigger bytes) (packSamples (image blocks)) := by
  constructor
  · intro h
    have hdecode := h
    obtain ⟨envelope, hparse, h⟩ := Library.Checked.bind_eq_ok.1 h
    obtain ⟨⟨⟩, hcheck, -⟩ := Library.Checked.bind_eq_ok.1 h
    obtain ⟨_, ⟨⟩, haccepted, rfl⟩ := (parseRaw12Header_iff _ _ _ _).1 hparse
    have hlimit : bytes.length ≤ kProfileImageLimit := by
      unfold checkRiceHeader at hcheck
      split_ifs at hcheck with hbad
      omega
    rw [decodeRaw12Rice_of_accepted haccepted hlimit] at hdecode
    split_ifs at hdecode with hcrc
    obtain ⟨blocks, hcount, hpayload, hdecoded, rfl⟩ :=
      (decodePayload_iff haccepted.le_length haccepted.available r).1 hdecode
    exact ⟨blocks, ⟨haccepted, hlimit, not_not.1 hcrc, hcount, hpayload, hdecoded⟩, rfl⟩
  · rintro ⟨blocks, h, rfl⟩
    rw [decodeRaw12Rice_of_accepted h.header h.limit, if_neg (not_not.2 h.encodedCrc)]
    exact (decodePayload_iff h.header.le_length h.header.available _).2
      ⟨blocks, h.count, h.payload, h.decodedCrc, rfl⟩

end Rice

/-! ### Zstandard -/

section Zstandard

theorem checkZstdHeader_of_accepted (h : HeaderAccepted bytes bytes.length kRaw12Zstd)
    (hlimit : bytes.length ≤ kProfileImageLimit) : checkZstdHeader bytes = .ok () := by
  have hlegacy := legacyBytes_cases bytes
  have hle := le_headerBytes bytes
  have hpayload := h.payload
  have hmagic : decide (bytes.take 4 = prz1) = true :=
    decide_eq_true (h.magic.resolve_left (of_decide_eq_false h.isRice_of_zstd))
  unfold checkZstdHeader
  rw [if_neg (by omega), hasMagic_of_le (by omega), badFields_of_accepted h, hmagic]
  rfl

theorem checkZstdGeometry_of_accepted (h : HeaderAccepted bytes total format) :
    checkZstdGeometry bytes = .ok () := by
  have hlength := h.le_length
  obtain ⟨-, -, -, -, -, hwidth, hheight, hsize⟩ := h.image
  unfold checkZstdGeometry
  rw [rawHeaderLe32_of_le (show 8 + 4 ≤ bytes.length by omega),
    rawHeaderLe32_of_le (show 12 + 4 ≤ bytes.length by omega),
    rawHeaderLe32_of_le (show 16 + 4 ≤ bytes.length by omega)]
  simp only [Library.Checked.ok_bind]
  rw [if_neg]
  · rfl
  · simp only [not_or, not_not]
    exact ⟨hwidth, hheight, hsize⟩

/-- On an accepted header, the library and the decoded checksum decide. -/
theorem decodeRaw12Zstd_of_accepted (z : Zstd)
    (h : HeaderAccepted bytes bytes.length kRaw12Zstd)
    (hlimit : bytes.length ≤ kProfileImageLimit) : decodeRaw12Zstd z bytes =
      decompressPayload z bytes ⟨headerBytes bytes, headerTrigger bytes⟩ := by
  unfold decodeRaw12Zstd
  rw [h.parse, Library.Checked.ok_bind, checkZstdHeader_of_accepted h hlimit,
    Library.Checked.ok_bind, checkTiming_of_accepted h, Library.Checked.ok_bind,
    checkZstdGeometry_of_accepted h, Library.Checked.ok_bind]

/-- `size`. -/
abbrev rawSize : ℕ := (23592960 : UInt32).toNat

/-- What the library must say of the payload of an image. -/
structure Decompresses (z : Zstd) (payload packed : List UInt8) (crc : UInt32) : Prop where
  content : z.getFrameContentSize payload = rawSize
  frame : z.findFrameCompressedSize payload = payload.length
  success : z.isError (z.decompress rawSize payload).1 = false
  size : (z.decompress rawSize payload).1 = rawSize
  result : (z.decompress rawSize payload).2.val = packed
  decodedCrc : rawCrc32 packed = crc

theorem decompressPayload_iff (z : Zstd) {envelope : Raw12Header} (hlength : 48 ≤ bytes.length)
    (hsize : le32At bytes 16 = 23592960) (havailable : envelope.bytes ≤ bytes.length)
    (r : Raw12Image) : decompressPayload z bytes envelope = .ok r ↔
      ∃ packed, Decompresses z (bytes.drop envelope.bytes) packed (le32At bytes 20) ∧
        r = raw12ImageOf bytes envelope.triggerSequence packed := by
  have hpayload : bytes.length - envelope.bytes = (bytes.drop envelope.bytes).length :=
    List.length_drop.symm
  unfold decompressPayload
  rw [rawHeaderLe32_of_le (show 16 + 4 ≤ bytes.length by omega), loadAll_payload havailable,
    rawHeaderLe32_of_le (show 20 + 4 ≤ bytes.length by omega), hsize, hpayload]
  simp only [Library.Checked.ok_bind, describe_eq hlength]
  generalize bytes.drop envelope.bytes = payload
  constructor
  · intro h
    split_ifs at h with hframe herror hcount hcrc
    simp only [not_or, not_not] at hframe hcount hcrc
    exact ⟨_, ⟨hframe.1, hframe.2, Bool.eq_false_of_not_eq_true herror, hcount, rfl, hcrc⟩,
      (Except.ok.inj h).symm⟩
  · rintro ⟨_, ⟨hcontent, hframe, hsuccess, hcount, rfl, hcrc⟩, rfl⟩
    rw [if_neg (by simp only [not_or, not_not]; exact ⟨hcontent, hframe⟩),
      if_neg (by rw [hsuccess]; exact Bool.false_ne_true), if_neg (not_not.2 hcount),
      if_neg (not_not.2 hcrc)]

/-- The envelope of an image: an accepted header before a frame of the library. -/
structure ZstdEnvelope (z : Zstd) (bytes packed : List UInt8) : Prop where
  header : HeaderAccepted bytes bytes.length kRaw12Zstd
  limit : bytes.length ≤ kProfileImageLimit
  payload : Decompresses z (bytes.drop (headerBytes bytes)) packed (le32At bytes 20)

/-- The Zstandard decoder accepts just the envelopes. -/
theorem decodeRaw12Zstd_iff (z : Zstd) (bytes : List UInt8) (r : Raw12Image) :
    decodeRaw12Zstd z bytes = .ok r ↔ ∃ packed, ZstdEnvelope z bytes packed ∧
      r = raw12ImageOf bytes (headerTrigger bytes) packed := by
  constructor
  · intro h
    have hdecode := h
    obtain ⟨envelope, hparse, h⟩ := Library.Checked.bind_eq_ok.1 h
    obtain ⟨⟨⟩, hcheck, -⟩ := Library.Checked.bind_eq_ok.1 h
    obtain ⟨_, ⟨⟩, haccepted, rfl⟩ := (parseRaw12Header_iff _ _ _ _).1 hparse
    have hlimit : bytes.length ≤ kProfileImageLimit := by
      unfold checkZstdHeader at hcheck
      split_ifs at hcheck with hbad
      omega
    rw [decodeRaw12Zstd_of_accepted z haccepted hlimit] at hdecode
    obtain ⟨packed, hpacked, rfl⟩ := (decompressPayload_iff z haccepted.le_length
      haccepted.image.2.2.2.2.2.2.2 haccepted.available r).1 hdecode
    exact ⟨packed, ⟨haccepted, hlimit, hpacked⟩, rfl⟩
  · rintro ⟨packed, h, rfl⟩
    rw [decodeRaw12Zstd_of_accepted z h.header h.limit]
    exact (decompressPayload_iff z h.header.le_length h.header.image.2.2.2.2.2.2.2
      h.header.available _).2 ⟨packed, h.payload, rfl⟩

end Zstandard

/-! ### Either format -/

/-- The decoder for a vector is the one of its magic, when the format allows it. -/
theorem decodeRaw12_eq (z : Zstd) (h : 4 ≤ bytes.length) (format : UInt8) :
    decodeRaw12 z bytes format =
      if (format = 0 ∨ format = kRaw12Zstd) ∧ bytes.take 4 = prz1 then decodeRaw12Zstd z bytes
      else if (format = 0 ∨ format = kRaw12Rice) ∧ bytes.take 4 = prg1 then decodeRaw12Rice bytes
      else .error (.thrown "RAW12 format/header mismatch") := by
  unfold decodeRaw12
  rw [if_neg (by omega), hasMagic_of_le h, hasMagic_of_le h]
  simp only [Library.Checked.ok_bind, decide_eq_true_eq]

/-- What `decodeRaw12` returns comes from one of the two decoders. -/
theorem decodeRaw12_iff (z : Zstd) (bytes : List UInt8) (format : UInt8) (r : Raw12Image) :
    decodeRaw12 z bytes format = .ok r ↔
      (format = 0 ∨ format = kRaw12Zstd) ∧ decodeRaw12Zstd z bytes = .ok r ∨
        (format = 0 ∨ format = kRaw12Rice) ∧ decodeRaw12Rice bytes = .ok r := by
  have hzstd : decodeRaw12Zstd z bytes = .ok r → 4 ≤ bytes.length ∧ bytes.take 4 = prz1 := by
    intro h
    obtain ⟨_, ⟨haccepted, -, -⟩, -⟩ := (decodeRaw12Zstd_iff z bytes r).1 h
    have hlength := haccepted.le_length
    exact ⟨by omega, haccepted.magic.resolve_left (of_decide_eq_false haccepted.isRice_of_zstd)⟩
  have hrice : decodeRaw12Rice bytes = .ok r → 4 ≤ bytes.length ∧ bytes.take 4 = prg1 := by
    intro h
    obtain ⟨_, henvelope, -⟩ := (decodeRaw12Rice_iff bytes r).1 h
    have hlength := henvelope.header.le_length
    exact ⟨by omega, of_decide_eq_true henvelope.header.isRice_of_rice⟩
  have hmagic : prz1 ≠ prg1 := by decide
  constructor
  · intro h
    have hlength : 4 ≤ bytes.length := by
      unfold decodeRaw12 at h
      split_ifs at h with hshort
      omega
    rw [decodeRaw12_eq z hlength] at h
    split_ifs at h with hz hr
    · exact Or.inl ⟨hz.1, h⟩
    · exact Or.inr ⟨hr.1, h⟩
  · rintro (⟨hformat, h⟩ | ⟨hformat, h⟩)
    · rw [decodeRaw12_eq z (hzstd h).1, if_pos ⟨hformat, (hzstd h).2⟩, h]
    · have hnot : ¬ ((format = 0 ∨ format = kRaw12Zstd) ∧ bytes.take 4 = prz1) := by
        rintro ⟨-, hz⟩
        exact hmagic (hz.symm.trans (hrice h).2)
      rw [decodeRaw12_eq z (hrice h).1, if_neg hnot, if_pos ⟨hformat, (hrice h).2⟩, h]

end PrismSdk.ProfileVideo
