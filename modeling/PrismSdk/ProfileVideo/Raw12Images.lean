import PrismSdk.ProfileVideo.Raw12Envelope

/-! What the RAW12 decoders promise their callers: the pixels of an image can all be read
and none lost a bit, and the parser that schedules an envelope from its header and the
decoder that later reads it agree on that header. -/

namespace PrismSdk.ProfileVideo

open Library (Checked Fault)
open Raw12Rice (sampleBytes)
open RiceBlock (written image)

theorem HeaderAccepted.geometry {bytes : List UInt8} {total : ℕ} {format : UInt8}
    (h : HeaderAccepted bytes total format) (trigger : UInt32) (packed : List UInt8) :
    (raw12ImageOf bytes trigger packed).width.toNat *
      (raw12ImageOf bytes trigger packed).height.toNat = pixels := by
  obtain ⟨-, -, -, -, -, hwidth, hheight, -⟩ := h.image
  show (le32At bytes 8).toNat * (le32At bytes 12).toNat = pixels
  rw [hwidth, hheight]
  rfl

/-- The pixels of a decoded image are packed in three bytes a pair. -/
theorem length_packed {z : Zstd} {bytes : List UInt8} {format : UInt8} {r : Raw12Image}
    (h : decodeRaw12 z bytes format = .ok r) :
    r.width.toNat * r.height.toNat = pixels ∧ r.packed.length = pixels / 2 * 3 := by
  rcases (decodeRaw12_iff z bytes format r).1 h with ⟨-, hdecode⟩ | ⟨-, hdecode⟩
  · obtain ⟨packed, henvelope, rfl⟩ := (decodeRaw12Zstd_iff z bytes r).1 hdecode
    refine ⟨henvelope.header.geometry _ _, ?_⟩
    show packed.length = _
    rw [← henvelope.payload.result, (z.decompress rawSize _).2.property]
    decide
  · obtain ⟨blocks, henvelope, rfl⟩ := (decodeRaw12Rice_iff bytes r).1 hdecode
    refine ⟨henvelope.header.geometry _ _, ?_⟩
    show (packSamples (image blocks)).length = _
    rw [length_packSamples, RiceBlock.length_image, henvelope.count]
    decide

/-- Packing loses no bit: the pixels of packed samples are the samples, the pixels of any
packed buffer pack into it again, and every pixel of a decoded image can be read and has
twelve bits. -/
theorem packing_lossless :
    (∀ samples : List ℕ, samples.length % 2 = 0 → (∀ v ∈ samples, v ≤ 4095) →
      ∃ packed, packRaw12 (samples.flatMap sampleBytes) samples.length = .ok packed ∧
        ∀ r : Raw12Image, r.packed = packed → ∀ (i : ℕ) (h : i < samples.length),
          ∃ pixel, raw12Pixel r i = .ok pixel ∧ pixel.toNat = samples[i]) ∧
      (∀ r : Raw12Image, r.packed.length % 3 = 0 → ∃ samples : List ℕ,
        samples.length = r.packed.length / 3 * 2 ∧
          (∀ (i : ℕ) (h : i < samples.length),
            ∃ pixel, raw12Pixel r i = .ok pixel ∧ pixel.toNat = samples[i]) ∧
          packRaw12 (samples.flatMap sampleBytes) samples.length = .ok r.packed) ∧
      ∀ (z : Zstd) (bytes : List UInt8) (format : UInt8) (r : Raw12Image),
        decodeRaw12 z bytes format = .ok r →
          r.packed.length = r.width.toNat * r.height.toNat * 3 / 2 ∧
            ∀ i < r.width.toNat * r.height.toNat,
              ∃ pixel, raw12Pixel r i = .ok pixel ∧ pixel.toNat ≤ 4095 := by
  refine ⟨fun samples heven hle => ?_, fun r hr => ?_, fun z bytes format r h => ?_⟩
  · refine ⟨_, packRaw12_eq heven hle, ?_⟩
    rintro r hpacked i hi
    have hunpack : unpack r.packed = samples := by rw [hpacked, unpack_packSamples heven hle]
    have hthree : r.packed.length % 3 = 0 := by
      rw [hpacked, length_packSamples]
      omega
    obtain ⟨pixel, hpixel, hvalue⟩ := exists_raw12Pixel r hthree (i := i) (by rwa [hunpack])
    refine ⟨pixel, hpixel, ?_⟩
    simp only [hunpack] at hvalue
    exact hvalue
  · have hlength := length_unpack r.packed
    refine ⟨unpack r.packed, hlength, fun i hi => exists_raw12Pixel r hr hi, ?_⟩
    rw [packRaw12_eq (by omega) (unpack_le r.packed), packSamples_unpack hr]
  · obtain ⟨hpixels, hpacked⟩ := length_packed h
    have heven : pixels % 2 = 0 := by decide
    rw [hpixels]
    refine ⟨by omega, fun i hi => ?_⟩
    have hlength := length_unpack r.packed
    have hplace : i < (unpack r.packed).length := by omega
    obtain ⟨pixel, hpixel, hvalue⟩ := exists_raw12Pixel r (by omega) hplace
    exact ⟨pixel, hpixel, by rw [hvalue]; exact unpack_le r.packed _ (List.getElem_mem hplace)⟩

/-- The decoders and the parser agree on headers. On a vector of legal size whose header
the parser accepts, none of the checks a decoder repeats fails, so that it is the payload
that decides; and what a decoder accepts, it decodes at the header the parser found. -/
theorem decoders_agree (z : Zstd) (bytes : List UInt8) :
    (∀ header, bytes.length ≤ kProfileImageLimit →
      parseRaw12Header (some bytes) bytes.length kRaw12Zstd = .ok header →
        checkZstdHeader bytes = .ok () ∧ checkTiming bytes = .ok () ∧
          checkZstdGeometry bytes = .ok () ∧
          decodeRaw12Zstd z bytes = decompressPayload z bytes header) ∧
      (∀ header, bytes.length ≤ kProfileImageLimit →
        parseRaw12Header (some bytes) bytes.length kRaw12Rice = .ok header →
          checkRiceHeader bytes = .ok () ∧ checkTiming bytes = .ok () ∧
            badGeometry bytes header = .ok false ∧
            decodeRaw12Rice bytes =
              if rawCrc32 (bytes.drop header.bytes) ≠ le32At bytes 48 then
                .error (.thrown "invalid GPU RAW12 size or encoded CRC")
              else decodePayload bytes header) ∧
      (∀ r, decodeRaw12Zstd z bytes = .ok r → ∃ header,
        parseRaw12Header (some bytes) bytes.length kRaw12Zstd = .ok header ∧
          r.triggerSequence = header.triggerSequence ∧
          decompressPayload z bytes header = .ok r) ∧
      ∀ r, decodeRaw12Rice bytes = .ok r → ∃ header,
        parseRaw12Header (some bytes) bytes.length kRaw12Rice = .ok header ∧
          r.triggerSequence = header.triggerSequence ∧ decodePayload bytes header = .ok r := by
  refine ⟨fun header hlimit hparse => ?_, fun header hlimit hparse => ?_, fun r h => ?_,
    fun r h => ?_⟩
  · obtain ⟨_, ⟨⟩, haccepted, rfl⟩ := (parseRaw12Header_iff _ _ _ _).1 hparse
    exact ⟨checkZstdHeader_of_accepted haccepted hlimit, checkTiming_of_accepted haccepted,
      checkZstdGeometry_of_accepted haccepted, decodeRaw12Zstd_of_accepted z haccepted hlimit⟩
  · obtain ⟨_, ⟨⟩, haccepted, rfl⟩ := (parseRaw12Header_iff _ _ _ _).1 hparse
    exact ⟨checkRiceHeader_of_accepted haccepted hlimit, checkTiming_of_accepted haccepted,
      badGeometry_of_accepted haccepted, decodeRaw12Rice_of_accepted haccepted hlimit⟩
  · obtain ⟨packed, ⟨haccepted, hlimit, -⟩, rfl⟩ := (decodeRaw12Zstd_iff z bytes r).1 h
    rw [decodeRaw12Zstd_of_accepted z haccepted hlimit] at h
    exact ⟨_, haccepted.parse, rfl, h⟩
  · obtain ⟨blocks, henvelope, rfl⟩ := (decodeRaw12Rice_iff bytes r).1 h
    rw [decodeRaw12Rice_of_accepted henvelope.header henvelope.limit,
      if_neg (not_not.2 henvelope.encodedCrc)] at h
    exact ⟨_, henvelope.header.parse, rfl, h⟩

end PrismSdk.ProfileVideo
