import PrismSdk.ProfileVideo.HeaderErrors
import PrismSdk.ProfileVideo.Raw12Encode

/-! Which errors in the payload of a Rice envelope the encoded checksum detects: every
burst of 32 bits and every pair of bits, the payload being smaller than the order of
`X`. -/

namespace PrismSdk.ProfileVideo

open Library (Checked Fault)
open Library.Crc (errors errors_self burst_or_pair_drop)
open RiceBlock (written image)

theorem rawCrc32_ne {xs ys : List UInt8} (hlen : xs.length = ys.length) (hsize : xs.length < 2 ^ 29)
    (hne : xs ≠ ys) (h : (∃ start, errors xs ys ⊆ Finset.Ico start (start + 32)) ∨
      (errors xs ys).card = 2) : rawCrc32 xs ≠ rawCrc32 ys := by
  intro heq
  have hcrc := congrArg UInt32.toBitVec heq
  rw [rawCrc32, rawCrc32, UInt32.toBitVec_not, UInt32.toBitVec_not, toBitVec_rawCrc32Loop,
    toBitVec_rawCrc32Loop] at hcrc
  exact feedAll_ne hlen hsize hne h (BitVec.not_inj.1 hcrc)

/-- A vector that differs from an accepted one in the payload, within 32 consecutive bits
or in two bits anywhere, is refused. -/
theorem payload_errors_refused (bytes other : List UInt8) (r : Raw12Image) (header : Raw12Header)
    (haccepted : decodeRaw12Rice bytes = .ok r)
    (hparse : parseRaw12Header (some bytes) bytes.length kRaw12Rice = .ok header)
    (hlen : other.length = bytes.length)
    (hheader : other.take header.bytes = bytes.take header.bytes)
    (herrors : other ≠ bytes ∧ (∃ start, errors bytes other ⊆ Finset.Ico start (start + 32)) ∨
      (errors bytes other).card = 2) :
    ∃ what, decodeRaw12Rice other = .error (.thrown what) := by
  obtain ⟨_, ⟨⟩, hbytes, rfl⟩ := (parseRaw12Header_iff _ _ _ _).1 hparse
  obtain ⟨blocks, henvelope, -⟩ := (decodeRaw12Rice_iff bytes r).1 haccepted
  have hlegacy : legacyBytes bytes = 64 := if_pos hbytes.isRice_of_rice
  have hle := le_headerBytes bytes
  have havailable := hbytes.available
  have hlimit := henvelope.limit
  have hother : HeaderAccepted other other.length kRaw12Rice := by
    rw [hlen]
    exact hbytes.of_take_eq (by rw [hlen]; exact havailable) hheader
  have hsame : headerBytes other = headerBytes bytes :=
    headerBytes_of_take_eq hheader (show 4 < headerBytes bytes by omega)
  have hstored : le32At other 48 = le32At bytes 48 :=
    le32At_of_take_eq hheader (show 48 + 4 ≤ headerBytes bytes by omega)
  have hne : bytes.drop (headerBytes bytes) ≠ other.drop (headerBytes bytes) := by
    intro hdrop
    have hequal : other = bytes := by
      rw [← List.take_append_drop (headerBytes bytes) other, hheader, ← hdrop,
        List.take_append_drop]
    rcases herrors with ⟨hother, -⟩ | htwo
    · exact hother hequal
    · rw [hequal, errors_self, Finset.card_empty] at htwo
      cases htwo
  have hcrc : rawCrc32 (bytes.drop (headerBytes bytes)) ≠
      rawCrc32 (other.drop (headerBytes bytes)) := by
    apply rawCrc32_ne _ _ hne
    · exact burst_or_pair_drop havailable hheader (herrors.imp_left And.right)
    · rw [List.length_drop, List.length_drop, hlen]
    · have hmax : kProfileImageLimit < 2 ^ 29 := by decide
      rw [List.length_drop]
      omega
  refine ⟨"invalid GPU RAW12 size or encoded CRC", ?_⟩
  rw [decodeRaw12Rice_of_accepted hother (by rw [hlen]; exact hlimit), hsame, hstored, if_pos]
  rw [← henvelope.encodedCrc]
  exact hcrc.symm

/-- The first byte of the payload of a black image, its mode 0 changed to 1. -/
theorem blank_errors_refused :
    ∃ what, decodeRaw12Rice ((encodeRaw12Rice blankBlocks).set 64 1) = .error (.thrown what) := by
  have henvelope := riceEnvelope_encode length_blankBlocks
  have hpos : 64 < (encodeRaw12Rice blankBlocks).length := henvelope.header.payload
  have hfirst : (encodeRaw12Rice blankBlocks).getD 64 0 = 0 := by
    rw [encodeRaw12Rice, List.getD_append_right _ _ _ _ (length_riceHeader _ _ _).le,
      length_riceHeader, Nat.sub_self, blankBlocks, show pixels / 256 = 61439 + 1 by decide,
      List.replicate_succ]
    rfl
  have herrors : errors (encodeRaw12Rice blankBlocks) ((encodeRaw12Rice blankBlocks).set 64 1) =
      {512} := by
    rw [Library.Crc.errors_set hpos, hfirst]
    decide
  apply payload_errors_refused (encodeRaw12Rice blankBlocks) _ _ ⟨64, 0⟩
    (decodeRaw12Rice_encode length_blankBlocks) henvelope.header.parse List.length_set
  · exact List.take_set_of_le le_rfl
  · refine Or.inl ⟨fun hsame => ?_, 512, ?_⟩
    · have hbyte := congrArg (·.getD 64 0) hsame
      simp only [List.getD_eq_getElem?_getD] at hbyte hfirst
      rw [List.getElem?_set_self hpos, hfirst] at hbyte
      cases hbyte
    · rw [herrors]
      decide

end PrismSdk.ProfileVideo
