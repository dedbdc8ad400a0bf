import PrismSdk.ProfileVideo.Raw12Packing

/-! The loop over the blocks of `decodeRaw12Rice`. It accepts exactly the bytes that
start with blocks standing one after another, and fills the buffer with their samples. -/

namespace PrismSdk.ProfileVideo

open Library (Checked Fault)
open Raw12Rice (LegalMode Encodable encodeBlock decodeBlock putSamples sampleBytes)

/-- A block: samples in a mode that can code them. -/
structure RiceBlock where
  mode : ℕ
  samples : List ℕ
  legal : LegalMode mode
  encodable : Encodable mode samples

namespace RiceBlock

def bytes (block : RiceBlock) : List UInt8 := encodeBlock block.mode block.samples

/-- Blocks one after another. -/
def written (blocks : List RiceBlock) : List UInt8 := blocks.flatMap bytes

def image (blocks : List RiceBlock) : List ℕ := blocks.flatMap samples

theorem length_image (blocks : List RiceBlock) : (image blocks).length = 256 * blocks.length := by
  induction blocks with
  | nil => rfl
  | cons block blocks ih =>
    have hlen := block.encodable.length
    rw [image, List.flatMap_cons, List.length_append, hlen, List.length_cons]
    rw [image] at ih
    omega

theorem image_le (blocks : List RiceBlock) : ∀ v ∈ image blocks, v ≤ 4095 := by
  intro v hv
  obtain ⟨block, -, hv⟩ := List.mem_flatMap.1 hv
  exact block.encodable.le v hv

theorem bytes_ne_nil (block : RiceBlock) : block.bytes ≠ [] := List.cons_ne_nil _ _

end RiceBlock

open RiceBlock (written image)

theorem written_append (blocks rest : List RiceBlock) :
    written (blocks ++ rest) = written blocks ++ written rest := List.flatMap_append

theorem written_singleton (block : RiceBlock) : written [block] = block.bytes :=
  List.flatMap_singleton _ _

theorem image_append (blocks rest : List RiceBlock) :
    image (blocks ++ rest) = image blocks ++ image rest := List.flatMap_append

theorem image_singleton (block : RiceBlock) : image [block] = block.samples :=
  List.flatMap_singleton _ _

/-- The buffer before the loop. -/
theorem length_zeros (n : ℕ) : (List.replicate (n * 2) (0 : UInt8)).length = 2 * n := by
  rw [List.length_replicate, Nat.mul_comm]

theorem decodeBlocks_zero (bytes : List UInt8) (header : ℕ) :
    decodeBlocks bytes header 0 = .ok (header, List.replicate (pixels * 2) 0) := rfl

theorem decodeBlocks_succ (bytes : List UInt8) (header n : ℕ) : decodeBlocks bytes header (n + 1) =
    decodeBlocks bytes header n >>= fun s => decodeBlock bytes s.1 (256 * n) s.2 := by
  unfold decodeBlocks
  rw [List.range'_concat, List.foldlM_append]
  simp

/-- The samples of one more block. -/
theorem putSamples_concat (blocks : List RiceBlock) (block : RiceBlock)
    (hlt : blocks.length < pixels / 256) :
    putSamples (putSamples (List.replicate (pixels * 2) 0) 0 (image blocks)) (256 * blocks.length)
        block.samples =
      putSamples (List.replicate (pixels * 2) 0) 0 (image (blocks ++ [block])) := by
  have hsamples := block.encodable.length
  have hblocks := RiceBlock.length_image blocks
  rw [image_append, image_singleton, ← Raw12Rice.putSamples_append, Nat.zero_add, hblocks]
  rw [length_zeros]
  omega

/-- There is room for one more block. -/
theorem room_of_blocks (blocks : List RiceBlock) (hlt : blocks.length < pixels / 256) :
    2 * (256 * blocks.length + 256) ≤
      (putSamples (List.replicate (pixels * 2) (0 : UInt8)) 0 (image blocks)).length := by
  have hblocks := RiceBlock.length_image blocks
  rw [Raw12Rice.length_putSamples] <;> rw [length_zeros] <;> omega

/-- The loop over `n` blocks accepts just the bytes that start with `n` blocks. -/
theorem decodeBlocks_iff {bytes : List UInt8} {header n : ℕ} (hn : n ≤ pixels / 256) (position : ℕ)
    (u16 : List UInt8) : decodeBlocks bytes header n = .ok (position, u16) ↔
      ∃ blocks : List RiceBlock, blocks.length = n ∧ written blocks <+: bytes.drop header ∧
        position = header + (written blocks).length ∧
        u16 = putSamples (List.replicate (pixels * 2) 0) 0 (image blocks) := by
  induction n generalizing position u16 with
  | zero =>
    rw [decodeBlocks_zero]
    constructor
    · rintro ⟨⟩
      exact ⟨[], rfl, List.nil_prefix, rfl, (Raw12Rice.putSamples_nil _ _).symm⟩
    · rintro ⟨blocks, hlen, -, rfl, rfl⟩
      obtain rfl := List.eq_nil_of_length_eq_zero hlen
      rw [show image [] = [] from rfl, Raw12Rice.putSamples_nil]
      rfl
  | succ n ih =>
    rw [decodeBlocks_succ, Library.Checked.bind_eq_ok]
    constructor
    · rintro ⟨⟨middle, u⟩, hfirst, hlast⟩
      obtain ⟨blocks, rfl, ⟨post, hpost⟩, rfl, rfl⟩ := (ih (by omega) middle u).1 hfirst
      obtain ⟨mode, samples, hmode, hsamples, ⟨post', hpost'⟩, rfl, rfl⟩ :=
        (Raw12Rice.decodeBlock_iff (room_of_blocks blocks hn) _ _).1 hlast
      let block : RiceBlock := ⟨mode, samples, hmode, hsamples⟩
      rw [← List.drop_drop, ← hpost, List.drop_left] at hpost'
      refine ⟨blocks ++ [block], List.length_append, ⟨post', ?_⟩, ?_,
        putSamples_concat blocks block hn⟩
      · rw [written_append, written_singleton, ← hpost, ← hpost', List.append_assoc]
        rfl
      · rw [written_append, written_singleton, List.length_append, ← Nat.add_assoc]
        rfl
    · rintro ⟨blocks, hlen, ⟨post, hpost⟩, rfl, rfl⟩
      obtain ⟨before, block, rfl⟩ : ∃ before block, blocks = before ++ [block] := by
        refine (List.eq_nil_or_concat' blocks).resolve_left ?_
        rintro rfl
        cases hlen
      rw [List.length_append, List.length_singleton, Nat.add_right_cancel_iff] at hlen
      subst hlen
      rw [written_append, written_singleton, List.append_assoc] at hpost
      refine ⟨(header + (written before).length, _), (ih (by omega) _ _).2
        ⟨before, rfl, ⟨block.bytes ++ post, hpost⟩, rfl, rfl⟩, ?_⟩
      rw [Raw12Rice.decodeBlock_iff (room_of_blocks before hn)]
      refine ⟨block.mode, block.samples, block.legal, block.encodable, ⟨post, ?_⟩, ?_,
        (putSamples_concat before block hn).symm⟩
      · rw [← List.drop_drop, ← hpost, List.drop_left]
        rfl
      · rw [written_append, written_singleton, List.length_append, ← Nat.add_assoc]
        rfl

/-- After all blocks, the buffer holds their samples alone. -/
theorem putSamples_all {blocks : List RiceBlock} (h : blocks.length = pixels / 256) :
    putSamples (List.replicate (pixels * 2) 0) 0 (image blocks) =
      (image blocks).flatMap sampleBytes := by
  have hlen := RiceBlock.length_image blocks
  have hpixels : 256 * (pixels / 256) = pixels := by decide
  have hrest : (List.replicate (pixels * 2) (0 : UInt8)).drop
      (2 * (0 + (image blocks).length)) = [] := by
    apply List.drop_of_length_le
    rw [length_zeros]
    omega
  rw [putSamples, hrest]
  simp

end PrismSdk.ProfileVideo
