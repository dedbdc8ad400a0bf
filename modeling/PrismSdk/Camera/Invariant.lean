import PrismSdk.Camera.Moves

/-! The invariant of the assembler. Slot by slot: an image under way holds as many
bytes as it counts, fewer than its size; the ready cameras of a set are those
with bytes; and a frame with all it needs never waits. -/

namespace PrismSdk.Camera

open Std (ExtTreeMap ExtTreeSet)
open Library.RecentMemory

/-- The limit of `ingest` on `encoded_size`: 8 MiB. -/
def jpegLimit : ℕ := 8 * 1024 * 1024

namespace Assembler

/-- What the checks of a chunk alone establish. -/
theorem not_invalidChunk_iff (chunk : VideoChunkView) :
    ¬ InvalidChunk chunk ↔ chunk.cameraId.toNat < 4 ∧ 0 < chunk.bytes.length ∧
      chunk.bytes.length = chunk.chunkSize.toNat ∧
      chunk.chunkOffset.toNat + chunk.bytes.length ≤ chunk.encodedSize.toNat ∧
      chunk.encodedSize.toNat ≤ jpegLimit := by
  have hoff : chunk.chunkOffset > 0xffffffff - chunk.chunkSize ↔
      2 ^ 32 ≤ chunk.chunkOffset.toNat + chunk.chunkSize.toNat := by
    have := chunk.chunkSize.toNat_lt
    rw [gt_iff_lt, UInt32.lt_iff_toNat_lt, UInt32.toNat_sub_of_le _ _
      (by rw [UInt32.le_iff_toNat_le]; simp; omega)]
    simp only [UInt32.reduceToNat]
    omega
  have hadd : (chunk.chunkOffset + chunk.chunkSize).toNat =
      (chunk.chunkOffset.toNat + chunk.chunkSize.toNat) % 2 ^ 32 := UInt32.toNat_add _ _
  have hsize : chunk.dataSize = chunk.bytes.length := rfl
  have hdata : chunk.data = none → chunk.bytes.length = 0 := by
    intro h
    simp [VideoChunkView.bytes, h]
  simp only [InvalidChunk, not_or, hoff, hsize, kCameraCount, gt_iff_lt, ge_iff_le,
    UInt32.lt_iff_toNat_lt, hadd, ← UInt32.toNat_inj, jpegLimit]
  simp only [UInt32.reduceToNat, UInt32.reduceMul]
  constructor
  · rintro ⟨h1, h2, h3, h4, -, h6, h7, h8⟩
    omega
  · rintro ⟨h1, h2, h3, h4, h5⟩
    refine ⟨by omega, by omega, by omega, by omega, fun h => ?_, by omega, by omega, by omega⟩
    have := hdata h
    omega

end Assembler

/-- The bookkeeping of an image under way. -/
structure ImageBuffer.Inv (image : ImageBuffer) : Prop where
  nonempty : 0 < image.jpeg.length
  received : image.received.toNat = image.jpeg.length
  lt_size : image.jpeg.length < image.encodedSize.toNat
  size_le : image.encodedSize.toNat ≤ jpegLimit

/-- The bookkeeping of a frame's set. -/
structure PartialFrameSet.Inv (frame : PartialFrameSet) : Prop where
  ready_lt : frame.readyMask < 16
  invalid_lt : frame.invalidMask < 16
  ready_iff : ∀ c, hasCamera frame.readyMask c = true ↔ frame.jpeg c ≠ []
  disjoint : ∀ c, hasCamera frame.invalidMask c = true → hasCamera frame.readyMask c = false

namespace PartialFrameSet

theorem inv_empty : PartialFrameSet.Inv {} where
  ready_lt := by decide
  invalid_lt := by decide
  ready_iff := by simp
  disjoint := by simp

theorem Inv.reject {frame : PartialFrameSet} (h : frame.Inv) (c : Fin 4) : (frame.reject c).Inv where
  ready_lt := and_not_bit_lt _ c h.ready_lt
  invalid_lt := or_bit_lt _ c h.invalid_lt
  ready_iff d := by
    by_cases hd : c = d
    · subst hd; simp [PartialFrameSet.reject]
    · simp [PartialFrameSet.reject, hd, Ne.symm hd, h.ready_iff d]
  disjoint d := by
    simp only [PartialFrameSet.reject, hasCamera_or_bit, hasCamera_and_not_bit, Bool.or_eq_true,
      decide_eq_true_eq]
    rintro (hd | rfl)
    · simp [h.disjoint d hd]
    · simp

theorem Inv.store {frame : PartialFrameSet} (h : frame.Inv) {c : Fin 4} {image : ImageBuffer}
    (hi : hasCamera frame.invalidMask c = false) (himage : image.jpeg ≠ []) :
    (frame.store c image).Inv where
  ready_lt := or_bit_lt _ c h.ready_lt
  invalid_lt := h.invalid_lt
  ready_iff d := by
    by_cases hd : c = d
    · subst hd; simp [PartialFrameSet.store, himage]
    · simp [PartialFrameSet.store, hd, Ne.symm hd, h.ready_iff d]
  disjoint d hd := by
    have hne : c ≠ d := by
      rintro rfl
      simp only [PartialFrameSet.store] at hd
      rw [hi] at hd
      cases hd
    simpa [PartialFrameSet.store, hne] using h.disjoint d hd

end PartialFrameSet

namespace Slot

/-- The frame has all it needs. -/
def Ready (t : Slot) : Prop :=
  ∃ frameSet metadata, t.frameSet = some frameSet ∧ t.metadata = some metadata ∧
    Assembler.IsComplete frameSet metadata

theorem completed_eq_none {t : Slot} {f : UInt32} : t.completed f = none ↔ ¬ t.Ready := by
  rw [Option.eq_none_iff_forall_not_mem]
  constructor
  · rintro h ⟨frameSet, metadata, hp, hm, hc⟩
    exact h _ (completed_eq_some.2 ⟨frameSet, metadata, hp, hm, hc, rfl⟩)
  · rintro h set hset
    obtain ⟨frameSet, metadata, hp, hm, hc, -⟩ := completed_eq_some.1 hset
    exact h ⟨frameSet, metadata, hp, hm, hc⟩

/-- The invariant of one frame. -/
structure Inv (t : Slot) : Prop where
  tracked : t.started = none → t.frameSet = none ∧ t.metadata = none
  camera_lt : ∀ camera, t.image camera ≠ none → camera.toNat < 4
  image : ∀ camera, ∀ image ∈ t.image camera, image.Inv
  frameSet : ∀ frame ∈ t.frameSet, frame.Inv
  rejected : ∀ camera (h : camera.toNat < 4),
    t.isInvalid ⟨camera.toNat, h⟩ = true → t.image camera = none
  waiting : ¬ t.Ready

theorem inv_empty : Inv {} where
  tracked _ := ⟨rfl, rfl⟩
  camera_lt _ h := absurd rfl h
  image _ _ h := by cases h
  frameSet _ h := by cases h
  rejected _ _ _ := rfl
  waiting := by
    rintro ⟨_, _, h, -⟩
    cases h

variable {t : Slot}

theorem Inv.getD_frameSet (h : t.Inv) : (t.frameSet.getD {}).Inv := by
  cases hf : t.frameSet with
  | none => exact PartialFrameSet.inv_empty
  | some frame => exact h.frameSet frame hf

theorem Inv.resized (h : t.Inv) (chunk : VideoChunkView) : (t.resized chunk).Inv :=
  have hp := h.getD_frameSet
  ⟨hp.ready_lt, hp.invalid_lt, hp.ready_iff, hp.disjoint⟩

theorem Inv.enter (h : t.Inv) (now : TimePoint) : (t.enter now).Inv where
  tracked h' := by cases h'
  camera_lt := h.camera_lt
  image := h.image
  frameSet := h.frameSet
  rejected := h.rejected
  waiting := h.waiting

/-- A frame with a rejected camera is not complete. -/
theorem not_ready_of_isInvalid {c : Fin 4} (h : t.isInvalid c = true) : ¬ t.Ready := by
  rintro ⟨frame, metadata, hp, -, -, -, h0⟩
  simp [isInvalid, hp, h0] at h

theorem isInvalid_reject {camera : UInt8} (hc : camera.toNat < 4) (c : Fin 4) :
    (t.reject camera).isInvalid c = (t.isInvalid c || decide (camera.toNat = c.val)) := by
  rw [isInvalid_eq, isInvalid_eq]
  simp [Slot.reject, hc, PartialFrameSet.reject, Fin.ext_iff]

theorem Inv.reject (h : t.Inv) (hs : t.started ≠ none) {camera : UInt8}
    (hc : camera.toNat < 4) : (t.reject camera).Inv := by
  have hinv : (t.reject camera).isInvalid ⟨camera.toNat, hc⟩ = true := by
    simp [isInvalid_reject hc]
  have hframe : ((t.frameSet.getD {}).reject ⟨camera.toNat, hc⟩).Inv := h.getD_frameSet.reject _
  have hreject : t.reject camera = { t with
      frameSet := some ((t.frameSet.getD {}).reject ⟨camera.toNat, hc⟩)
      image := Function.update t.image camera none } := dif_pos hc
  refine ⟨?_, ?_, ?_, ?_, ?_, not_ready_of_isInvalid hinv⟩
  · intro h'
    rw [hreject] at h'
    exact absurd h' hs
  · intro d hd
    rw [hreject] at hd
    by_cases hdc : d = camera
    · exact hdc ▸ hc
    · exact h.camera_lt d (by simpa [hdc] using hd)
  · intro d image himage
    rw [hreject] at himage
    by_cases hdc : d = camera
    · subst hdc; simp at himage
    · exact h.image d image (by simpa [hdc] using himage)
  · intro frame hf
    rw [hreject] at hf
    obtain rfl := Option.some.inj hf
    exact hframe
  · intro d hd hi
    rw [hreject]
    by_cases hdc : d = camera
    · subst hdc; simp
    · rw [isInvalid_reject hc] at hi
      have hne : camera.toNat ≠ d.toNat := fun he => hdc (UInt8.toNat_inj.1 he).symm
      simpa [hdc] using h.rejected d hd (by simpa [hne] using hi)

theorem Inv.reject_enter (h : t.Inv) (now : TimePoint) (camera : UInt8) :
    ((t.enter now).reject camera).Inv := by
  by_cases hc : camera.toNat < 4
  · exact (h.enter now).reject (Option.some_ne_none _) hc
  · rw [Slot.reject, dif_neg hc]
    exact h.enter now

/-- A new width and height do not complete a frame. -/
theorem Inv.resize (h : t.Inv) (now : TimePoint) (chunk : VideoChunkView) :
    Inv { t with started := some now, frameSet := some (t.resized chunk) } where
  tracked h' := by cases h'
  camera_lt := h.camera_lt
  image := h.image
  frameSet frame hf := by
    obtain rfl := Option.some.inj hf
    exact h.resized chunk
  rejected d hd hi := h.rejected d hd (by rw [isInvalid_eq] at hi ⊢; exact hi)
  waiting := by
    rintro ⟨frame, metadata, hp, hm, hc⟩
    obtain rfl := Option.some.inj hp
    cases hf : t.frameSet with
    | none => exact hc.1 (by rw [← hc.2.1]; simp [Slot.resized, hf])
    | some frame =>
      refine h.waiting ⟨frame, metadata, hf, hm, hc.1, ?_, ?_⟩
      · rw [← hc.2.1]; simp [Slot.resized, hf]
      · rw [← hc.2.2]; simp [Slot.resized, hf]

/-! ### Images -/

theorem opened_of_none {chunk : VideoChunkView} (h : t.image chunk.cameraId = none) :
    t.opened chunk =
      { jpeg := [], received := 0, encodedSize := chunk.encodedSize
        timestampUs := chunk.timestampUs } := by
  simp [opened, h, ImageBuffer.start]

theorem opened_of_some {chunk : VideoChunkView} {image : ImageBuffer}
    (h : t.image chunk.cameraId = some image) (hi : image.Inv) : t.opened chunk = image := by
  have hne : image.received ≠ 0 := by
    intro h0
    have := hi.received
    have := hi.nonempty
    simp [h0] at *
    omega
  simp [opened, h, ImageBuffer.start, hne]

/-- The bytes of the image under way, none when there is none. -/
def received (t : Slot) (camera : UInt8) : List UInt8 := (t.image camera).elim [] (·.jpeg)

theorem opened_jpeg (ht : t.Inv) (chunk : VideoChunkView) :
    (t.opened chunk).jpeg = t.received chunk.cameraId := by
  cases h : t.image chunk.cameraId with
  | none => simp [opened_of_none h, received, h]
  | some image => simp [opened_of_some h (ht.image _ image h), received, h]

theorem opened_received (ht : t.Inv) (chunk : VideoChunkView) :
    (t.opened chunk).received.toNat = (t.opened chunk).jpeg.length := by
  cases h : t.image chunk.cameraId with
  | none => simp [opened_of_none h]
  | some image =>
    rw [opened_of_some h (ht.image _ image h)]
    exact (ht.image _ image h).received

/-- A chunk that continues the image keeps the byte count, and the image is the
size it declares or shorter. -/
theorem append_spec (ht : t.Inv) {chunk : VideoChunkView} (h : ¬ Assembler.InvalidChunk chunk)
    (hc : t.Continues chunk) :
    ((t.opened chunk).append chunk).jpeg = t.received chunk.cameraId ++ chunk.bytes ∧
      ((t.opened chunk).append chunk).received.toNat =
        ((t.opened chunk).append chunk).jpeg.length ∧
      ((t.opened chunk).append chunk).jpeg.length ≤ chunk.encodedSize.toNat ∧
      0 < ((t.opened chunk).append chunk).jpeg.length := by
  obtain ⟨-, h2, h3, h4, h5⟩ := (Assembler.not_invalidChunk_iff chunk).1 h
  have hrec := opened_received ht chunk
  have hoff : chunk.chunkOffset.toNat = (t.opened chunk).received.toNat := by rw [hc.2.2]
  have hadd : ((t.opened chunk).received + chunk.chunkSize).toNat =
      ((t.opened chunk).received.toNat + chunk.chunkSize.toNat) % 2 ^ 32 := UInt32.toNat_add _ _
  have hlt := chunk.encodedSize.toNat_lt
  simp only [ImageBuffer.append, opened_jpeg ht, List.length_append, hadd]
  rw [opened_jpeg ht] at hrec
  exact ⟨trivial, by omega, by omega, by omega⟩

/-- The image is whole exactly when it is not shorter than its size. -/
theorem append_whole (ht : t.Inv) {chunk : VideoChunkView} (h : ¬ Assembler.InvalidChunk chunk)
    (hc : t.Continues chunk)
    (hge : ¬ ((t.opened chunk).append chunk).received < chunk.encodedSize) :
    ((t.opened chunk).append chunk).jpeg.length = chunk.encodedSize.toNat := by
  obtain ⟨-, hrec, hle, -⟩ := append_spec ht h hc
  rw [UInt32.lt_iff_toNat_lt, hrec] at hge
  omega

theorem Inv.stored_frameSet (ht : t.Inv) {chunk : VideoChunkView}
    (h : ¬ Assembler.InvalidChunk chunk) (hi : t.isInvalid (chunkCamera chunk h) = false)
    (hc : t.Continues chunk) (appended : TimePoint) :
    ∀ frame ∈ (t.stored chunk (chunkCamera chunk h) appended).frameSet, frame.Inv := by
  intro frame hf
  obtain rfl := Option.some.inj hf
  refine (ht.resized chunk).store ?_ (List.ne_nil_of_length_pos (append_spec ht h hc).2.2.2)
  rw [isInvalid_eq] at hi
  exact hi

theorem Inv.stored (ht : t.Inv) {chunk : VideoChunkView} (h : ¬ Assembler.InvalidChunk chunk)
    (hi : t.isInvalid (chunkCamera chunk h) = false) (hc : t.Continues chunk)
    (appended : TimePoint)
    (hw : ¬ (t.stored chunk (chunkCamera chunk h) appended).Ready) :
    (t.stored chunk (chunkCamera chunk h) appended).Inv where
  tracked h' := by cases h'
  camera_lt d hd := by
    by_cases hdc : d = chunk.cameraId
    · exact hdc ▸ (chunkCamera chunk h).isLt
    · exact ht.camera_lt d (by simpa [Slot.stored, hdc] using hd)
  image d image himage := by
    by_cases hdc : d = chunk.cameraId
    · subst hdc; simp [Slot.stored] at himage
    · exact ht.image d image (by simpa [Slot.stored, hdc] using himage)
  frameSet := ht.stored_frameSet h hi hc appended
  rejected d hd hi' := by
    by_cases hdc : d = chunk.cameraId
    · subst hdc; simp [Slot.stored]
    · have : t.isInvalid ⟨d.toNat, hd⟩ = true := by
        rw [isInvalid_eq] at hi' ⊢
        exact hi'
      simpa [Slot.stored, hdc] using ht.rejected d hd this
  waiting := hw

/-- A completed slot holds no more than images under way. -/
theorem Inv.taken (ht : ∀ camera, t.image camera ≠ none → camera.toNat < 4)
    (hi : ∀ camera, ∀ image ∈ t.image camera, image.Inv) : t.taken.Inv where
  tracked _ := ⟨rfl, rfl⟩
  camera_lt := ht
  image := hi
  frameSet _ h := by cases h
  rejected d hd h := by simp [Slot.taken, isInvalid] at h
  waiting := by
    rintro ⟨_, _, h, -⟩
    cases h

/-- An admitted chunk keeps the invariant of its frame. -/
theorem Ingested.inv {chunk : VideoChunkView} {entered appended : TimePoint} {t' : Slot}
    {done : Option CameraFrameSet} (hm : Ingested chunk entered appended t t' done)
    (ht : t.Inv) : t'.Inv := by
  cases hm with
  | invalid h => exact ht.reject_enter entered chunk.cameraId
  | ignored h hi => exact ht.enter entered
  | discontinuous h hi hc => exact ht.reject_enter entered chunk.cameraId
  | extended h hi hc hlt =>
    obtain ⟨-, hrec, hle, hpos⟩ := append_spec ht h hc
    rw [UInt32.lt_iff_toNat_lt, hrec] at hlt
    have hsize : ((t.opened chunk).append chunk).encodedSize = chunk.encodedSize := hc.1
    refine ⟨(by intro h'; cases h'), fun d hd => ?_, fun d image himage => ?_, ht.frameSet,
      fun d hd hi' => ?_, ht.waiting⟩
    · by_cases hdc : d = chunk.cameraId
      · exact hdc ▸ (chunkCamera chunk h).isLt
      · exact ht.camera_lt d (by simpa [hdc] using hd)
    · by_cases hdc : d = chunk.cameraId
      · subst hdc
        obtain rfl : (t.opened chunk).append chunk = image := by simpa using himage
        exact ⟨hpos, hrec, by rw [hsize]; exact hlt,
          by rw [hsize]; exact ((Assembler.not_invalidChunk_iff chunk).1 h).2.2.2.2⟩
      · exact ht.image d image (by simpa [hdc] using himage)
    · by_cases hdc : d = chunk.cameraId
      · subst hdc
        rw [show (⟨chunk.cameraId.toNat, hd⟩ : Fin 4) = chunkCamera chunk h from rfl] at hi'
        rw [isInvalid_eq] at hi hi'
        rw [hi] at hi'
        cases hi'
      · simpa [hdc] using ht.rejected d hd hi'
  | repeated h hi hc hge hr =>
    exact (ht.resize appended chunk).reject (Option.some_ne_none _) (chunkCamera chunk h).isLt
  | stored h hi hc hge hr hlen hn => exact ht.stored h hi hc appended (completed_eq_none.1 hn)
  | finished h hi hc hge hr hlen set hn =>
    refine Inv.taken (fun d hd => ?_) (fun d image himage => ?_)
    · by_cases hdc : d = chunk.cameraId
      · exact hdc ▸ (chunkCamera chunk h).isLt
      · exact ht.camera_lt d (by simpa [Slot.stored, hdc] using hd)
    · by_cases hdc : d = chunk.cameraId
      · subst hdc; simp [Slot.stored] at himage
      · exact ht.image d image (by simpa [Slot.stored, hdc] using himage)

theorem Inv.described (ht : t.Inv) {metadata : VideoMeta} {now : TimePoint} {f : UInt32}
    (hn : (t.described metadata now).completed f = none) {stored : Option VideoMeta}
    (hstored : stored = some metadata ∨ stored = none) :
    Inv { t.described metadata now with metadata := stored } where
  tracked h' := by cases h'
  camera_lt := ht.camera_lt
  image := ht.image
  frameSet := ht.frameSet
  rejected := ht.rejected
  waiting := by
    rcases hstored with rfl | rfl
    · exact completed_eq_none.1 hn
    · rintro ⟨_, _, -, h, -⟩
      cases h

theorem Inv.evicted (ht : t.Inv) : Inv { t with metadata := none } where
  tracked h' := ⟨(ht.tracked h').1, rfl⟩
  camera_lt := ht.camera_lt
  image := ht.image
  frameSet := ht.frameSet
  rejected := ht.rejected
  waiting := by
    rintro ⟨_, _, -, h, -⟩
    cases h

end Slot

namespace Assembler

theorem Move.inv {s : Assembler} {call : Call} {g : UInt32} {t' : Slot}
    {sets : List CameraFrameSet} {rep : Bool} (hm : Move s call g t' sets rep)
    (ht : (s.slot g).Inv) : t'.Inv := by
  cases hm with
  | keep => exact ht
  | discarded => exact Slot.inv_empty
  | ingested _ _ _ _ _ _ _ _ hmove => exact hmove.inv ht
  | described _ _ _ _ _ hn _ hstored => exact ht.described hn hstored
  | finished => exact Slot.Inv.taken ht.camera_lt ht.image
  | evicted => exact ht.evicted
  | cleared => exact Slot.inv_empty

/-- The slot holds images, whole or under way. -/
def Imaged (t : Slot) : Prop := t.frameSet ≠ none ∨ ∃ camera, t.image camera ≠ none

/-- The invariant of the assembler: every slot is sound, only the newest frame has
images, settled frames are not tracked, and the history and the metadata are bounded. -/
structure Inv (s : Assembler) : Prop where
  slot : ∀ f, (s.slot f).Inv
  newest : ∀ f, Imaged (s.slot f) → s.newestFrameId = some f
  history : s.SettledInv
  settled : ∀ f ∈ s.settledFrameOrder, (s.slot f).started = none
  metadata : s.metadataByFrame.size ≤ 16

theorem inv_init : Inv assembler.init where
  slot f := by
    have : assembler.init.slot f = {} := by ext <;> simp [assembler, Assembler.slot]
    rw [this]
    exact Slot.inv_empty
  newest f h := by simp [Imaged, assembler, Assembler.slot] at h
  history := ⟨by simp [assembler], by simp [assembler], by simp [assembler, kSettledFrameHistory]⟩
  settled f h := by simp [assembler] at h
  metadata := by simp [assembler]

/-! ### Steps -/

/-- Settled frames are not tracked. -/
def Quiet (s : Assembler) : Prop := ∀ f ∈ s.settledFrameOrder, (s.slot f).started = none

theorem metadata_discardFrames (s : Assembler) (ids : List UInt32) (result : CameraChunkResult)
    (reason : String) :
    (s.discardFrames ids result reason).1.metadataByFrame.size ≤ s.metadataByFrame.size := by
  induction ids generalizing s result with
  | nil => exact le_rfl
  | cons f ids ih =>
    have hone : (s.discardFrame f result reason).1.metadataByFrame = s.metadataByFrame.erase f := by
      unfold discardFrame settleFrame
      dsimp only
      split_ifs <;> rfl
    rw [discardFrames_cons]
    exact (ih _ _).trans (hone ▸ ExtTreeMap.size_erase_le)

/-- A sweep leaves the settled frames untracked: what it settles it empties. -/
theorem Quiet.discardFrames {s : Assembler} (h : s.SettledInv) (hq : s.Quiet) {ids : List UInt32}
    (hn : ids.Nodup) (result : CameraChunkResult) (reason : String) :
    (s.discardFrames ids result reason).1.Quiet := by
  obtain ⟨rs, -, hset, hsub, -⟩ := discardFrames_settles ids result reason h hn
  intro f hf
  rw [discardFrames_slot]
  split_ifs with hm
  · rfl
  · rw [hset.order] at hf
    rcases mem_of_mem_pushAll _ hf with hf | hf
    · exact hq f hf
    · exact absurd (hsub.subset hf) hm

/-- A step on one frame leaves the settled frames untracked, if the frame is
settled only when it leaves tracking. -/
theorem Quiet.frameStep {s s' : Assembler} (h : s.SettledInv) (hq : s.Quiet) {f : UInt32}
    {done : Option CameraFrameSet} (hstep : FrameStep s f s' done) (hf : f ∉ s.settledFrameOrder)
    (hdone : done.isSome → (s'.slot f).started = none) : s'.Quiet := by
  intro g hg
  have horder : g ∈ s.settledFrameOrder ∨ (done.isSome ∧ g = f) := by
    have hsettled := hstep.settled
    cases done with
    | none =>
      have : s'.settledFrameOrder = s.settledFrameOrder := congrArg Prod.snd hsettled
      exact Or.inl (this ▸ hg)
    | some set =>
      have hset := (settleFrame_of_not_settled h (fun hm => hf ((h.mem_iff f).1 hm))).2
      have : s'.settledFrameOrder = (s.settleFrame f).1.settledFrameOrder :=
        congrArg Prod.snd hsettled
      rw [this, hset.order] at hg
      exact (mem_of_mem_pushAll _ hg).imp id (fun hm => ⟨rfl, List.mem_singleton.1 hm⟩)
  by_cases hgf : g = f
  · subst hgf
    rcases horder with hg' | ⟨hd, -⟩
    · exact absurd hg' hf
    · exact hdone hd
  · rw [hstep.other g hgf]
    rcases horder with hg' | ⟨-, rfl⟩
    · exact hq g hg'
    · exact absurd rfl hgf

theorem settledInv_frameStep {s s' : Assembler} (h : s.SettledInv) {f : UInt32}
    {done : Option CameraFrameSet} (hstep : FrameStep s f s' done)
    (hf : done.isSome → f ∉ s.settledFrameOrder) :
    Settles s (done.map (fun _ => f)).toList s' := by
  have hsettled := hstep.settled
  cases done with
  | none => exact Settles.refl h hsettled
  | some set =>
    have hf' : f ∉ s.settledFrameIds := fun hm => hf rfl ((h.mem_iff f).1 hm)
    exact (settleFrame_of_not_settled h hf').2.congr hsettled

/-- What `ingestFrame` does on a frame that is settled, and on one that is not. -/
theorem ingestFrame_of_settled {s : Assembler} {chunk : VideoChunkView}
    (h : s.frameIsSettled chunk.frameId = true) (entered appended : TimePoint) :
    s.ingestFrame chunk entered appended = (s, none) := by
  unfold ingestFrame
  rw [if_pos h]

theorem Ingested.started_of_done {chunk : VideoChunkView} {entered appended : TimePoint}
    {t t' : Slot} {done : Option CameraFrameSet}
    (h : Slot.Ingested chunk entered appended t t' done) (hd : done.isSome) : t'.started = none := by
  cases h with
  | finished => rfl
  | _ => cases hd

section

variable {s : Assembler}

theorem swept_settled (h : s.SettledInv) (f : UInt32) :
    ∃ rs, (s.discardFrames (s.retired f) {}).2.discardedIncompleteFrameIds = rs ∧
      Settles s rs (s.swept f) ∧ rs.Sublist (s.retired f) ∧
      ∀ g ∈ s.retired f, g ∉ s.settledFrameIds → g ∈ rs := by
  obtain ⟨rs, hrs, hset, hsub, hall⟩ :=
    discardFrames_settles (s.retired f) {} "next frame arrived before completion" h
      (s.retired_nodup f)
  exact ⟨rs, hrs, hset.congr rfl, hsub, hall⟩

theorem swept_quiet (h : s.SettledInv) (hq : s.Quiet) (f : UInt32) : (s.swept f).Quiet :=
  hq.discardFrames h (s.retired_nodup f) {} _

/-- A call settles exactly the frames it reports, in the order of its report. -/
theorem step_settles (h : s.SettledInv) {call : Call} (hcall : call ≠ .reset) :
    Settles s (assembler.step s call).2.reported (assembler.step s call).1 := by
  cases call with
  | reset => exact absurd rfl hcall
  | expire now =>
    obtain ⟨rs, hrs, hset, -, -⟩ := discardFrames_settles (s.expiredIds now) {}
      "incomplete frame expired; other streams continue" h (s.expiredIds_nodup now)
    have hcompleted := s.discardFrames_completed (s.expiredIds now) {}
      "incomplete frame expired; other streams continue"
    change Settles s (s.discardFrames (s.expiredIds now) {} _).2.reported
      (s.discardFrames (s.expiredIds now) {} _).1
    simpa [CameraChunkResult.reported, hrs, hcompleted] using hset
  | addMetadata metadata now =>
    change Settles s ([] ++ ((s.addMetadata metadata now).2.map (·.frameId)).toList)
      (s.addMetadata metadata now).1
    rw [List.nil_append]
    by_cases hlate : s.metadataIsLate metadata.hostFrameId = true
    · have hadd : s.addMetadata metadata now = (s, none) := by
        unfold addMetadata
        rw [if_pos hlate]
      rw [hadd]
      exact Settles.refl h rfl
    · have hnl := Bool.eq_false_of_not_eq_true hlate
      obtain ⟨hdone, -, -, hsettled⟩ := s.addMetadata_spec hnl now
      cases hd : (s.addMetadata metadata now).2 with
      | none => exact Settles.refl h (by rw [hsettled, hd]; rfl)
      | some set =>
        have hid : set.frameId = metadata.hostFrameId := completed_frameId (hdone.symm.trans hd)
        have hun : metadata.hostFrameId ∉ s.settledFrameIds := by
          intro hm
          unfold metadataIsLate at hnl
          rw [h.frameIsSettled _ |>.2 ((h.mem_iff _).1 hm)] at hnl
          cases hnl
        rw [hd] at hsettled
        simpa [hid] using (settleFrame_of_not_settled h hun).2.congr hsettled
  | ingest chunk entered appended =>
    change Settles s (s.ingest chunk entered appended).2.reported
      (s.ingest chunk entered appended).1
    by_cases hlate : s.isLate chunk.frameId = true
    · rw [ingest_of_late s hlate]
      exact Settles.refl h rfl
    · rw [ingest_of_not_late s (Bool.eq_false_of_not_eq_true hlate)]
      obtain ⟨rs, hrs, hset, -, -⟩ := swept_settled h chunk.frameId
      have hstep := (s.swept chunk.frameId).frameStep_ingestFrame chunk entered appended
      simp only [CameraChunkResult.reported, hrs]
      refine hset.trans ?_
      by_cases hun : (s.swept chunk.frameId).frameIsSettled chunk.frameId = true
      · rw [ingestFrame_of_settled hun]
        exact Settles.refl hset.inv rfl
      · have hmove := (s.swept chunk.frameId).ingested_ingestFrame chunk entered appended
          (Bool.eq_false_of_not_eq_true hun)
        have hid := ingested_frameId hmove
        have := settledInv_frameStep hset.inv hstep
          (fun _ hm => hun ((hset.inv.frameIsSettled _).2 hm))
        cases hd : ((s.swept chunk.frameId).ingestFrame chunk entered appended).2 with
        | none => simpa [hd] using this
        | some set => simpa [hd, hid set hd] using this

theorem quiet_addMetadata (h : s.SettledInv) (hq : s.Quiet) (metadata : VideoMeta)
    (now : TimePoint) : (s.addMetadata metadata now).1.Quiet := by
  by_cases hlate : s.metadataIsLate metadata.hostFrameId = true
  · unfold addMetadata
    rw [if_pos hlate]
    exact hq
  have hnl := Bool.eq_false_of_not_eq_true hlate
  obtain ⟨-, hslot, -, hsettled⟩ := s.addMetadata_spec hnl now
  have hun : metadata.hostFrameId ∉ s.settledFrameOrder := by
    intro hm
    unfold metadataIsLate at hnl
    rw [h.frameIsSettled _ |>.2 hm] at hnl
    cases hnl
  -- the eviction of metadata is the only change outside the frame
  intro g hg
  obtain ⟨stored, -, hg'⟩ := hslot g
  rw [hg']
  have hset : (s.addMetadata metadata now).2.isSome = false →
      (s.addMetadata metadata now).1.settledFrameOrder = s.settledFrameOrder := by
    intro hd
    rw [hd] at hsettled
    exact congrArg Prod.snd hsettled
  by_cases hgf : g = metadata.hostFrameId
  · rw [if_pos hgf]
    cases hd : (s.addMetadata metadata now).2.isSome with
    | true => rfl
    | false =>
      rw [hset hd, hgf] at hg
      exact absurd hg hun
  · rw [if_neg hgf]
    apply hq g
    cases hd : (s.addMetadata metadata now).2.isSome with
    | false => exact hset hd ▸ hg
    | true =>
      rw [hd] at hsettled
      have horder := (settleFrame_of_not_settled h (fun hm => hun ((h.mem_iff _).1 hm))).2.order
      have : (s.addMetadata metadata now).1.settledFrameOrder =
          (s.settleFrame metadata.hostFrameId).1.settledFrameOrder :=
        congrArg Prod.snd hsettled
      rw [this, horder] at hg
      exact (mem_of_mem_pushAll _ hg).resolve_right (by simpa using hgf)

theorem quiet_ingest (h : s.SettledInv) (hq : s.Quiet) (chunk : VideoChunkView)
    (entered appended : TimePoint) : (s.ingest chunk entered appended).1.Quiet := by
  by_cases hlate : s.isLate chunk.frameId = true
  · rw [ingest_of_late s hlate]
    exact hq
  rw [ingest_of_not_late s (Bool.eq_false_of_not_eq_true hlate)]
  obtain ⟨rs, -, hset, -, -⟩ := swept_settled h chunk.frameId
  have hq' := swept_quiet h hq chunk.frameId
  by_cases hun : (s.swept chunk.frameId).frameIsSettled chunk.frameId = true
  · rw [ingestFrame_of_settled hun]
    exact hq'
  · have hmove := (s.swept chunk.frameId).ingested_ingestFrame chunk entered appended
      (Bool.eq_false_of_not_eq_true hun)
    exact hq'.frameStep hset.inv
      ((s.swept chunk.frameId).frameStep_ingestFrame chunk entered appended)
      (fun hm => hun ((hset.inv.frameIsSettled _).2 hm)) (Ingested.started_of_done hmove)

theorem step_quiet (h : s.SettledInv) (hq : s.Quiet) (call : Call) :
    (assembler.step s call).1.Quiet := by
  cases call with
  | reset => intro f hf; simp [assembler, reset] at hf
  | expire now => exact hq.discardFrames h (s.expiredIds_nodup now) {} _
  | addMetadata metadata now => exact quiet_addMetadata h hq metadata now
  | ingest chunk entered appended => exact quiet_ingest h hq chunk entered appended

/-- The newest frame after a call. -/
theorem step_newest (call : Call) :
    (assembler.step s call).1.newestFrameId =
      match call with
      | .ingest chunk _ _ =>
        if s.isLate chunk.frameId then s.newestFrameId else some chunk.frameId
      | .addMetadata _ _ => s.newestFrameId
      | .expire _ => s.newestFrameId
      | .reset => none := by
  cases call with
  | reset => rfl
  | expire now => exact s.discardFrames_newest _ {} _
  | addMetadata metadata now =>
    change (s.addMetadata metadata now).1.newestFrameId = s.newestFrameId
    by_cases hlate : s.metadataIsLate metadata.hostFrameId = true
    · unfold addMetadata
      rw [if_pos hlate]
    · exact (s.addMetadata_spec (Bool.eq_false_of_not_eq_true hlate) now).2.2.1
  | ingest chunk entered appended =>
    change (s.ingest chunk entered appended).1.newestFrameId = _
    by_cases hlate : s.isLate chunk.frameId = true
    · rw [ingest_of_late s hlate]
      simp [hlate]
    · rw [ingest_of_not_late s (Bool.eq_false_of_not_eq_true hlate)]
      simp only [hlate]
      exact ((s.swept chunk.frameId).frameStep_ingestFrame chunk entered appended).newest

/-- The slot of another frame after a chunk that is not late. -/
theorem ingest_slot_other {chunk : VideoChunkView} (h : s.isLate chunk.frameId = false)
    (entered appended : TimePoint) {g : UInt32} (hg : g ≠ chunk.frameId) :
    (s.ingest chunk entered appended).1.slot g =
      if g ∈ s.retired chunk.frameId then {} else s.slot g := by
  rw [ingest_of_not_late s h]
  exact (((s.swept chunk.frameId).frameStep_ingestFrame chunk entered appended).other g hg).trans
    (swept_slot s chunk.frameId g)

theorem Imaged.held {t : Slot} (h : Imaged t) : t.Held := by
  rcases h with h | h
  · exact Or.inr (Or.inl h)
  · exact Or.inl h

/-- Only a chunk of the frame brings images into a slot. -/
theorem Move.imaged {call : Call} {g : UInt32} {t' : Slot} {sets : List CameraFrameSet}
    {rep : Bool} (hm : Move s call g t' sets rep) (h : Imaged t')
    (hcall : ∀ chunk entered appended, call ≠ .ingest chunk entered appended) :
    Imaged (s.slot g) := by
  cases hm with
  | keep => exact h
  | discarded => simp [Imaged] at h
  | ingested chunk entered appended _ _ hc => exact absurd hc (hcall _ _ _)
  | described => exact h
  | finished =>
    rcases h with h | h
    · exact absurd rfl h
    · exact Or.inr h
  | evicted => exact h
  | cleared => simp [Imaged] at h

theorem step_imaged (h : s.SettledInv) (hn : ∀ f, Imaged (s.slot f) → s.newestFrameId = some f)
    (call : Call) (g : UInt32) (hg : Imaged ((assembler.step s call).1.slot g)) :
    (assembler.step s call).1.newestFrameId = some g := by
  have hm := step_move h call g
  cases call with
  | reset => simp [Imaged, assembler, reset, Assembler.slot] at hg
  | expire now =>
    rw [step_newest]
    exact hn g (hm.imaged hg (by simp))
  | addMetadata metadata now =>
    rw [step_newest]
    exact hn g (hm.imaged hg (by simp))
  | ingest chunk entered appended =>
    rw [step_newest]
    by_cases hlate : s.isLate chunk.frameId = true
    · simp only [hlate, if_true]
      have : (assembler.step s (.ingest chunk entered appended)).1 = s :=
        congrArg Prod.fst (ingest_of_late s hlate entered appended)
      rw [this] at hg
      exact hn g hg
    · have hnl := Bool.eq_false_of_not_eq_true hlate
      simp only [hnl, Bool.false_eq_true, if_false]
      by_contra hne
      have hgf : g ≠ chunk.frameId := fun he => hne (he ▸ rfl)
      have hslot : (assembler.step s (.ingest chunk entered appended)).1.slot g =
          if g ∈ s.retired chunk.frameId then {} else s.slot g :=
        ingest_slot_other hnl entered appended hgf
      rw [hslot] at hg
      split_ifs at hg with hm
      · simp [Imaged] at hg
      · have hnew := hn g hg
        refine hm (s.mem_retired.2 ⟨?_, hg.held, g, hnew, ?_⟩) <;>
          · simp only [isLate, hnew, Option.any_some, Bool.and_eq_false_iff, bne_eq_false_iff_eq,
              Bool.not_eq_false'] at hnl
            exact hnl.resolve_left (Ne.symm hgf)

theorem metadata_takeCompletedFrame (s : Assembler) (f : UInt32) :
    (s.takeCompletedFrame f).1.metadataByFrame.size ≤ s.metadataByFrame.size := by
  unfold takeCompletedFrame settleFrame
  split
  · split_ifs
    · dsimp only
      split_ifs <;> exact ExtTreeMap.size_erase_le
    · exact le_rfl
  · exact le_rfl

theorem metadata_rejectCamera (s : Assembler) (f : UInt32) (camera : UInt8) :
    (s.rejectCamera f camera).metadataByFrame = s.metadataByFrame := by
  unfold rejectCamera
  split_ifs <;> rfl

theorem metadata_ingestFrame (s : Assembler) (chunk : VideoChunkView)
    (entered appended : TimePoint) :
    (s.ingestFrame chunk entered appended).1.metadataByFrame.size ≤ s.metadataByFrame.size := by
  unfold ingestFrame appendChunk storeImage
  dsimp only
  split_ifs <;> simp only [metadata_rejectCamera, le_refl]
  exact metadata_takeCompletedFrame _ _

/-- Only `addMetadata` adds metadata. -/
theorem metadata_ingest (s : Assembler) (chunk : VideoChunkView) (entered appended : TimePoint) :
    (s.ingest chunk entered appended).1.metadataByFrame.size ≤ s.metadataByFrame.size := by
  by_cases hlate : s.isLate chunk.frameId = true
  · rw [ingest_of_late s hlate]
  · rw [ingest_of_not_late s (Bool.eq_false_of_not_eq_true hlate)]
    exact (metadata_ingestFrame _ _ _ _).trans (metadata_discardFrames _ _ _ _)

theorem step_metadata (h : s.metadataByFrame.size ≤ 16) (call : Call) :
    (assembler.step s call).1.metadataByFrame.size ≤ 16 := by
  cases call with
  | reset => simp [assembler, reset]
  | expire now => exact (metadata_discardFrames _ _ _ _).trans h
  | ingest chunk entered appended => exact (metadata_ingest _ _ _ _).trans h
  | addMetadata metadata now =>
    change (s.addMetadata metadata now).1.metadataByFrame.size ≤ 16
    unfold addMetadata
    split_ifs
    · exact h
    · exact size_trimMetadata_le _ _ (Nat.le_add_left _ _)

theorem Inv.step (h : s.Inv) (call : Call) : (assembler.step s call).1.Inv where
  slot f := (step_move h.history call f).inv (h.slot f)
  newest := step_imaged h.history h.newest call
  history := by
    by_cases hcall : call = .reset
    · subst hcall
      exact inv_init.history
    · exact (step_settles h.history hcall).inv
  settled := step_quiet h.history h.settled call
  metadata := step_metadata h.metadata call

end

theorem Inv.exec {s : Assembler} (h : s.Inv) (calls : List Call) : (assembler.exec s calls).Inv :=
  assembler.exec_invariant (I := Inv) (fun _ call hs => Inv.step hs call) h calls

/-- The invariant holds in every reachable state. -/
theorem inv_reachable {s : Assembler} (h : assembler.Reachable s) : s.Inv :=
  h.invariant assembler inv_init fun _ call hs => Inv.step hs call

theorem inv_exec (calls : List Call) : (assembler.exec assembler.init calls).Inv :=
  inv_init.exec calls

end Assembler

end PrismSdk.Camera
