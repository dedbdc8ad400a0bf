import PrismSdk.Camera.Assembler

/-! The assembler seen one frame at a time. A slot is what the four maps hold
under one frame ID. Each member function changes the slot of its own frame in
one of a few ways and leaves the other slots alone, or empties them. -/

namespace PrismSdk.Camera

open Std (ExtTreeMap ExtTreeSet)

/-- What the assembler holds of one frame. -/
@[ext] structure Slot where
  started : Option TimePoint := none
  frameSet : Option PartialFrameSet := none
  metadata : Option VideoMeta := none
  image : UInt8 → Option ImageBuffer := fun _ => none

def Assembler.slot (s : Assembler) (frameId : UInt32) : Slot where
  started := s.startedAt[frameId]?
  frameSet := s.partialFrameSets[frameId]?
  metadata := s.metadataByFrame[frameId]?
  image := fun camera => s.pendingImages[(camera, frameId)]?

namespace Slot

/-- Start the frame's clock unless it runs. -/
def enter (t : Slot) (now : TimePoint) : Slot := { t with started := some (t.started.getD now) }

def reject (t : Slot) (camera : UInt8) : Slot :=
  if h : camera.toNat < 4 then
    { t with
      frameSet := some ((t.frameSet.getD {}).reject ⟨camera.toNat, h⟩)
      image := Function.update t.image camera none }
  else t

@[simp] theorem reject_started (t : Slot) (camera : UInt8) :
    (t.reject camera).started = t.started := by
  unfold reject
  split_ifs <;> rfl

@[simp] theorem reject_metadata (t : Slot) (camera : UInt8) :
    (t.reject camera).metadata = t.metadata := by
  unfold reject
  split_ifs <;> rfl

/-- The image under way of a rejected camera does not matter. -/
theorem reject_update_image (t : Slot) {camera : UInt8} (h : camera.toNat < 4)
    (image : Option ImageBuffer) :
    reject { t with image := Function.update t.image camera image } camera = t.reject camera := by
  unfold reject
  rw [dif_pos h, dif_pos h, Function.update_idem]

/-- A completed frame leaves only images that were still being received. -/
def taken (t : Slot) : Slot := { image := t.image }

/-- The set the frame completes to, if it does now. -/
def completed (t : Slot) (frameId : UInt32) : Option CameraFrameSet :=
  t.frameSet.bind fun frameSet => t.metadata.bind fun metadata =>
    if Assembler.IsComplete frameSet metadata then
      some (Assembler.completedSet frameId frameSet metadata)
    else none

def isInvalid (t : Slot) (c : Fin 4) : Bool := t.frameSet.any (fun p => hasCamera p.invalidMask c)

def isReady (t : Slot) (c : Fin 4) : Bool := t.frameSet.any (fun p => hasCamera p.readyMask c)

/-- The image the chunk is appended to. -/
def opened (t : Slot) (chunk : VideoChunkView) : ImageBuffer :=
  (t.image chunk.cameraId |>.getD {}).start chunk

/-- The chunk is the next one of the image under way. -/
def Continues (t : Slot) (chunk : VideoChunkView) : Prop :=
  (t.opened chunk).encodedSize = chunk.encodedSize ∧
    (t.opened chunk).timestampUs = chunk.timestampUs ∧ chunk.chunkOffset = (t.opened chunk).received

instance (t : Slot) (chunk : VideoChunkView) : Decidable (t.Continues chunk) :=
  inferInstanceAs (Decidable (_ ∧ _ ∧ _))

/-- The frame's set with the geometry of the chunk that ends an image. -/
def resized (t : Slot) (chunk : VideoChunkView) : PartialFrameSet :=
  { t.frameSet.getD {} with width := chunk.width, height := chunk.height }

/-- The slot once the chunk's image is stored in the set. -/
def stored (t : Slot) (chunk : VideoChunkView) (c : Fin 4) (appended : TimePoint) : Slot where
  started := some appended
  frameSet := some ((t.resized chunk).store c ((t.opened chunk).append chunk))
  metadata := t.metadata
  image := Function.update t.image chunk.cameraId none

theorem isInvalid_eq (t : Slot) (c : Fin 4) :
    t.isInvalid c = hasCamera (t.frameSet.getD {}).invalidMask c := by
  cases h : t.frameSet <;> simp [isInvalid, h]

theorem isReady_eq (t : Slot) (c : Fin 4) :
    t.isReady c = hasCamera (t.frameSet.getD {}).readyMask c := by
  cases h : t.frameSet <;> simp [isReady, h]

theorem completed_eq_some {t : Slot} {f : UInt32} {set : CameraFrameSet} :
    t.completed f = some set ↔ ∃ frameSet metadata, t.frameSet = some frameSet ∧
      t.metadata = some metadata ∧ Assembler.IsComplete frameSet metadata ∧
      set = Assembler.completedSet f frameSet metadata := by
  simp only [completed, Option.bind_eq_some_iff, Option.ite_none_right_eq_some,
    Option.some.injEq]
  constructor
  · rintro ⟨frameSet, hp, metadata, hm, hc, rfl⟩
    exact ⟨frameSet, metadata, hp, hm, hc, rfl⟩
  · rintro ⟨frameSet, metadata, hp, hm, hc, rfl⟩
    exact ⟨frameSet, hp, metadata, hm, hc, rfl⟩

/-- Completion does not look at the clock or at images under way. -/
theorem completed_congr {t t' : Slot} (hp : t'.frameSet = t.frameSet)
    (hm : t'.metadata = t.metadata) (f : UInt32) : t'.completed f = t.completed f := by
  simp only [completed, hp, hm]

end Slot

/-- The camera of a chunk that passed the checks. -/
def chunkCamera (chunk : VideoChunkView) (h : ¬ Assembler.InvalidChunk chunk) : Fin 4 :=
  ⟨chunk.cameraId.toNat, Assembler.camera_lt_of_not_invalid h⟩

/-- What an admitted chunk does to its frame's slot: the next slot, and the set
it completes. -/
inductive Slot.Ingested (chunk : VideoChunkView) (entered appended : TimePoint) (t : Slot) :
    Slot → Option CameraFrameSet → Prop where
  | invalid (h : Assembler.InvalidChunk chunk) :
    Ingested chunk entered appended t ((t.enter entered).reject chunk.cameraId) none
  | ignored (h : ¬ Assembler.InvalidChunk chunk) (hi : t.isInvalid (chunkCamera chunk h) = true) :
    Ingested chunk entered appended t (t.enter entered) none
  | discontinuous (h : ¬ Assembler.InvalidChunk chunk)
    (hi : t.isInvalid (chunkCamera chunk h) = false) (hc : ¬ t.Continues chunk) :
    Ingested chunk entered appended t ((t.enter entered).reject chunk.cameraId) none
  | extended (h : ¬ Assembler.InvalidChunk chunk)
    (hi : t.isInvalid (chunkCamera chunk h) = false) (hc : t.Continues chunk)
    (hlt : ((t.opened chunk).append chunk).received < chunk.encodedSize) :
    Ingested chunk entered appended t
      { t with
        started := some appended
        image := Function.update t.image chunk.cameraId (some ((t.opened chunk).append chunk)) }
      none
  | repeated (h : ¬ Assembler.InvalidChunk chunk)
    (hi : t.isInvalid (chunkCamera chunk h) = false) (hc : t.Continues chunk)
    (hge : ¬ ((t.opened chunk).append chunk).received < chunk.encodedSize)
    (hr : t.isReady (chunkCamera chunk h) = true ∨
      ((t.opened chunk).append chunk).jpeg.length ≠ (t.opened chunk).encodedSize.toNat) :
    Ingested chunk entered appended t
      (Slot.reject { t with started := some appended, frameSet := some (t.resized chunk) }
        chunk.cameraId)
      none
  | stored (h : ¬ Assembler.InvalidChunk chunk)
    (hi : t.isInvalid (chunkCamera chunk h) = false) (hc : t.Continues chunk)
    (hge : ¬ ((t.opened chunk).append chunk).received < chunk.encodedSize)
    (hr : t.isReady (chunkCamera chunk h) = false)
    (hlen : ((t.opened chunk).append chunk).jpeg.length = (t.opened chunk).encodedSize.toNat)
    (hn : (t.stored chunk (chunkCamera chunk h) appended).completed chunk.frameId = none) :
    Ingested chunk entered appended t (t.stored chunk (chunkCamera chunk h) appended) none
  | finished (h : ¬ Assembler.InvalidChunk chunk)
    (hi : t.isInvalid (chunkCamera chunk h) = false) (hc : t.Continues chunk)
    (hge : ¬ ((t.opened chunk).append chunk).received < chunk.encodedSize)
    (hr : t.isReady (chunkCamera chunk h) = false)
    (hlen : ((t.opened chunk).append chunk).jpeg.length = (t.opened chunk).encodedSize.toNat)
    (set : CameraFrameSet)
    (hn : (t.stored chunk (chunkCamera chunk h) appended).completed chunk.frameId = some set) :
    Ingested chunk entered appended t (t.stored chunk (chunkCamera chunk h) appended).taken set

namespace Assembler

variable (s : Assembler)

theorem slot_rejectCamera (f : UInt32) (camera : UInt8) (g : UInt32) :
    (s.rejectCamera f camera).slot g = if g = f then (s.slot f).reject camera else s.slot g := by
  unfold rejectCamera
  by_cases h : camera.toNat < 4
  · rw [dif_pos (show camera.toNat < kCameraCount from h)]
    by_cases hg : g = f
    · subst hg
      simp only [Slot.reject, h, ↓reduceDIte, slot, if_true]
      ext <;> grind
    · simp only [hg, ↓reduceIte, slot]
      ext <;> grind
  · rw [dif_neg (show ¬ camera.toNat < kCameraCount from h)]
    by_cases hg : g = f
    · subst hg; simp [Slot.reject, h]
    · simp [hg]

/-- The settled history: the set and its order. -/
def settled : ExtTreeSet UInt32 × List UInt32 := (s.settledFrameIds, s.settledFrameOrder)

@[simp] theorem slot_settleFrame (f g : UInt32) : (s.settleFrame f).1.slot g = s.slot g := by
  unfold settleFrame
  split_ifs <;> rfl

@[simp] theorem newest_settleFrame (f : UInt32) :
    (s.settleFrame f).1.newestFrameId = s.newestFrameId := by
  unfold settleFrame
  split_ifs <;> rfl

theorem slot_forget (f g : UInt32) :
    (s.forget f).slot g = if g = f then {} else s.slot g := by
  by_cases hg : g = f
  · subst hg
    simp only [if_true, slot, forget]
    ext <;> simp
  · simp only [hg, if_false, slot, forget]
    ext <;> simp [ExtTreeMap.getElem?_erase, Ne.symm hg, hg]

theorem takeCompletedFrame_of_none {f : UInt32} (h : (s.slot f).completed f = none) :
    s.takeCompletedFrame f = (s, none) := by
  unfold takeCompletedFrame
  cases hp : s.partialFrameSets[f]? with
  | none => rfl
  | some frameSet =>
    cases hm : s.metadataByFrame[f]? with
    | none => rfl
    | some metadata =>
      have hc : ¬ IsComplete frameSet metadata := by
        intro hc
        have hsome : (s.slot f).completed f = some (completedSet f frameSet metadata) :=
          Slot.completed_eq_some.2 ⟨frameSet, metadata, hp, hm, hc, rfl⟩
        rw [hsome] at h
        cases h
      simp only [hc, if_false]

/-- A frame that completes leaves the maps, apart from images under way, and is
settled. -/
theorem takeCompletedFrame_of_some {f : UInt32} {set : CameraFrameSet}
    (h : (s.slot f).completed f = some set) :
    (s.takeCompletedFrame f).2 = some set ∧
      (∀ g, (s.takeCompletedFrame f).1.slot g = if g = f then (s.slot f).taken else s.slot g) ∧
      (s.takeCompletedFrame f).1.newestFrameId = s.newestFrameId ∧
      (s.takeCompletedFrame f).1.settled = (s.settleFrame f).1.settled := by
  obtain ⟨frameSet, metadata, hp, hm, hc, rfl⟩ := Slot.completed_eq_some.1 h
  have hp' : s.partialFrameSets[f]? = some frameSet := hp
  have hm' : s.metadataByFrame[f]? = some metadata := hm
  unfold takeCompletedFrame
  simp only [hp', hm', hc, if_true]
  refine ⟨trivial, fun g => ?_, ?_, ?_⟩
  · refine Eq.trans (slot_settleFrame _ f g) ?_
    by_cases hg : g = f
    · subst hg
      simp only [if_true, slot, Slot.taken]
      ext <;> simp
    · simp only [hg, if_false, slot]
      ext <;> simp [ExtTreeMap.getElem?_erase, Ne.symm hg]
  · exact newest_settleFrame _ f
  · unfold settleFrame settled
    split_ifs <;> rfl

/-- The set that is returned and the slot of the frame. -/
theorem slot_takeCompletedFrame (f : UInt32) :
    (s.takeCompletedFrame f).2 = (s.slot f).completed f ∧
      (s.takeCompletedFrame f).1.slot f =
        if ((s.slot f).completed f).isSome then (s.slot f).taken else s.slot f := by
  cases h : (s.slot f).completed f with
  | none =>
    rw [takeCompletedFrame_of_none s h]
    exact ⟨rfl, rfl⟩
  | some set =>
    obtain ⟨hdone, hslot, -, -⟩ := takeCompletedFrame_of_some s h
    rw [hslot, if_pos rfl]
    exact ⟨hdone, rfl⟩

end Assembler

end PrismSdk.Camera
