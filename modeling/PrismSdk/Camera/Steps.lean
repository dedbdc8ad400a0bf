import PrismSdk.Camera.Slot
import PrismSdk.Library.RecentMemory

/-! What each member function does, slot by slot. For its own frame a function
makes one of the moves of `Slot.Ingested`, or stores metadata, or empties the
slot; every other slot stays, except those a newer frame or the clock retires. -/

namespace PrismSdk.Camera

open Std (ExtTreeMap ExtTreeSet)

namespace Assembler

variable (s : Assembler)

/-! ### Updates of one map -/

theorem slot_insertFrameSet (f : UInt32) (p : PartialFrameSet) (g : UInt32) :
    slot { s with partialFrameSets := s.partialFrameSets.insert f p } g =
      if g = f then { s.slot f with frameSet := some p } else s.slot g := by
  split_ifs with hg
  · subst hg; ext <;> simp [slot]
  · ext <;> simp [slot, ExtTreeMap.getElem?_insert, Ne.symm hg]

theorem slot_insertImage (camera : UInt8) (f : UInt32) (image : ImageBuffer) (g : UInt32) :
    slot { s with pendingImages := s.pendingImages.insert (camera, f) image } g =
      if g = f then { s.slot f with image := Function.update (s.slot f).image camera (some image) }
      else s.slot g := by
  split_ifs with hg
  · subst hg; ext <;> grind [slot]
  · ext <;> grind [slot]

theorem slot_eraseImage (camera : UInt8) (f : UInt32) (g : UInt32) :
    slot { s with pendingImages := s.pendingImages.erase (camera, f) } g =
      if g = f then { s.slot f with image := Function.update (s.slot f).image camera none }
      else s.slot g := by
  split_ifs with hg
  · subst hg; ext <;> grind [slot]
  · ext <;> grind [slot]

theorem slot_extend (camera : UInt8) (f : UInt32) (image : ImageBuffer) (now : TimePoint)
    (g : UInt32) :
    slot { s with
      pendingImages := s.pendingImages.insert (camera, f) image
      startedAt := s.startedAt.insert f now } g =
      if g = f then
        { s.slot f with
          started := some now
          image := Function.update (s.slot f).image camera (some image) }
      else s.slot g := by
  split_ifs with hg
  · subst hg; ext <;> grind [slot]
  · ext <;> grind [slot]

theorem slot_enter (f : UInt32) (now : TimePoint) (g : UInt32) :
    slot { s with startedAt := s.startedAt.insertIfNew f now } g =
      if g = f then (s.slot f).enter now else s.slot g := by
  split_ifs with hg
  · subst hg; ext <;> grind [slot, Slot.enter]
  · ext <;> grind [slot]

/-! ### Steps of one frame -/

theorem settled_settleFrame_congr {s s' : Assembler} (h : s'.settled = s.settled) (f : UInt32) :
    (s'.settleFrame f).1.settled = (s.settleFrame f).1.settled := by
  simp only [settled, Prod.mk.injEq] at h
  unfold settleFrame settled
  rw [h.1, h.2]
  split_ifs <;> simp [h.1, h.2]

/-- A step on frame `f`: only its slot changes, and it is settled when it
completes a set. -/
structure FrameStep (s : Assembler) (f : UInt32) (s' : Assembler) (done : Option CameraFrameSet) :
    Prop where
  other : ∀ g, g ≠ f → s'.slot g = s.slot g
  newest : s'.newestFrameId = s.newestFrameId
  settled : s'.settled = if done.isSome then (s.settleFrame f).1.settled else s.settled

theorem FrameStep.refl (f : UInt32) : FrameStep s f s none := ⟨fun _ _ => rfl, rfl, rfl⟩

/-- A silent step before another one. -/
theorem FrameStep.trans {s₁ s₂ s₃ : Assembler} {f : UInt32} {done : Option CameraFrameSet}
    (h₁ : FrameStep s₁ f s₂ none) (h₂ : FrameStep s₂ f s₃ done) : FrameStep s₁ f s₃ done where
  other g hg := (h₂.other g hg).trans (h₁.other g hg)
  newest := h₂.newest.trans h₁.newest
  settled := by
    have h : s₂.settled = s₁.settled := h₁.settled
    rw [h₂.settled, settled_settleFrame_congr h, h]

/-- A silent step after another one. -/
theorem FrameStep.trans_silent {s₁ s₂ s₃ : Assembler} {f : UInt32} {done : Option CameraFrameSet}
    (h₁ : FrameStep s₁ f s₂ done) (h₂ : FrameStep s₂ f s₃ none) : FrameStep s₁ f s₃ done where
  other g hg := (h₂.other g hg).trans (h₁.other g hg)
  newest := h₂.newest.trans h₁.newest
  settled := by
    have h : s₃.settled = s₂.settled := h₂.settled
    rw [h, h₁.settled]

theorem frameStep_rejectCamera (f : UInt32) (camera : UInt8) :
    FrameStep s f (s.rejectCamera f camera) none where
  other g hg := by rw [slot_rejectCamera, if_neg hg]
  newest := by unfold rejectCamera; split_ifs <;> rfl
  settled := by
    have h : (s.rejectCamera f camera).settled = s.settled := by
      unfold rejectCamera
      split_ifs <;> rfl
    exact h

theorem frameStep_takeCompletedFrame (f : UInt32) :
    FrameStep s f (s.takeCompletedFrame f).1 (s.takeCompletedFrame f).2 := by
  cases h : (s.slot f).completed f with
  | none =>
    rw [takeCompletedFrame_of_none s h]
    exact FrameStep.refl s f
  | some set =>
    obtain ⟨hdone, hslot, hnewest, hsettled⟩ := takeCompletedFrame_of_some s h
    refine ⟨fun g hg => by rw [hslot, if_neg hg], hnewest, ?_⟩
    rw [hdone, hsettled]
    rfl

theorem frameStep_enter (f : UInt32) (now : TimePoint) :
    FrameStep s f { s with startedAt := s.startedAt.insertIfNew f now } none :=
  ⟨fun g hg => by rw [slot_enter, if_neg hg], rfl, rfl⟩

theorem frameStep_insertFrameSet (f : UInt32) (p : PartialFrameSet) :
    FrameStep s f { s with partialFrameSets := s.partialFrameSets.insert f p } none :=
  ⟨fun g hg => by rw [slot_insertFrameSet, if_neg hg], rfl, rfl⟩

theorem frameStep_insertImage (camera : UInt8) (f : UInt32) (image : ImageBuffer) :
    FrameStep s f { s with pendingImages := s.pendingImages.insert (camera, f) image } none :=
  ⟨fun g hg => by rw [slot_insertImage, if_neg hg], rfl, rfl⟩

theorem frameStep_extend (camera : UInt8) (f : UInt32) (image : ImageBuffer) (now : TimePoint) :
    FrameStep s f { s with
      pendingImages := s.pendingImages.insert (camera, f) image
      startedAt := s.startedAt.insert f now } none :=
  ⟨fun g hg => by rw [slot_extend, if_neg hg], rfl, rfl⟩

theorem frameStep_eraseImage (camera : UInt8) (f : UInt32) :
    FrameStep s f { s with pendingImages := s.pendingImages.erase (camera, f) } none :=
  ⟨fun g hg => by rw [slot_eraseImage, if_neg hg], rfl, rfl⟩

theorem frameStep_storeImage (chunk : VideoChunkView) (c : Fin 4) (image : ImageBuffer) :
    FrameStep s chunk.frameId (s.storeImage chunk c image).1 (s.storeImage chunk c image).2 := by
  unfold storeImage
  dsimp only
  split_ifs with hr hlen
  · exact (frameStep_insertFrameSet s _ _).trans (frameStep_rejectCamera _ _ _)
  · exact (frameStep_insertFrameSet s _ _).trans (frameStep_rejectCamera _ _ _)
  · have h₁ := frameStep_insertFrameSet s chunk.frameId
      { s.partialFrameSets[chunk.frameId]?.getD {} with width := chunk.width, height := chunk.height }
    have h₂ := h₁.trans (frameStep_insertFrameSet _ chunk.frameId
      (PartialFrameSet.store { s.partialFrameSets[chunk.frameId]?.getD {} with
        width := chunk.width, height := chunk.height } c image))
    exact (h₂.trans (frameStep_takeCompletedFrame _ _)).trans_silent (frameStep_eraseImage _ _ _)

theorem frameStep_appendChunk (chunk : VideoChunkView) (c : Fin 4) (now : TimePoint) :
    FrameStep s chunk.frameId (s.appendChunk chunk c now).1 (s.appendChunk chunk c now).2 := by
  unfold appendChunk
  dsimp only
  split_ifs with hi hc hlt
  · exact FrameStep.refl s _
  · exact (frameStep_insertImage s _ _ _).trans (frameStep_rejectCamera _ _ _)
  · exact frameStep_extend s _ _ _ _
  · exact (frameStep_extend s chunk.cameraId _ _ now).trans (frameStep_storeImage _ _ _ _)

theorem frameStep_ingestFrame (chunk : VideoChunkView) (entered appended : TimePoint) :
    FrameStep s chunk.frameId (s.ingestFrame chunk entered appended).1
      (s.ingestFrame chunk entered appended).2 := by
  unfold ingestFrame
  dsimp only
  split_ifs with hs h
  · exact FrameStep.refl s _
  · exact (frameStep_enter s _ _).trans (frameStep_rejectCamera _ _ _)
  · exact (frameStep_enter s _ _).trans (frameStep_appendChunk _ _ _ _)

theorem storeImage_of_refused (chunk : VideoChunkView) (c : Fin 4) (image : ImageBuffer)
    (h : (s.slot chunk.frameId).isReady c = true ∨ image.jpeg.length ≠ image.encodedSize.toNat) :
    (s.storeImage chunk c image).2 = none ∧
      (s.storeImage chunk c image).1.slot chunk.frameId =
        Slot.reject { s.slot chunk.frameId with
          frameSet := some ((s.slot chunk.frameId).resized chunk) } chunk.cameraId := by
  rw [Slot.isReady_eq] at h
  unfold storeImage
  dsimp only
  have hself : ∀ p, (rejectCamera { s with
      partialFrameSets := s.partialFrameSets.insert chunk.frameId p } chunk.frameId
        chunk.cameraId).slot chunk.frameId =
      Slot.reject { s.slot chunk.frameId with frameSet := some p } chunk.cameraId := by
    intro p
    rw [slot_rejectCamera, if_pos rfl, slot_insertFrameSet, if_pos rfl]
  split_ifs with hr hlen
  · exact ⟨rfl, hself _⟩
  · exact ⟨rfl, hself _⟩
  · rcases h with h | h
    · exact absurd h hr
    · exact absurd h hlen

theorem storeImage_of_accepted (chunk : VideoChunkView) (c : Fin 4) (image : ImageBuffer)
    (hr : (s.slot chunk.frameId).isReady c = false)
    (hlen : image.jpeg.length = image.encodedSize.toNat) (t : Slot)
    (ht : t = { s.slot chunk.frameId with
      frameSet := some (((s.slot chunk.frameId).resized chunk).store c image)
      image := Function.update (s.slot chunk.frameId).image chunk.cameraId none }) :
    (s.storeImage chunk c image).2 = t.completed chunk.frameId ∧
      (s.storeImage chunk c image).1.slot chunk.frameId =
        if (t.completed chunk.frameId).isSome then t.taken else t := by
  rw [Slot.isReady_eq] at hr
  unfold storeImage
  dsimp only
  have hr' : ¬ hasCamera (s.partialFrameSets[chunk.frameId]?.getD {}).readyMask c = true :=
    by
    rw [Bool.not_eq_true]; exact hr
  rw [if_neg hr', if_neg (not_not.2 hlen)]
  -- the frame's set is inserted twice, and the second insertion is the one that counts
  set P : PartialFrameSet := PartialFrameSet.store { s.partialFrameSets[chunk.frameId]?.getD {} with
    width := chunk.width, height := chunk.height } c image
  set s₁ : Assembler := { s with
    partialFrameSets := (s.partialFrameSets.insert chunk.frameId
      { s.partialFrameSets[chunk.frameId]?.getD {} with
        width := chunk.width, height := chunk.height }).insert chunk.frameId P }
  have hs₁ : s₁.slot chunk.frameId = { s.slot chunk.frameId with frameSet := some P } := by
    ext <;> simp [s₁, slot]
  have hcomp : (s₁.slot chunk.frameId).completed chunk.frameId = t.completed chunk.frameId :=
    Slot.completed_congr (by rw [hs₁, ht]; rfl) (by rw [hs₁, ht]) _
  obtain ⟨hdone, hself⟩ := s₁.slot_takeCompletedFrame chunk.frameId
  rw [hcomp] at hdone hself
  refine ⟨hdone, ?_⟩
  rw [slot_eraseImage, if_pos rfl, hself, hs₁, ht]
  split_ifs <;> rfl

/-- A chunk of an unsettled frame makes one of the moves of `Slot.Ingested`. -/
theorem ingested_ingestFrame (chunk : VideoChunkView) (entered appended : TimePoint)
    (hs : s.frameIsSettled chunk.frameId = false) :
    Slot.Ingested chunk entered appended (s.slot chunk.frameId)
      ((s.ingestFrame chunk entered appended).1.slot chunk.frameId)
      (s.ingestFrame chunk entered appended).2 := by
  unfold ingestFrame
  rw [if_neg (by simp [hs])]
  dsimp only
  set s₁ : Assembler := { s with
    startedAt := s.startedAt.insertIfNew chunk.frameId entered }
  have hs₁ : s₁.slot chunk.frameId = (s.slot chunk.frameId).enter entered := by
    rw [slot_enter, if_pos rfl]
  split_ifs with h
  · rw [slot_rejectCamera, if_pos rfl, hs₁]
    exact .invalid h
  · unfold appendChunk
    dsimp only
    have hc_iff : (((s₁.pendingImages[(chunk.cameraId, chunk.frameId)]?.getD {}).start
        chunk).encodedSize ≠ chunk.encodedSize ∨
        ((s₁.pendingImages[(chunk.cameraId, chunk.frameId)]?.getD {}).start
          chunk).timestampUs ≠ chunk.timestampUs ∨
        chunk.chunkOffset ≠ ((s₁.pendingImages[(chunk.cameraId, chunk.frameId)]?.getD {}).start
          chunk).received) ↔ ¬ (s.slot chunk.frameId).Continues chunk := by
      simp only [Slot.Continues, Slot.opened, slot, not_and_or]
      rfl
    split_ifs with hi hc hlt
    · rw [hs₁]
      exact .ignored h hi
    · rw [slot_rejectCamera, if_pos rfl, slot_insertImage, if_pos rfl, hs₁]
      rw [Slot.reject_update_image _ (camera_lt_of_not_invalid h)]
      exact .discontinuous h (Bool.eq_false_of_not_eq_true hi) (hc_iff.1 hc)
    · rw [slot_extend, if_pos rfl, hs₁]
      exact .extended h (Bool.eq_false_of_not_eq_true hi) (not_not.1 (mt hc_iff.2 hc)) hlt
    · have hi' : (s.slot chunk.frameId).isInvalid (chunkCamera chunk h) = false :=
        Bool.eq_false_of_not_eq_true hi
      have hc' : (s.slot chunk.frameId).Continues chunk := not_not.1 (mt hc_iff.2 hc)
      set image : ImageBuffer := ((s₁.pendingImages[(chunk.cameraId, chunk.frameId)]?.getD {}).start
        chunk).append chunk
      set s₂ : Assembler := { s₁ with
        pendingImages := s₁.pendingImages.insert (chunk.cameraId, chunk.frameId) image
        startedAt := s₁.startedAt.insert chunk.frameId appended }
      have hs₂ : s₂.slot chunk.frameId = { s.slot chunk.frameId with
          started := some appended
          image := Function.update (s.slot chunk.frameId).image chunk.cameraId (some image) } := by
        rw [slot_extend, if_pos rfl, hs₁]
        rfl
      by_cases hr : (s.slot chunk.frameId).isReady (chunkCamera chunk h) = true ∨
          image.jpeg.length ≠ image.encodedSize.toNat
      · obtain ⟨hdone, hslot⟩ := storeImage_of_refused s₂ chunk (chunkCamera chunk h) image
          (by rw [hs₂]; exact hr)
        have hrej : Slot.reject { s₂.slot chunk.frameId with
            frameSet := some ((s₂.slot chunk.frameId).resized chunk) } chunk.cameraId =
            Slot.reject { s.slot chunk.frameId with
              started := some appended
              frameSet := some ((s.slot chunk.frameId).resized chunk) } chunk.cameraId := by
          rw [hs₂]
          exact Slot.reject_update_image
            { s.slot chunk.frameId with
              started := some appended
              frameSet := some ((s.slot chunk.frameId).resized chunk) }
            (camera_lt_of_not_invalid h) (some image)
        rw [hrej] at hslot
        change Slot.Ingested _ _ _ _ ((s₂.storeImage chunk (chunkCamera chunk h) image).1.slot _)
          (s₂.storeImage chunk (chunkCamera chunk h) image).2
        rw [hdone, hslot]
        exact .repeated h hi' hc' hlt hr
      · obtain ⟨hr, hlen⟩ : (s.slot chunk.frameId).isReady (chunkCamera chunk h) = false ∧
            image.jpeg.length = image.encodedSize.toNat := by simpa using hr
        obtain ⟨hdone, hslot⟩ := storeImage_of_accepted s₂ chunk (chunkCamera chunk h) image
          (by rw [hs₂]; exact hr) hlen
          ((s.slot chunk.frameId).stored chunk (chunkCamera chunk h) appended) (by
            rw [hs₂]
            simp only [Slot.stored, Function.update_idem]
            rfl)
        change Slot.Ingested _ _ _ _ ((s₂.storeImage chunk (chunkCamera chunk h) image).1.slot _)
          (s₂.storeImage chunk (chunkCamera chunk h) image).2
        rw [hdone, hslot]
        cases hd : ((s.slot chunk.frameId).stored chunk (chunkCamera chunk h)
            appended).completed chunk.frameId with
        | none => exact .stored h hi' hc' hlt hr hlen hd
        | some set => exact .finished h hi' hc' hlt hr hlen set hd

end Assembler

end PrismSdk.Camera
