import PrismSdk.Camera.Passed

/-! One camera of one frame. A slot is four lanes, and a chunk moves only the lane
of its own camera, by a function of that lane and the chunk. So what the other
cameras send, and in which order, does not matter to a lane. -/

namespace PrismSdk.Camera

open Library.Reassembly (payload Contiguous)

/-- What a slot holds of one camera. -/
@[ext] structure Lane where
  invalid : Bool := false
  ready : Bool := false
  image : Option ImageBuffer := none
  jpeg : List UInt8 := []

def Slot.lane (t : Slot) (c : Fin 4) : Lane where
  invalid := t.isInvalid c
  ready := t.isReady c
  image := t.image (UInt8.ofNat c.val)
  jpeg := (t.frameSet.getD {}).jpeg c

namespace Lane

/-- The lane of a rejected camera. -/
def rejected : Lane := { invalid := true }

/-- What a chunk does to its lane. -/
def ingest (l : Lane) (chunk : VideoChunkView) : Lane :=
  if Assembler.InvalidChunk chunk then rejected
  else if l.invalid then l
  else
    let image := (l.image.getD {}).start chunk
    if image.encodedSize ≠ chunk.encodedSize ∨ image.timestampUs ≠ chunk.timestampUs ∨
        chunk.chunkOffset ≠ image.received then rejected
    else
      let image := image.append chunk
      if image.received < chunk.encodedSize then { l with image := some image }
      else if l.ready ∨ image.jpeg.length ≠ image.encodedSize.toNat then rejected
      else { invalid := false, ready := true, image := none, jpeg := image.jpeg }

/-- The lane that received `bytes` of an image of the given size, from its start. -/
def holding (encodedSize : UInt32) (timestampUs : UInt64) (bytes : List UInt8) : Lane :=
  if bytes = [] then {}
  else if bytes.length < encodedSize.toNat then
    { image := some { jpeg := bytes, encodedSize, received := UInt32.ofNat bytes.length
                      timestampUs } }
  else { ready := true, jpeg := bytes }

@[simp] theorem holding_invalid (encodedSize : UInt32) (timestampUs : UInt64) (bytes : List UInt8) :
    (holding encodedSize timestampUs bytes).invalid = false := by
  unfold holding
  split_ifs <;> rfl

/-- A lane is ready when it has all the bytes. -/
theorem holding_ready {encodedSize : UInt32} (timestampUs : UInt64) {bytes : List UInt8}
    (hne : bytes ≠ []) :
    (holding encodedSize timestampUs bytes).ready = decide (encodedSize.toNat ≤ bytes.length) := by
  unfold holding
  rw [if_neg hne]
  split_ifs with h
  · exact (decide_eq_false (by omega)).symm
  · exact (decide_eq_true (by omega)).symm

/-- The image that the next chunk of the lane is appended to. -/
theorem start_holding {encodedSize : UInt32} {timestampUs : UInt64} {bytes : List UInt8}
    {chunk : VideoChunkView} (hsize : chunk.encodedSize = encodedSize)
    (htime : chunk.timestampUs = timestampUs) (hoff : chunk.chunkOffset.toNat = bytes.length)
    (hlt : bytes.length < encodedSize.toNat) :
    ((holding encodedSize timestampUs bytes).image.getD {}).start chunk =
      { jpeg := bytes, encodedSize, received := chunk.chunkOffset, timestampUs } := by
  have hreceived : UInt32.ofNat bytes.length = chunk.chunkOffset := by
    rw [← hoff, UInt32.ofNat_toNat]
  unfold holding
  by_cases hnil : bytes = []
  · subst hnil
    have h0 : chunk.chunkOffset = 0 := UInt32.toNat_inj.1 hoff
    simp [ImageBuffer.start, hsize, htime, h0]
  · have h0 : chunk.chunkOffset ≠ 0 := by
      intro h0
      rw [h0] at hoff
      exact hnil (List.length_eq_zero_iff.1 hoff.symm)
    simp [ImageBuffer.start, hnil, hlt, hreceived, h0]

/-- The next chunk of the image takes the lane from its bytes to more bytes. -/
theorem ingest_holding {encodedSize : UInt32} {timestampUs : UInt64} {bytes : List UInt8}
    {chunk : VideoChunkView} (hv : ¬ Assembler.InvalidChunk chunk)
    (hsize : chunk.encodedSize = encodedSize) (htime : chunk.timestampUs = timestampUs)
    (hoff : chunk.chunkOffset.toNat = bytes.length) :
    (holding encodedSize timestampUs bytes).ingest chunk =
      holding encodedSize timestampUs (bytes ++ chunk.bytes) := by
  obtain ⟨-, hpos, hlen, hend, hlimit⟩ := (Assembler.not_invalidChunk_iff chunk).1 hv
  have hbound := chunk.encodedSize.toNat_lt
  have hlt : bytes.length < encodedSize.toNat := by
    rw [← hsize]
    omega
  have hne : bytes ++ chunk.bytes ≠ [] := by simp [List.ne_nil_of_length_pos hpos]
  have hsum : (chunk.chunkOffset + chunk.chunkSize).toNat = (bytes ++ chunk.bytes).length := by
    rw [UInt32.toNat_add, List.length_append, ← hoff, hlen, Nat.mod_eq_of_lt (by omega)]
  have hsum' : UInt32.ofNat (bytes ++ chunk.bytes).length = chunk.chunkOffset + chunk.chunkSize := by
    rw [← hsum, UInt32.ofNat_toNat]
  have hready : (holding encodedSize timestampUs bytes).ready = false ∧
      (holding encodedSize timestampUs bytes).jpeg = [] := by
    unfold holding
    split_ifs <;> exact ⟨rfl, rfl⟩
  have hstart := start_holding hsize htime hoff hlt
  have hinvalid := holding_invalid encodedSize timestampUs bytes
  generalize holding encodedSize timestampUs bytes = l at hready hstart hinvalid ⊢
  obtain ⟨invalid, ready, image, jpeg⟩ := l
  obtain ⟨rfl, rfl⟩ := hready
  subst hinvalid
  unfold ingest holding
  rw [if_neg hv, if_neg Bool.false_ne_true, if_neg hne]
  dsimp only at hstart ⊢
  rw [hstart, if_neg (by simp [hsize, htime]), ImageBuffer.append]
  simp only [hsize, UInt32.lt_iff_toNat_lt, hsum, hsum']
  split_ifs with hmore hbad
  · rfl
  · simp only [false_or] at hbad
    rw [List.length_append] at hbad hmore
    rw [hsize] at hend
    omega
  · rfl

theorem ingest_next {before after : List VideoChunkView} {chunk : VideoChunkView}
    {encodedSize : UInt32} {timestampUs : UInt64} {jpeg : List UInt8}
    (h : JpegSplit (before ++ chunk :: after) encodedSize timestampUs jpeg)
    (hcamera : chunk.cameraId.toNat < 4) :
    (holding encodedSize timestampUs (payload VideoChunkView.bytes before)).ingest chunk =
      holding encodedSize timestampUs (payload VideoChunkView.bytes (before ++ [chunk])) := by
  obtain ⟨hv, hsize, htime, hoff⟩ := h.next hcamera
  rw [ingest_holding hv hsize htime hoff]
  simp

/-- The lane that received the whole split is ready with its JPEG. -/
theorem holding_all {chunks : List VideoChunkView} {encodedSize : UInt32} {timestampUs : UInt64}
    {jpeg : List UInt8} (h : JpegSplit chunks encodedSize timestampUs jpeg) :
    holding encodedSize timestampUs (payload VideoChunkView.bytes chunks) =
      { ready := true, jpeg } := by
  rw [h.bytes, holding, if_neg h.nonempty, if_neg (by rw [h.length_eq]; exact lt_irrefl _)]

end Lane

namespace Slot

variable {t : Slot}

theorem lane_congr {t t' : Slot} (hframe : t'.frameSet = t.frameSet) (himage : t'.image = t.image)
    (c : Fin 4) : t'.lane c = t.lane c := by
  simp only [lane, isInvalid, isReady, hframe, himage]

theorem ofNat_inj {c d : Fin 4} (h : UInt8.ofNat c.val = UInt8.ofNat d.val) : c = d := by
  have := congrArg UInt8.toNat h
  simp only [UInt8.toNat_ofNat', Nat.reducePow] at this
  omega

theorem ofNat_toNat_lt {camera : UInt8} (h : camera.toNat < 4) :
    UInt8.ofNat (⟨camera.toNat, h⟩ : Fin 4).val = camera := UInt8.ofNat_toNat

theorem lane_reject {camera : UInt8} (h : camera.toNat < 4) (c : Fin 4) :
    (t.reject camera).lane c = if c = ⟨camera.toNat, h⟩ then Lane.rejected else t.lane c := by
  rw [Slot.reject, dif_pos h]
  split_ifs with hc
  · subst hc
    ext1
    · simp [lane, isInvalid, PartialFrameSet.reject, Lane.rejected]
    · simp [lane, isReady, PartialFrameSet.reject, Lane.rejected]
    · simp [lane, Lane.rejected]
    · simp [lane, PartialFrameSet.reject, Lane.rejected]
  · have hne : UInt8.ofNat c.val ≠ camera := fun he =>
      hc (ofNat_inj (he.trans (ofNat_toNat_lt h).symm))
    ext1
    · simp [lane, isInvalid_eq, PartialFrameSet.reject, Ne.symm hc]
    · simp [lane, isReady_eq, PartialFrameSet.reject, Ne.symm hc]
    · simp [lane, hne]
    · simp [lane, PartialFrameSet.reject, hc]

theorem lane_stored (chunk : VideoChunkView) (hv : ¬ Assembler.InvalidChunk chunk)
    (appended : TimePoint) (c : Fin 4) (hi : t.isInvalid (chunkCamera chunk hv) = false) :
    (t.stored chunk (chunkCamera chunk hv) appended).lane c =
      if c = chunkCamera chunk hv then
        { ready := true, jpeg := ((t.opened chunk).append chunk).jpeg }
      else t.lane c := by
  rw [isInvalid_eq] at hi
  have himage : UInt8.ofNat (chunkCamera chunk hv).val = chunk.cameraId := ofNat_toNat_lt _
  split_ifs with hc
  · subst hc
    ext1
    · simpa [lane, isInvalid_eq, stored, PartialFrameSet.store, resized] using hi
    · simp [lane, isReady_eq, stored, PartialFrameSet.store]
    · simp [lane, stored, himage]
    · simp [lane, stored, PartialFrameSet.store]
  · have hne : UInt8.ofNat c.val ≠ chunk.cameraId := fun he => hc (ofNat_inj (he.trans himage.symm))
    ext1
    · simp [lane, isInvalid_eq, stored, PartialFrameSet.store, resized]
    · simp [lane, isReady_eq, stored, PartialFrameSet.store, resized, Ne.symm hc]
    · simp [lane, stored, hne]
    · simp [lane, stored, PartialFrameSet.store, resized, hc]

/-- The next slot and the completed set, from the slot `t₁` the chunk leads to before
the frame is checked for completion. -/
def Outcome (f : UInt32) (t₁ t' : Slot) (done : Option CameraFrameSet) : Prop :=
  t₁.completed f = done ∧ t' = if done.isSome then t₁.taken else t₁

/-- The lane's step on a valid chunk, in the words of the slot. -/
theorem ingest_lane {chunk : VideoChunkView} (hv : ¬ Assembler.InvalidChunk chunk)
    (hi : t.isInvalid (chunkCamera chunk hv) = false) :
    (t.lane (chunkCamera chunk hv)).ingest chunk =
      if t.Continues chunk then
        if ((t.opened chunk).append chunk).received < chunk.encodedSize then
          { t.lane (chunkCamera chunk hv) with image := some ((t.opened chunk).append chunk) }
        else if t.isReady (chunkCamera chunk hv) = true ∨
            ((t.opened chunk).append chunk).jpeg.length ≠ (t.opened chunk).encodedSize.toNat then
          Lane.rejected
        else { ready := true, jpeg := ((t.opened chunk).append chunk).jpeg }
      else Lane.rejected := by
  have himage : UInt8.ofNat (chunkCamera chunk hv).val = chunk.cameraId := ofNat_toNat_lt _
  have hopened : ((t.lane (chunkCamera chunk hv)).image.getD {}).start chunk = t.opened chunk := by
    simp only [lane, himage, opened]
  have hcontinues : ((t.opened chunk).encodedSize ≠ chunk.encodedSize ∨
      (t.opened chunk).timestampUs ≠ chunk.timestampUs ∨
      chunk.chunkOffset ≠ (t.opened chunk).received) ↔ ¬ t.Continues chunk := by
    simp only [Continues]
    tauto
  unfold Lane.ingest
  rw [if_neg hv, hopened, if_neg (by simp [lane, hi])]
  by_cases hc : t.Continues chunk
  · rw [if_pos hc, if_neg (by rw [hcontinues]; exact not_not.2 hc)]
    rfl
  · rw [if_neg hc, if_pos (hcontinues.2 hc)]

theorem ofNat_eq_cameraId {chunk : VideoChunkView} (hv : ¬ Assembler.InvalidChunk chunk)
    (c : Fin 4) : UInt8.ofNat c.val = chunk.cameraId ↔ c = chunkCamera chunk hv :=
  ⟨fun h => ofNat_inj (h.trans (ofNat_toNat_lt (chunkCamera chunk hv).isLt).symm),
    fun h => h ▸ ofNat_toNat_lt _⟩

/-- The lanes once an image is stored. -/
theorem ingest_stored {chunk : VideoChunkView} (hv : ¬ Assembler.InvalidChunk chunk)
    (hi : t.isInvalid (chunkCamera chunk hv) = false) (hc : t.Continues chunk)
    (hge : ¬ ((t.opened chunk).append chunk).received < chunk.encodedSize)
    (hr : t.isReady (chunkCamera chunk hv) = false)
    (hlen : ((t.opened chunk).append chunk).jpeg.length = (t.opened chunk).encodedSize.toNat)
    (appended : TimePoint) (c : Fin 4) :
    (t.stored chunk (chunkCamera chunk hv) appended).lane c =
      if UInt8.ofNat c.val = chunk.cameraId then (t.lane c).ingest chunk else t.lane c := by
  rw [lane_stored chunk hv appended c hi]
  refine if_ctx_congr (ofNat_eq_cameraId hv c).symm (fun h => ?_) (fun _ => rfl)
  rw [(ofNat_eq_cameraId hv c).1 h, ingest_lane hv hi, if_pos hc, if_neg hge,
    if_neg (by simp [hr, hlen])]

theorem isInvalid_reject_self {chunk : VideoChunkView} (hv : ¬ Assembler.InvalidChunk chunk) :
    (t.reject chunk.cameraId).isInvalid (chunkCamera chunk hv) = true := by
  rw [isInvalid_reject (chunkCamera chunk hv).isLt]
  simp [chunkCamera]

/-- The lanes once the camera of the chunk is rejected, when its lane is rejected too. -/
theorem ingest_rejected {chunk : VideoChunkView} (hv : ¬ Assembler.InvalidChunk chunk) {u : Slot}
    (hu : ∀ c, u.lane c = t.lane c)
    (hlane : (t.lane (chunkCamera chunk hv)).ingest chunk = Lane.rejected) (c : Fin 4) :
    (u.reject chunk.cameraId).lane c =
      if UInt8.ofNat c.val = chunk.cameraId then (t.lane c).ingest chunk else t.lane c := by
  rw [lane_reject (chunkCamera chunk hv).isLt, hu]
  refine if_ctx_congr (ofNat_eq_cameraId hv c).symm (fun h => ?_) (fun _ => rfl)
  rw [(ofNat_eq_cameraId hv c).1 h, hlane]

/-- A new width and height are not in a lane. -/
theorem lane_resized (chunk : VideoChunkView) (now : TimePoint) (c : Fin 4) :
    Slot.lane { t with started := some now, frameSet := some (t.resized chunk) } c = t.lane c := by
  ext1
  · rw [Slot.lane, isInvalid_eq]; exact (isInvalid_eq t c).symm
  · rw [Slot.lane, isReady_eq]; exact (isReady_eq t c).symm
  · rfl
  · rfl

/-- The lanes once bytes are appended to an image under way. -/
theorem ingest_extended {chunk : VideoChunkView} (hv : ¬ Assembler.InvalidChunk chunk)
    (hi : t.isInvalid (chunkCamera chunk hv) = false) (hc : t.Continues chunk)
    (hlt : ((t.opened chunk).append chunk).received < chunk.encodedSize) (now : TimePoint)
    (c : Fin 4) :
    Slot.lane { t with
      started := some now
      image := Function.update t.image chunk.cameraId (some ((t.opened chunk).append chunk)) } c =
      if UInt8.ofNat c.val = chunk.cameraId then (t.lane c).ingest chunk else t.lane c := by
  split_ifs with h
  · rw [(ofNat_eq_cameraId hv c).1 h, ingest_lane hv hi, if_pos hc, if_pos hlt]
    have himage : UInt8.ofNat (chunkCamera chunk hv).val = chunk.cameraId := ofNat_toNat_lt _
    ext1
    · rfl
    · rfl
    · simp [Slot.lane, himage]
    · rfl
  · ext1
    · rfl
    · rfl
    · simp [Slot.lane, h]
    · rfl

/-- A chunk moves the lane of its camera and no other. Unless it rejects its camera
it leaves the frame's set alone or gives it its width and height. -/
theorem Ingested.lane {chunk : VideoChunkView} {entered appended : TimePoint} {t' : Slot}
    {done : Option CameraFrameSet} (hm : Ingested chunk entered appended t t' done) (ht : t.Inv) :
    ∃ t₁, Outcome chunk.frameId t₁ t' done ∧ t₁.metadata = t.metadata ∧
      (∀ frame ∈ t₁.frameSet, frame.Inv) ∧
      (∀ c, t₁.lane c =
        if UInt8.ofNat c.val = chunk.cameraId then (t.lane c).ingest chunk else t.lane c) ∧
      (t₁.frameSet = t.frameSet ∨ (∃ c, t₁.isInvalid c = true) ∨
        ∃ frame, t₁.frameSet = some frame ∧ frame.width = chunk.width ∧
          frame.height = chunk.height) := by
  have hwaiting : done = none → t'.completed chunk.frameId = none := fun _ =>
    completed_eq_none.2 (hm.inv ht).waiting
  have hframe := (hm.inv ht).frameSet
  have henter : ∀ c, (t.enter entered).lane c = t.lane c := lane_congr rfl rfl
  cases hm with
  | invalid hv =>
    have hreject : ∀ {l : Lane}, l.ingest chunk = Lane.rejected := if_pos hv
    by_cases hlt : chunk.cameraId.toNat < 4
    · refine ⟨_, ⟨hwaiting rfl, rfl⟩, reject_metadata _ _, hframe, fun c => ?_,
        Or.inr (Or.inl ⟨⟨_, hlt⟩, ?_⟩)⟩
      · rw [lane_reject hlt, hreject, henter]
        exact if_congr ⟨fun h => h ▸ ofNat_toNat_lt hlt,
          fun h => ofNat_inj (h.trans (ofNat_toNat_lt hlt).symm)⟩ rfl rfl
      · simp [isInvalid_reject hlt]
    · refine ⟨_, ⟨hwaiting rfl, rfl⟩, reject_metadata _ _, hframe, fun c => ?_, ?_⟩
      · rw [Slot.reject, dif_neg hlt, henter, if_neg]
        intro he
        rw [← he] at hlt
        have := c.isLt
        simp only [UInt8.toNat_ofNat', Nat.reducePow] at hlt
        omega
      · rw [Slot.reject, dif_neg hlt]
        exact Or.inl rfl
  | ignored hv hi =>
    refine ⟨_, ⟨hwaiting rfl, rfl⟩, rfl, hframe, fun c => ?_, Or.inl rfl⟩
    rw [henter]
    split_ifs with hc
    · obtain rfl := (ofNat_eq_cameraId hv c).1 hc
      rw [Lane.ingest, if_neg hv, if_pos (by simpa [Slot.lane] using hi)]
    · rfl
  | discontinuous hv hi hc =>
    have hlane : (t.lane (chunkCamera chunk hv)).ingest chunk = Lane.rejected := by
      rw [ingest_lane hv hi, if_neg hc]
    exact ⟨_, ⟨hwaiting rfl, rfl⟩, reject_metadata _ _, hframe, ingest_rejected hv henter hlane,
      Or.inr (Or.inl ⟨chunkCamera chunk hv, isInvalid_reject_self hv⟩)⟩
  | extended hv hi hc hlt =>
    exact ⟨_, ⟨hwaiting rfl, rfl⟩, rfl, hframe, ingest_extended hv hi hc hlt appended, Or.inl rfl⟩
  | repeated hv hi hc hge hr =>
    have hlane : (t.lane (chunkCamera chunk hv)).ingest chunk = Lane.rejected := by
      rw [ingest_lane hv hi, if_pos hc, if_neg hge, if_pos hr]
    exact ⟨_, ⟨hwaiting rfl, rfl⟩, reject_metadata _ _, hframe,
      ingest_rejected hv (lane_resized chunk appended) hlane,
      Or.inr (Or.inl ⟨chunkCamera chunk hv, isInvalid_reject_self hv⟩)⟩
  | stored hv hi hc hge hr hlen hn =>
    exact ⟨_, ⟨hn, rfl⟩, rfl, ht.stored_frameSet hv hi hc appended,
      ingest_stored hv hi hc hge hr hlen appended, Or.inr (Or.inr ⟨_, rfl, rfl, rfl⟩)⟩
  | finished hv hi hc hge hr hlen set hn =>
    exact ⟨_, ⟨hn, rfl⟩, rfl, ht.stored_frameSet hv hi hc appended,
      ingest_stored hv hi hc hge hr hlen appended, Or.inr (Or.inr ⟨_, rfl, rfl, rfl⟩)⟩

end Slot

end PrismSdk.Camera
