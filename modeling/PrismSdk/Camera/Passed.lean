import PrismSdk.Library.Reassembly
import PrismSdk.Camera.Invariant

/-! Where delivered bytes come from. The chunks passed for a camera and a frame since
the last reset are the history of that image; an image under way is the split of
its bytes at the end of the history, and a delivered image is one in the history. -/

namespace PrismSdk.Camera

open Library.Reassembly (payload Contiguous contiguous_snoc)

/-- The chunk the call passes for the camera and the frame. -/
def Call.chunkOf (camera : UInt8) (f : UInt32) : Call → Option VideoChunkView
  | .ingest chunk _ _ => if chunk.cameraId = camera ∧ chunk.frameId = f then some chunk else none
  | _ => none

theorem chunkOf_eq_some {f : UInt32} {camera : UInt8} {call : Call} {chunk : VideoChunkView} :
    call.chunkOf camera f = some chunk ↔
      ∃ entered appended, call = .ingest chunk entered appended ∧ chunk.cameraId = camera ∧
        chunk.frameId = f := by
  cases call with
  | ingest other entered appended =>
    simp only [Call.chunkOf, Option.ite_none_right_eq_some, Option.some.injEq, Call.ingest.injEq]
    constructor
    · rintro ⟨⟨hc, hf⟩, rfl⟩
      exact ⟨entered, appended, ⟨rfl, rfl, rfl⟩, hc, hf⟩
    · rintro ⟨_, _, ⟨rfl, rfl, rfl⟩, hc, hf⟩
      exact ⟨⟨hc, hf⟩, rfl⟩
  | addMetadata | expire | reset => simp [Call.chunkOf]

/-- The calls after the last reset. -/
def sinceReset (calls : List Call) : List Call := calls.rtakeWhile (· ≠ .reset)

/-- The chunks the calls pass for the camera and the frame. -/
def sent (calls : List Call) (f : UInt32) (camera : UInt8) : List VideoChunkView :=
  calls.filterMap (Call.chunkOf camera f)

theorem sent_append (xs ys : List Call) (f : UInt32) (camera : UInt8) :
    sent (xs ++ ys) f camera = sent xs f camera ++ sent ys f camera := List.filterMap_append

theorem sent_singleton (call : Call) (f : UInt32) (camera : UInt8) :
    sent [call] f camera = (call.chunkOf camera f).toList := by
  cases h : call.chunkOf camera f <;> simp [sent, h]

/-- The chunks passed for the camera and the frame since the last reset. -/
def passed (calls : List Call) (f : UInt32) (camera : UInt8) : List VideoChunkView :=
  sent (sinceReset calls) f camera

theorem passed_snoc (calls : List Call) {call : Call} (h : call ≠ .reset) (f : UInt32)
    (camera : UInt8) :
    passed (calls ++ [call]) f camera = passed calls f camera ++ (call.chunkOf camera f).toList := by
  rw [passed, sinceReset, List.rtakeWhile_concat_pos _ _ _ (by simpa using h), sent_append,
    sent_singleton]
  rfl

/-- The chunks are a split of `jpeg`: they carry one size and time, each says its own
length, and their offsets are the running sums. -/
structure IsSplit (chunks : List VideoChunkView) (encodedSize : UInt32) (timestampUs : UInt64)
    (jpeg : List UInt8) : Prop where
  uniform : ∀ chunk ∈ chunks, chunk.encodedSize = encodedSize ∧ chunk.timestampUs = timestampUs
  sized : ∀ chunk ∈ chunks, chunk.chunkSize.toNat = chunk.bytes.length
  contiguous : Contiguous (·.chunkOffset.toNat) VideoChunkView.bytes chunks
  bytes : payload VideoChunkView.bytes chunks = jpeg

instance (chunks : List VideoChunkView) (encodedSize : UInt32) (timestampUs : UInt64)
    (jpeg : List UInt8) : Decidable (IsSplit chunks encodedSize timestampUs jpeg) :=
  decidable_of_iff (_ ∧ _ ∧ _ ∧ _)
    ⟨fun h => ⟨h.1, h.2.1, h.2.2.1, h.2.2.2⟩, fun h => ⟨h.1, h.2, h.3, h.4⟩⟩

theorem IsSplit.nil (encodedSize : UInt32) (timestampUs : UInt64) :
    IsSplit [] encodedSize timestampUs [] where
  uniform := by simp
  sized := by simp
  contiguous := trivial
  bytes := rfl

theorem IsSplit.snoc {chunks : List VideoChunkView} {encodedSize : UInt32} {timestampUs : UInt64}
    {jpeg : List UInt8} (h : IsSplit chunks encodedSize timestampUs jpeg) {chunk : VideoChunkView}
    (hsize : chunk.encodedSize = encodedSize) (htime : chunk.timestampUs = timestampUs)
    (hlen : chunk.chunkSize.toNat = chunk.bytes.length)
    (hoff : chunk.chunkOffset.toNat = jpeg.length) :
    IsSplit (chunks ++ [chunk]) encodedSize timestampUs (jpeg ++ chunk.bytes) where
  uniform := by
    intro d hd
    rcases List.mem_append.1 hd with hd | hd
    · exact h.uniform d hd
    · rw [List.mem_singleton.1 hd]
      exact ⟨hsize, htime⟩
  sized := by
    intro d hd
    rcases List.mem_append.1 hd with hd | hd
    · exact h.sized d hd
    · rw [List.mem_singleton.1 hd]
      exact hlen
  contiguous := (contiguous_snoc _ _ _ _).2 ⟨h.contiguous, by rw [h.bytes]; exact hoff⟩
  bytes := by simp [h.bytes]

/-- The chunks are all of one JPEG, in pieces that are not empty. -/
structure JpegSplit (chunks : List VideoChunkView) (encodedSize : UInt32) (timestampUs : UInt64)
    (jpeg : List UInt8) : Prop extends IsSplit chunks encodedSize timestampUs jpeg where
  pieces : ∀ chunk ∈ chunks, chunk.bytes ≠ []
  length_eq : jpeg.length = encodedSize.toNat
  nonempty : jpeg ≠ []
  size_le : jpeg.length ≤ jpegLimit

instance (chunks : List VideoChunkView) (encodedSize : UInt32) (timestampUs : UInt64)
    (jpeg : List UInt8) : Decidable (JpegSplit chunks encodedSize timestampUs jpeg) :=
  decidable_of_iff (IsSplit chunks encodedSize timestampUs jpeg ∧ _ ∧ _ ∧ _ ∧ _)
    ⟨fun h => ⟨h.1, h.2.1, h.2.2.1, h.2.2.2.1, h.2.2.2.2⟩, fun h => ⟨h.1, h.2, h.3, h.4, h.5⟩⟩

/-- Every chunk of the split passes the checks and starts where the ones before end. -/
theorem JpegSplit.next {before after : List VideoChunkView} {chunk : VideoChunkView}
    {encodedSize : UInt32} {timestampUs : UInt64} {jpeg : List UInt8}
    (h : JpegSplit (before ++ chunk :: after) encodedSize timestampUs jpeg)
    (hcamera : chunk.cameraId.toNat < 4) :
    ¬ Assembler.InvalidChunk chunk ∧ chunk.encodedSize = encodedSize ∧
      chunk.timestampUs = timestampUs ∧
      chunk.chunkOffset.toNat = (payload VideoChunkView.bytes before).length := by
  have hmem : chunk ∈ before ++ chunk :: after := by simp
  obtain ⟨hsize, htime⟩ := h.uniform chunk hmem
  have hoff := Library.Reassembly.Contiguous.offset_eq _ _ h.contiguous
  have hlen := h.sized chunk hmem
  have hpos := List.length_pos_iff.2 (h.pieces chunk hmem)
  have htotal := congrArg List.length h.bytes
  rw [Library.Reassembly.payload_append, Library.Reassembly.payload_cons, List.length_append,
    List.length_append, h.length_eq] at htotal
  have hlimit := h.size_le
  rw [h.length_eq] at hlimit
  refine ⟨(Assembler.not_invalidChunk_iff chunk).2 ⟨hcamera, hpos, hlen.symm, ?_, ?_⟩, hsize, htime,
    hoff⟩ <;> rw [hsize] <;> omega

/-- `jpeg` is a whole image of the history: successive chunks of it are a split of
`jpeg`, which has the size they declare. -/
def WholeImage (history : List VideoChunkView) (jpeg : List UInt8) : Prop :=
  ∃ chunks encodedSize timestampUs, chunks <:+: history ∧
    IsSplit chunks encodedSize timestampUs jpeg ∧ jpeg.length = encodedSize.toNat ∧
    encodedSize.toNat ≤ jpegLimit

theorem WholeImage.append {history : List VideoChunkView} {jpeg : List UInt8}
    (h : WholeImage history jpeg) (more : List VideoChunkView) :
    WholeImage (history ++ more) jpeg := by
  obtain ⟨chunks, encodedSize, timestampUs, hinfix, h⟩ := h
  exact ⟨chunks, encodedSize, timestampUs, hinfix.trans (List.prefix_append _ _).isInfix, h⟩

/-- The images of the set come from the histories of their cameras, and the cameras
that are not in the mask have none. -/
def CameraFrameSet.Faithful (set : CameraFrameSet) (histories : UInt8 → List VideoChunkView) :
    Prop :=
  ∀ c : Fin 4,
    (hasCamera set.cameraMask c = true →
      set.jpeg c ≠ [] ∧ WholeImage (histories (UInt8.ofNat c.val)) (set.jpeg c)) ∧
    (hasCamera set.cameraMask c = false → set.jpeg c = [])

namespace Slot

variable {t : Slot} {histories : UInt8 → List VideoChunkView}

/-- The slot's images under way end their histories, and its ready images are in theirs. -/
structure Traced (t : Slot) (histories : UInt8 → List VideoChunkView) : Prop where
  image : ∀ camera, ∀ image ∈ t.image camera, ∃ chunks, chunks <:+ histories camera ∧
    IsSplit chunks image.encodedSize image.timestampUs image.jpeg
  ready : ∀ c, t.isReady c = true →
    WholeImage (histories (UInt8.ofNat c.val)) ((t.frameSet.getD {}).jpeg c)

theorem Traced.empty : Traced {} histories where
  image _ _ h := by cases h
  ready _ h := by cases h

/-- The histories after the chunk is passed. -/
def pass (histories : UInt8 → List VideoChunkView) (chunk : VideoChunkView) :
    UInt8 → List VideoChunkView :=
  Function.update histories chunk.cameraId (histories chunk.cameraId ++ [chunk])

theorem wholeImage_pass {camera : UInt8} {jpeg : List UInt8} (h : WholeImage (histories camera) jpeg)
    (chunk : VideoChunkView) : WholeImage (pass histories chunk camera) jpeg := by
  by_cases hc : camera = chunk.cameraId
  · subst hc
    rw [pass, Function.update_self]
    exact h.append _
  · rwa [pass, Function.update_of_ne hc]

/-- A chunk of a camera without an image under way only makes a history longer. -/
theorem Traced.pass (h : t.Traced histories) {chunk : VideoChunkView}
    (hnone : t.image chunk.cameraId = none) : t.Traced (Slot.pass histories chunk) where
  image camera image himage := by
    have hc : camera ≠ chunk.cameraId := by
      rintro rfl
      rw [hnone] at himage
      cases himage
    rw [Slot.pass, Function.update_of_ne hc]
    exact h.image camera image himage
  ready c hr := wholeImage_pass (h.ready c hr) chunk

theorem Traced.reject (h : t.Traced histories) (camera : UInt8) :
    (t.reject camera).Traced histories := by
  unfold Slot.reject
  split_ifs with hc
  · refine ⟨fun d image himage => ?_, fun c hr => ?_⟩
    · by_cases hd : d = camera
      · subst hd; simp at himage
      · exact h.image d image (by simpa [hd] using himage)
    · rw [isReady_eq] at hr
      simp only [Option.getD_some, PartialFrameSet.reject, hasCamera_and_not_bit, Bool.and_eq_true,
        decide_eq_true_eq] at hr
      have := h.ready c (by rw [isReady_eq]; exact hr.1)
      simpa [PartialFrameSet.reject, Function.update_of_ne (Ne.symm hr.2)] using this
  · exact h

theorem image_reject (ht : ∀ camera, t.image camera ≠ none → camera.toNat < 4) (camera : UInt8) :
    (t.reject camera).image camera = none := by
  unfold Slot.reject
  split_ifs with hc
  · simp
  · exact not_not.1 (mt (ht camera) hc)

/-- The sets built from the ready images of a slot are faithful. -/
theorem Traced.jpeg (h : t.Traced histories) {frame : PartialFrameSet}
    (hf : t.frameSet = some frame) (hinv : frame.Inv) {c : Fin 4} (hr : t.isReady c = true) :
    frame.jpeg c ≠ [] ∧ WholeImage (histories (UInt8.ofNat c.val)) (frame.jpeg c) := by
  have hready := h.ready c hr
  rw [hf] at hready
  refine ⟨(hinv.ready_iff c).1 ?_, hready⟩
  simpa [isReady, hf] using hr

theorem Traced.surviving (h : t.Traced histories) (hinv : ∀ frame ∈ t.frameSet, frame.Inv)
    {f : UInt32} {set : CameraFrameSet} (hs : t.surviving f = some set) :
    set.Faithful histories := by
  obtain ⟨frame, hf, -, rfl⟩ := surviving_eq_some.1 hs
  refine fun c => ⟨fun hc => ?_, fun hc => ?_⟩
  · simp only [Assembler.survivingSet, hasCamera_maskOf] at hc ⊢
    rw [if_pos hc]
    simp only [isComplete, Bool.and_eq_true] at hc
    exact h.jpeg hf (hinv frame hf) hc.2
  · simp only [Assembler.survivingSet, hasCamera_maskOf] at hc ⊢
    rw [if_neg (by rw [hc]; exact Bool.false_ne_true)]

theorem Traced.completed (h : t.Traced histories) (hinv : ∀ frame ∈ t.frameSet, frame.Inv)
    {f : UInt32} {set : CameraFrameSet} (hs : t.completed f = some set) :
    set.Faithful histories := by
  obtain ⟨frame, metadata, hf, -, hcomplete, rfl⟩ := completed_eq_some.1 hs
  intro c
  have hmask : hasCamera (Assembler.completedSet f frame metadata).cameraMask c = t.isReady c := by
    simp only [Assembler.completedSet, ← hcomplete.2.1, isReady, hf, Option.any_some]
  rw [hmask]
  refine ⟨fun hc => h.jpeg hf (hinv frame hf) hc, fun hc => ?_⟩
  rw [isReady, hf, Option.any_some] at hc
  by_contra hne
  rw [((hinv frame hf).ready_iff c).2 hne] at hc
  cases hc

/-- A chunk that continues the image under way extends its split. -/
theorem Traced.append (h : t.Traced histories) (ht : t.Inv) {chunk : VideoChunkView}
    (hv : ¬ Assembler.InvalidChunk chunk) (hc : t.Continues chunk) :
    ∃ chunks, chunks <:+ Slot.pass histories chunk chunk.cameraId ∧
      IsSplit chunks chunk.encodedSize chunk.timestampUs ((t.opened chunk).append chunk).jpeg := by
  obtain ⟨-, -, hlen, -, -⟩ := (Assembler.not_invalidChunk_iff chunk).1 hv
  have hoff : chunk.chunkOffset.toNat = (t.opened chunk).jpeg.length := by
    rw [hc.2.2, opened_received ht]
  rw [Slot.pass, Function.update_self]
  cases himage : t.image chunk.cameraId with
  | none =>
    refine ⟨[chunk], List.suffix_append _ _, ?_⟩
    have hjpeg : (t.opened chunk).jpeg = [] := by rw [opened_of_none himage]
    simpa [ImageBuffer.append, hjpeg] using
      (IsSplit.nil chunk.encodedSize chunk.timestampUs).snoc rfl rfl hlen.symm
        (by rw [hoff, hjpeg])
  | some image =>
    have hopened := opened_of_some himage (ht.image _ image himage)
    obtain ⟨chunks, ⟨before, hsuffix⟩, hsplit⟩ := h.image _ image himage
    refine ⟨chunks ++ [chunk], ⟨before, by rw [← List.append_assoc, hsuffix]⟩, ?_⟩
    rw [← hc.1, ← hc.2.1, hopened]
    rw [hopened] at hoff
    exact hsplit.snoc (by rw [← hc.1, hopened]) (by rw [← hc.2.1, hopened]) hlen.symm hoff

theorem Traced.stored (h : t.Traced histories) (ht : t.Inv) {chunk : VideoChunkView}
    (hv : ¬ Assembler.InvalidChunk chunk) (hc : t.Continues chunk)
    (hge : ¬ ((t.opened chunk).append chunk).received < chunk.encodedSize)
    (appended : TimePoint) :
    (t.stored chunk (chunkCamera chunk hv) appended).Traced (Slot.pass histories chunk) where
  image camera image himage := by
    by_cases hd : camera = chunk.cameraId
    · subst hd; simp [Slot.stored] at himage
    · rw [Slot.pass, Function.update_of_ne hd]
      exact h.image camera image (by simpa [Slot.stored, hd] using himage)
  ready c hr := by
    by_cases hcam : c = chunkCamera chunk hv
    · subst hcam
      obtain ⟨chunks, hsuffix, hsplit⟩ := h.append ht hv hc
      refine ⟨chunks, chunk.encodedSize, chunk.timestampUs, ?_, ?_, ?_, ?_⟩
      · simpa [chunkCamera] using hsuffix.isInfix
      · simpa [Slot.stored, PartialFrameSet.store] using hsplit
      · simpa [Slot.stored, PartialFrameSet.store] using append_whole ht hv hc hge
      · exact ((Assembler.not_invalidChunk_iff chunk).1 hv).2.2.2.2
    · have hready : t.isReady c = true := by
        rw [isReady_eq] at hr ⊢
        simpa [Slot.stored, PartialFrameSet.store, Ne.symm hcam, Slot.resized] using hr
      simpa [Slot.stored, PartialFrameSet.store, Function.update_of_ne hcam, Slot.resized] using
        wholeImage_pass (h.ready c hready) chunk

/-- An admitted chunk joins the history of its camera, and a set it completes is
faithful to the histories. -/
theorem Ingested.traced {chunk : VideoChunkView} {entered appended : TimePoint} {t' : Slot}
    {done : Option CameraFrameSet} (hm : Ingested chunk entered appended t t' done)
    (ht : t.Inv) (h : t.Traced histories) :
    t'.Traced (Slot.pass histories chunk) ∧
      ∀ set ∈ done, set.Faithful (Slot.pass histories chunk) := by
  have henter : (t.enter entered).Traced histories := ⟨h.image, h.ready⟩
  cases hm with
  | invalid | discontinuous =>
    exact ⟨(henter.reject _).pass (image_reject (by exact ht.camera_lt) _), by simp⟩
  | ignored hv hi => exact ⟨henter.pass (ht.rejected _ (chunkCamera chunk hv).isLt hi), by simp⟩
  | extended hv hi hc hlt =>
    obtain ⟨chunks, hsuffix, hsplit⟩ := h.append ht hv hc
    refine ⟨⟨fun camera image himage => ?_, fun c hr => wholeImage_pass (h.ready c hr) chunk⟩,
      by simp⟩
    by_cases hd : camera = chunk.cameraId
    · subst hd
      obtain rfl : (t.opened chunk).append chunk = image := by simpa using himage
      refine ⟨chunks, hsuffix, ?_⟩
      rw [← hc.1, ← hc.2.1] at hsplit
      exact hsplit
    · rw [Slot.pass, Function.update_of_ne hd]
      exact h.image camera image (by simpa [hd] using himage)
  | repeated hv hi hc hge hr =>
    have hresize : Slot.Traced { t with
        started := some appended, frameSet := some (t.resized chunk) } histories := by
      refine ⟨h.image, fun c hr => ?_⟩
      rw [isReady_eq] at hr
      exact h.ready c (by rw [isReady_eq]; exact hr)
    exact ⟨(hresize.reject _).pass (image_reject (by exact ht.camera_lt) _), by simp⟩
  | stored hv hi hc hge => exact ⟨h.stored ht hv hc hge appended, by simp⟩
  | finished hv hi hc hge hr hlen set hn =>
    have hs := h.stored ht hv hc hge appended
    refine ⟨⟨hs.image, fun c hr => by cases hr⟩, ?_⟩
    rintro _ ⟨⟩
    exact hs.completed (ht.stored_frameSet hv hi hc appended) hn

end Slot

namespace Assembler

/-- The chunk is not dropped while an image of its camera and frame is under way:
the only such drop is of a settled frame. -/
def Heeds (s : Assembler) (call : Call) : Prop :=
  match call with
  | .ingest chunk _ _ =>
    s.frameIsSettled chunk.frameId = true → (chunk.cameraId, chunk.frameId) ∉ s.pendingImages
  | _ => True

instance (s : Assembler) (call : Call) : Decidable (s.Heeds call) :=
  match call with
  | .ingest _ _ _ => inferInstanceAs (Decidable (_ → _))
  | .addMetadata _ _ => inferInstanceAs (Decidable True)
  | .expire _ => inferInstanceAs (Decidable True)
  | .reset => inferInstanceAs (Decidable True)

variable {s : Assembler}

/-- A chunk that is not admitted has no image under way, when it is heeded. -/
theorem image_none_of_not_admits (h : s.Inv) {chunk : VideoChunkView} {entered appended : TimePoint}
    (hk : s.Heeds (.ingest chunk entered appended))
    (hna : ¬ s.Admits (.ingest chunk entered appended) chunk.frameId) :
    (s.slot chunk.frameId).image chunk.cameraId = none := by
  by_contra hne
  have hnewest := h.newest chunk.frameId (Or.inr ⟨_, hne⟩)
  have hlate : s.isLate chunk.frameId = false := by simp [isLate, hnewest]
  have hun : s.frameIsSettled chunk.frameId = false := by
    refine Bool.eq_false_iff.2 fun hs => hk hs ?_
    rw [Std.ExtTreeMap.mem_iff_isSome_getElem?, Option.isSome_iff_ne_none]
    exact hne
  have hretired : s.retired chunk.frameId = [] := by
    rw [retired, hnewest]
    simp [frameIdIsNewer_self]
  exact hna ⟨rfl, hlate, by rw [hretired]; exact hun⟩

/-- Every slot is traced to the histories of its frame. -/
def Traced (calls : List Call) (s : Assembler) : Prop := ∀ f, (s.slot f).Traced (passed calls f)

theorem passed_ingest (calls : List Call) (chunk : VideoChunkView) (entered appended : TimePoint) :
    passed (calls ++ [.ingest chunk entered appended]) chunk.frameId =
      Slot.pass (passed calls chunk.frameId) chunk := by
  funext camera
  rw [passed_snoc _ (by simp)]
  by_cases hc : camera = chunk.cameraId
  · subst hc
    simp [Call.chunkOf, Slot.pass]
  · simp [Call.chunkOf, Slot.pass, hc, Ne.symm hc]

/-- A call that passes no chunk of the frame keeps its histories. -/
theorem passed_other (calls : List Call) {call : Call} (hr : call ≠ .reset) {f : UInt32}
    (h : ∀ chunk entered appended, call = .ingest chunk entered appended → chunk.frameId ≠ f) :
    passed (calls ++ [call]) f = passed calls f := by
  funext camera
  rw [passed_snoc _ hr]
  cases call with
  | ingest chunk entered appended => simp [Call.chunkOf, h chunk entered appended rfl]
  | addMetadata | expire | reset => simp [Call.chunkOf]

/-- The histories grow with a call that does not touch the frame's slot. -/
theorem Traced.idle (h : s.Inv) {calls : List Call} (ht : Traced calls s) {call : Call}
    (hk : s.Heeds call) (hr : call ≠ .reset) {f : UInt32} (hna : ¬ s.Admits call f) :
    (s.slot f).Traced (passed (calls ++ [call]) f) := by
  by_cases hc : ∃ chunk entered appended, call = .ingest chunk entered appended ∧ chunk.frameId = f
  · obtain ⟨chunk, entered, appended, rfl, rfl⟩ := hc
    rw [passed_ingest]
    exact (ht _).pass (image_none_of_not_admits h hk hna)
  · rw [passed_other calls hr fun chunk entered appended he hf =>
      hc ⟨chunk, entered, appended, he, hf⟩]
    exact ht f

/-- One move keeps the slot traced and delivers faithful sets. -/
theorem Traced.move (h : s.Inv) {calls : List Call} (ht : Traced calls s) {call : Call}
    (hk : s.Heeds call) {f : UInt32} {t' : Slot} {sets : List CameraFrameSet} {rep : Bool}
    (hm : Move s call f t' sets rep) :
    t'.Traced (passed (calls ++ [call]) f) ∧
      ∀ set ∈ sets, set.Faithful (passed (calls ++ [call]) f) := by
  cases hm with
  | keep hna hr => exact ⟨ht.idle h hk hr hna, by simp⟩
  | discarded _ hna hr =>
    refine ⟨.empty, fun set hset => ?_⟩
    rw [Option.mem_toList] at hset
    exact (ht.idle h hk hr hna).surviving (h.slot f).frameSet hset
  | ingested chunk entered appended _ _ hcall hg _ hmove =>
    subst hcall hg
    rw [passed_ingest]
    have := hmove.traced (h.slot _) (ht _)
    exact ⟨this.1, fun set hset => this.2 set (Option.mem_toList.1 hset)⟩
  | described metadata now hcall =>
    subst hcall
    rw [passed_other calls (by simp) (by simp)]
    exact ⟨⟨(ht f).image, (ht f).ready⟩, by simp⟩
  | finished metadata now hcall _ _ set hn =>
    subst hcall
    rw [passed_other calls (by simp) (by simp)]
    have hs : ((s.slot f).described metadata now).Traced (passed calls f) :=
      ⟨(ht f).image, (ht f).ready⟩
    refine ⟨⟨(ht f).image, fun c hr => by cases hr⟩, ?_⟩
    rintro _ hset
    rw [List.mem_singleton.1 hset]
    exact hs.completed (h.slot f).frameSet hn
  | evicted hna hr =>
    have := ht.idle h hk hr hna
    exact ⟨⟨this.image, this.ready⟩, by simp⟩
  | cleared => exact ⟨.empty, by simp⟩

/-- One call keeps the state traced and delivers faithful sets. -/
theorem Traced.step (h : s.Inv) {calls : List Call} (ht : Traced calls s) {call : Call}
    (hk : s.Heeds call) :
    Traced (calls ++ [call]) (assembler.step s call).1 ∧
      ∀ set ∈ (assembler.step s call).2.delivered,
        set.Faithful (passed (calls ++ [call]) set.frameId) := by
  refine ⟨fun f => (ht.move h hk (step_move h.history call f)).1, fun set hset => ?_⟩
  refine (ht.move h hk (step_move h.history call set.frameId)).2 set ?_
  simp [hset]

theorem traced_exec (calls : List Call) (hk : assembler.Along Heeds assembler.init calls) :
    Traced calls (assembler.exec assembler.init calls) := by
  refine assembler.historyAlong (R := Traced) (fun f => ?_) (fun calls call hk ht => ?_) calls hk
  · have : assembler.init.slot f = {} := by ext <;> simp [assembler, Assembler.slot]
    rw [this]
    exact .empty
  · exact (ht.step (inv_exec calls) hk).1

end Assembler

/-- In a run that heeds every chunk of an image under way, a delivered set has for
each of its cameras a whole image of what was passed for it since the last reset. -/
theorem delivered_faithful (calls : List Call) (call : Call)
    (hk : assembler.Along Assembler.Heeds assembler.init (calls ++ [call])) :
    ∀ set ∈ (assembler.step (assembler.exec assembler.init calls) call).2.delivered,
      set.Faithful (passed (calls ++ [call]) set.frameId) := by
  rw [Library.System.along_snoc] at hk
  exact ((Assembler.traced_exec calls hk.1).step (Assembler.inv_exec calls) hk.2).2

/-- Camera 0 of frame 1 in two pieces, with another camera damaged. -/
def twoPieces : List Call :=
  [.ingest (piece 1 0 0 3 [1, 2]) 0 0, .ingest (piece 1 1 5 9 [7]) 1 1,
    .ingest (piece 1 0 2 3 [3]) 2 2]

theorem twoPieces_faithful :
    ∃ set ∈ (assembler.step (assembler.exec assembler.init twoPieces)
        (.expire (2 * oneSecond))).2.delivered,
      set.Faithful (passed (twoPieces ++ [.expire (2 * oneSecond)]) set.frameId) := by
  have hne : (assembler.step (assembler.exec assembler.init twoPieces)
      (.expire (2 * oneSecond))).2.delivered ≠ [] := by
    decide +kernel
  obtain ⟨set, hset⟩ := List.exists_mem_of_ne_nil _ hne
  exact ⟨set, hset, delivered_faithful _ _ (by decide +kernel) set hset⟩

/-- Frame 1 completes without camera 1, whose image was under way. The next chunk of
that image is dropped, the history forgets frame 1, and the chunk after it is taken. -/
def staleRun : List Call :=
  [.ingest (piece 1 1 0 4 [1, 2]) 0 0, .ingest (wholeChunk 1 0 [3]) 0 0,
    .addMetadata (soloMeta 1 0) 0, .ingest (piece 1 1 0 4 [9, 9]) 0 0] ++ flood 0 ++
    [.expire oneSecond, .ingest (piece 1 1 2 4 [8, 8]) oneSecond oneSecond]

/-- Its expiry delivers `[1, 2, 8, 8]`, which no successive chunks make up. -/
theorem staleRun_not_faithful :
    ∃ set ∈ (assembler.step (assembler.exec assembler.init staleRun)
        (.expire (2 * oneSecond))).2.delivered,
      ¬ set.Faithful (passed (staleRun ++ [.expire (2 * oneSecond)]) set.frameId) := by
  have hset : (assembler.step (assembler.exec assembler.init staleRun)
      (.expire (2 * oneSecond))).2.delivered.any (fun set => set.frameId = 1 ∧
        hasCamera set.cameraMask 1 = true ∧ set.jpeg 1 = [1, 2, 8, 8]) = true := by
    decide +kernel
  obtain ⟨set, hmem, hset⟩ := List.any_eq_true.1 hset
  obtain ⟨hid, hcam, hjpeg⟩ := of_decide_eq_true hset
  refine ⟨set, hmem, fun hfaithful => ?_⟩
  obtain ⟨-, chunks, size, time, hinfix, hsplit, -⟩ := (hfaithful 1).1 hcam
  have hnone : ∀ chunks ∈ (passed (staleRun ++ [.expire (2 * oneSecond)]) 1 1).tails.flatMap
      List.inits, payload VideoChunkView.bytes chunks = [1, 2, 8, 8] →
        ¬ Contiguous (·.chunkOffset.toNat) VideoChunkView.bytes chunks := by
    decide +kernel
  obtain ⟨tail, hstart, hsuffix⟩ := List.infix_iff_prefix_suffix.1 hinfix
  rw [hid] at hsuffix
  refine hnone chunks (List.mem_flatMap.2 ⟨tail, (List.mem_tails _ _).2 hsuffix,
    (List.mem_inits _ _).2 hstart⟩) ?_ hsplit.contiguous
  rw [hsplit.bytes, hjpeg]

end PrismSdk.Camera
