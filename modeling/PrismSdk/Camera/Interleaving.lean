import PrismSdk.Camera.Credit
import PrismSdk.Camera.Lane

/-! Order independence. The chunks of a frame's cameras and its metadata may arrive
interleaved in any way: no call but the last completes the frame, and the set does
not depend on the order. -/

namespace PrismSdk.Camera

open Library.Reassembly (payload)

def Call.isMetadata : Call → Bool
  | .addMetadata _ _ => true
  | _ => false

/-- One frame as the device sends it: the declared cameras, and the chunks of each. -/
structure Capture where
  frameId : UInt32
  metadata : VideoMeta
  cameras : Fin 4 → Bool
  width : UInt32
  height : UInt32
  encodedSize : Fin 4 → UInt32
  timestampUs : Fin 4 → UInt64
  jpeg : Fin 4 → List UInt8
  chunks : Fin 4 → List VideoChunkView
  nonempty : ∃ c, cameras c = true
  describes : metadata.hostFrameId = frameId
  declares : (metadata.valid = true ∧ metadata.cameras = 4 ∧
      ∀ c, metadata.exposureUs c ≠ 0 ↔ cameras c = true) ∨
    (¬ (metadata.valid = true ∧ metadata.cameras = 4) ∧ ∀ c, cameras c = true)
  split : ∀ c, cameras c = true → JpegSplit (chunks c) (encodedSize c) (timestampUs c) (jpeg c)
  absent : ∀ c, cameras c = false → chunks c = []
  header : ∀ c, ∀ chunk ∈ chunks c, chunk.cameraId = UInt8.ofNat c.val ∧
    chunk.frameId = frameId ∧ chunk.width = width ∧ chunk.height = height

namespace Capture

variable (k : Capture)

/-- The set the frame completes to. -/
def set : CameraFrameSet where
  frameId := k.frameId
  timestampUs := if k.metadata.valid ∧ k.metadata.triggerTimeNs ≠ 0 then
    k.metadata.triggerTimeNs / 1000 else 0
  jpeg := fun c => if k.cameras c then k.jpeg c else []
  metadata := k.metadata
  cameraMask := maskOf k.cameras
  width := k.width
  height := k.height

/-- The calls are an interleaving of what is left of the chunk sequences, after
`before`, and of the metadata unless it is `described` already. -/
structure Remains (before : Fin 4 → List VideoChunkView) (described : Bool) (calls : List Call) :
    Prop where
  only : ∀ call ∈ calls, (∃ c : Fin 4, call.chunkOf (UInt8.ofNat c.val) k.frameId ≠ none) ∨
    ∃ now, call = .addMetadata k.metadata now
  chunks : ∀ c : Fin 4, before c ++ sent calls k.frameId (UInt8.ofNat c.val) = k.chunks c
  once : (calls.filter Call.isMetadata).length = if described then 0 else 1

/-- The calls interleave the chunk sequences of the cameras and one `addMetadata`. -/
def Interleaving (calls : List Call) : Prop := k.Remains (fun _ => []) false calls

theorem expectedMask_eq : Assembler.expectedMask k.metadata = maskOf k.cameras := by
  unfold Assembler.expectedMask
  rcases k.declares with ⟨hv, hc, h⟩ | ⟨hv, h⟩
  · rw [if_pos ⟨hv, hc⟩]
    congr 1
    funext c
    cases hcam : k.cameras c with
    | true => exact decide_eq_true ((h c).2 hcam)
    | false =>
      refine decide_eq_false fun hne => ?_
      rw [(h c).1 hne] at hcam
      cases hcam
  · rw [if_neg hv, show k.cameras = fun _ => true from funext h]
    decide

theorem expectedMask_ne_zero : Assembler.expectedMask k.metadata ≠ 0 := by
  obtain ⟨c, hc⟩ := k.nonempty
  rw [expectedMask_eq]
  intro h0
  have := hasCamera_maskOf k.cameras c
  rw [h0, hasCamera_zero, hc] at this
  cases this

/-- The lane of a camera that `before` was sent of is ready exactly at the end. -/
theorem holding_before {before after : List VideoChunkView} {c : Fin 4}
    (h : before ++ after = k.chunks c) :
    Lane.holding (k.encodedSize c) (k.timestampUs c) (payload VideoChunkView.bytes before) =
        { ready := true, jpeg := k.jpeg c } ∧ k.cameras c = true ∧ after = [] ∨
      (Lane.holding (k.encodedSize c) (k.timestampUs c)
        (payload VideoChunkView.bytes before)).ready = false ∧
        (k.cameras c = true → after ≠ []) := by
  cases hcam : k.cameras c with
  | false =>
    rw [k.absent c hcam, List.append_eq_nil_iff] at h
    rw [h.1]
    exact Or.inr ⟨rfl, by simp⟩
  | true =>
    have hsplit := k.split c hcam
    rw [← h] at hsplit
    cases after with
    | nil =>
      rw [List.append_nil] at hsplit
      exact Or.inl ⟨Lane.holding_all hsplit, rfl, rfl⟩
    | cons chunk after =>
      refine Or.inr ⟨?_, by simp⟩
      have hbytes := congrArg List.length hsplit.bytes
      have hpos := List.length_pos_iff.2 (hsplit.pieces chunk (by simp))
      rw [Library.Reassembly.payload_append, Library.Reassembly.payload_cons, List.length_append,
        List.length_append, hsplit.length_eq] at hbytes
      by_cases hnil : payload VideoChunkView.bytes before = []
      · rw [hnil]
        rfl
      · rw [Lane.holding_ready _ hnil]
        exact decide_eq_false (by omega)

/-- With every chunk arrived and the metadata stored, the frame completes to the set. -/
theorem complete_of_lanes {t : Slot} {before after : Fin 4 → List VideoChunkView}
    (hchunks : ∀ c, before c ++ after c = k.chunks c)
    (hlane : ∀ c, t.lane c = Lane.holding (k.encodedSize c) (k.timestampUs c)
      (payload VideoChunkView.bytes (before c)))
    (hmetadata : t.metadata = some k.metadata) (hinv : ∀ frame ∈ t.frameSet, frame.Inv)
    (hsize : ∀ frame ∈ t.frameSet, frame.width = k.width ∧ frame.height = k.height)
    (hall : ∀ c, after c = []) : t.completed k.frameId = some k.set := by
  have hlanes := fun c => k.holding_before (hchunks c)
  have hready : ∀ c, t.isReady c = k.cameras c := by
    intro c
    have hl : t.isReady c = (t.lane c).ready := rfl
    rw [hl, hlane]
    rcases hlanes c with ⟨hl, hcam, -⟩ | ⟨hl, hcam⟩
    · rw [hl, hcam]
    · rw [hl]
      exact (Bool.eq_false_iff.2 fun hc => hcam hc (hall c)).symm
  obtain ⟨c₀, hc₀⟩ := k.nonempty
  obtain ⟨frame, hf⟩ : ∃ frame, t.frameSet = some frame := by
    refine Option.ne_none_iff_exists'.1 fun hnone => ?_
    have := hready c₀
    rw [hc₀, Slot.isReady, hnone] at this
    cases this
  have hmask : ∀ c, hasCamera frame.readyMask c = k.cameras c := fun c => by
    rw [← hready c, Slot.isReady, hf, Option.any_some]
  have hframe := hinv frame hf
  refine Slot.completed_eq_some.2
    ⟨frame, k.metadata, hf, hmetadata, ⟨k.expectedMask_ne_zero, ?_, ?_⟩, ?_⟩
  · rw [k.expectedMask_eq]
    apply mask_ext hframe.ready_lt (maskOf_lt _)
    intro c
    rw [hmask, hasCamera_maskOf]
  · apply (mask_eq_zero hframe.invalid_lt).2
    intro c
    have hl : (t.lane c).invalid = hasCamera frame.invalidMask c := by
      simp [Slot.lane, Slot.isInvalid, hf]
    rw [← hl, hlane, Lane.holding_invalid]
  · have hjpeg : frame.jpeg = fun c => if k.cameras c then k.jpeg c else [] := by
      funext c
      have hl : (t.lane c).jpeg = frame.jpeg c := by simp [Slot.lane, hf]
      rcases hlanes c with ⟨hheld, hcam, -⟩ | ⟨-, hcam⟩
      · rw [← hl, hlane, hheld, if_pos hcam]
      · have hfalse : k.cameras c = false := Bool.eq_false_iff.2 fun hc => hcam hc (hall c)
        rw [hfalse, if_neg Bool.false_ne_true]
        by_contra hne
        have hset := (hframe.ready_iff c).2 hne
        rw [hmask, hfalse] at hset
        cases hset
    rw [set, Assembler.completedSet, hjpeg, k.expectedMask_eq, (hsize frame hf).1,
      (hsize frame hf).2]

/-- A frame that is complete has had every chunk. -/
theorem arrived_of_complete {t : Slot} {before after : Fin 4 → List VideoChunkView}
    (hchunks : ∀ c, before c ++ after c = k.chunks c)
    (hlane : ∀ c, t.lane c = Lane.holding (k.encodedSize c) (k.timestampUs c)
      (payload VideoChunkView.bytes (before c)))
    {frame : PartialFrameSet} (hf : t.frameSet = some frame)
    (hready : frame.readyMask = Assembler.expectedMask k.metadata) : ∀ c, after c = [] := by
  intro c
  rcases k.holding_before (hchunks c) with ⟨-, -, hnil⟩ | ⟨hl, hcam⟩
  · exact hnil
  · have hfalse : k.cameras c = false := by
      rw [← hasCamera_maskOf k.cameras c, ← k.expectedMask_eq, ← hready, ← hl, ← hlane]
      simp [Slot.lane, Slot.isReady, hf]
    have hnone := hchunks c
    rw [k.absent c hfalse, List.append_eq_nil_iff] at hnone
    exact hnone.2

/-- A slot whose lanes hold `before` completes exactly when nothing is left to come. -/
theorem completed_of_lanes {t : Slot} {before after : Fin 4 → List VideoChunkView} {described : Bool}
    (hchunks : ∀ c, before c ++ after c = k.chunks c)
    (hlane : ∀ c, t.lane c = Lane.holding (k.encodedSize c) (k.timestampUs c)
      (payload VideoChunkView.bytes (before c)))
    (hmetadata : t.metadata = if described then some k.metadata else none)
    (hinv : ∀ frame ∈ t.frameSet, frame.Inv)
    (hsize : ∀ frame ∈ t.frameSet, frame.width = k.width ∧ frame.height = k.height) :
    t.completed k.frameId =
      if described = true ∧ ∀ c, after c = [] then some k.set else none := by
  split_ifs with h
  · obtain ⟨hdescribed, hall⟩ := h
    rw [if_pos hdescribed] at hmetadata
    exact k.complete_of_lanes hchunks hlane hmetadata hinv hsize hall
  · apply Slot.completed_eq_none.2
    rintro ⟨frame, metadata, hf, hm, hc⟩
    have hdescribed : described = true ∧ metadata = k.metadata := by
      rw [hm] at hmetadata
      cases described with
      | false => cases hmetadata
      | true => exact ⟨rfl, Option.some.inj hmetadata⟩
    obtain ⟨rfl, rfl⟩ := hdescribed
    exact h ⟨rfl, k.arrived_of_complete hchunks hlane hf hc.2.1⟩

/-- The state between two calls of the interleaving, before the last one. -/
structure InFlight (s : Assembler) (before : Fin 4 → List VideoChunkView) (described : Bool) :
    Prop where
  inv : s.Inv
  lane : ∀ c, (s.slot k.frameId).lane c = Lane.holding (k.encodedSize c) (k.timestampUs c)
    (payload VideoChunkView.bytes (before c))
  metadata : (s.slot k.frameId).metadata = if described then some k.metadata else none
  size : ∀ frame ∈ (s.slot k.frameId).frameSet, frame.width = k.width ∧ frame.height = k.height
  current : s.isLate k.frameId = false
  unsettled : s.frameIsSettled k.frameId = false
  room : described = false → s.metadataByFrame.size ≤ 15

variable {k} {s : Assembler} {before after : Fin 4 → List VideoChunkView} {described : Bool}

theorem isSettled_of_started (h : s.Inv) {f : UInt32} (hf : (s.slot f).started ≠ none) :
    s.frameIsSettled f = false := by
  rw [Bool.eq_false_iff, Ne, h.history.frameIsSettled]
  exact fun hm => hf (h.settled f hm)

/-- The lanes after a chunk of one camera. -/
theorem lanes_ingested {t t₁ : Slot} {c : Fin 4} {chunk : VideoChunkView}
    (hcamera : chunk.cameraId = UInt8.ofNat c.val)
    (hchunks : ∀ d, Function.update before c (before c ++ [chunk]) d ++ after d = k.chunks d)
    (hlane : ∀ d, t.lane d = Lane.holding (k.encodedSize d) (k.timestampUs d)
      (payload VideoChunkView.bytes (before d)))
    (hstep : ∀ d, t₁.lane d =
      if UInt8.ofNat d.val = chunk.cameraId then (t.lane d).ingest chunk else t.lane d) (d : Fin 4) :
    t₁.lane d = Lane.holding (k.encodedSize d) (k.timestampUs d)
      (payload VideoChunkView.bytes (Function.update before c (before c ++ [chunk]) d)) := by
  rw [hstep, hcamera, hlane]
  by_cases hd : d = c
  · subst hd
    have hall := hchunks d
    rw [Function.update_self, List.append_assoc, List.singleton_append] at hall
    have hcam : k.cameras d = true := by
      by_contra hcam
      rw [k.absent d (Bool.eq_false_iff.2 hcam)] at hall
      simp at hall
    have hsplit := k.split d hcam
    rw [← hall] at hsplit
    rw [if_pos rfl, Function.update_self]
    refine Lane.ingest_next hsplit ?_
    rw [hcamera]
    have := d.isLt
    simp only [UInt8.toNat_ofNat', Nat.reducePow]
    omega
  · rw [if_neg fun he => hd (Slot.ofNat_inj he), Function.update_of_ne hd]

/-- A chunk of one camera: the frame completes if it is all that was left. -/
theorem InFlight.ingest (h : k.InFlight s before described) {c : Fin 4} {chunk : VideoChunkView}
    (entered appended : TimePoint) (hcamera : chunk.cameraId = UInt8.ofNat c.val)
    (hframe : chunk.frameId = k.frameId)
    (hchunks : ∀ d, Function.update before c (before c ++ [chunk]) d ++ after d = k.chunks d) :
    (s.ingest chunk entered appended).2.completed =
        (if described = true ∧ ∀ d, after d = [] then some k.set else none) ∧
      (¬ (described = true ∧ ∀ d, after d = []) →
        k.InFlight (s.ingest chunk entered appended).1
          (Function.update before c (before c ++ [chunk])) described) := by
  have hlate : s.isLate chunk.frameId = false := hframe ▸ h.current
  have hmove := s.ingested_ingest
    (Assembler.admits_ingest h.inv.history hlate (hframe ▸ h.unsettled) entered appended)
  rw [hframe] at hmove
  obtain ⟨t₁, ⟨hdone, ht'⟩, hmetadata, hinv, hstep, hframeSet⟩ := hmove.lane (h.inv.slot _)
  have hlane := lanes_ingested hcamera hchunks h.lane hstep
  have hmem : chunk ∈ k.chunks c := by
    rw [← hchunks c, Function.update_self]
    simp
  have hsize : ∀ frame ∈ t₁.frameSet, frame.width = k.width ∧ frame.height = k.height := by
    intro frame hf
    rcases hframeSet with he | ⟨d, hd⟩ | ⟨other, he, hw, hh⟩
    · exact h.size frame (he ▸ hf)
    · have hvalid : t₁.isInvalid d = (t₁.lane d).invalid := rfl
      rw [hvalid, hlane, Lane.holding_invalid] at hd
      cases hd
    · obtain rfl := Option.some.inj (he.symm.trans hf)
      rw [hw, hh]
      exact (k.header c chunk hmem).2.2
  have hcompleted := k.completed_of_lanes hchunks hlane (hmetadata.trans h.metadata) hinv hsize
  rw [hframe] at hdone
  refine ⟨hdone.symm.trans hcompleted, fun hmore => ?_⟩
  rw [if_neg hmore] at hcompleted
  rw [hcompleted] at hdone
  rw [← hdone, Option.isSome_none, if_neg Bool.false_ne_true] at ht'
  have htracked : ((s.ingest chunk entered appended).1.slot k.frameId).started ≠ none :=
    (Assembler.Ingested.started hmove).resolve_right (by rw [← hdone]; exact Bool.false_ne_true)
  have hinv' : (s.ingest chunk entered appended).1.Inv :=
    h.inv.step (.ingest chunk entered appended)
  have hnewest : (s.ingest chunk entered appended).1.newestFrameId = some k.frameId := by
    have := Assembler.step_newest (s := s) (.ingest chunk entered appended)
    dsimp only at this
    rwa [hlate, if_neg Bool.false_ne_true, hframe] at this
  refine ⟨hinv', fun d => ?_, ?_, ?_, ?_, isSettled_of_started hinv' htracked, fun hd => ?_⟩
  · rw [ht', hlane]
  · rw [ht', hmetadata, h.metadata]
  · rw [ht']
    exact hsize
  · simp [Assembler.isLate, hnewest]
  · exact (Assembler.metadata_ingest s chunk entered appended).trans (h.room hd)

/-- The metadata: the frame completes if all chunks were sent. -/
theorem InFlight.addMetadata (h : k.InFlight s before false) (now : TimePoint)
    (hchunks : ∀ d, before d ++ after d = k.chunks d) :
    (s.addMetadata k.metadata now).2 = (if ∀ d, after d = [] then some k.set else none) ∧
      (¬ (∀ d, after d = []) →
        k.InFlight (s.addMetadata k.metadata now).1 before true) := by
  have hlate : s.metadataIsLate k.metadata.hostFrameId = false := by
    rw [k.describes, Assembler.metadataIsLate, h.unsettled]
    exact h.current
  have hslot : k.metadata.hostFrameId = k.frameId := k.describes
  obtain ⟨hdone, -, hnewest, -⟩ := s.addMetadata_spec hlate now
  have hcompleted : ((s.slot k.frameId).described k.metadata now).completed k.frameId =
      if true = true ∧ ∀ d, after d = [] then some k.set else none := by
    refine k.completed_of_lanes hchunks (fun d => ?_) ?_ (h.inv.slot k.frameId).frameSet h.size
    · exact h.lane d
    · rfl
  simp only [true_and] at hcompleted
  rw [hslot, hcompleted] at hdone
  refine ⟨hdone, fun hmore => ?_⟩
  rw [if_neg hmore] at hcompleted
  have hs := s.addMetadata_of_room hlate now (h.room rfl) (by rw [hslot]; exact hcompleted)
  rw [hslot] at hs
  have hinv' : (s.addMetadata k.metadata now).1.Inv := h.inv.step (.addMetadata k.metadata now)
  refine ⟨hinv', fun d => ?_, ?_, ?_, ?_, isSettled_of_started hinv' ?_, fun hd => ?_⟩
  · rw [hs]
    exact h.lane d
  · rw [hs]
    rfl
  · rw [hs]
    exact h.size
  · rw [Assembler.isLate, hnewest]
    exact h.current
  · rw [hs]
    exact Option.some_ne_none _
  · cases hd

/-- What the first call of an interleaving can be, and what remains after it. -/
theorem Remains.cons {call : Call} {calls : List Call}
    (h : k.Remains before described (call :: calls)) :
    (∃ c chunk entered appended, call = .ingest chunk entered appended ∧
      chunk.cameraId = UInt8.ofNat c.val ∧ chunk.frameId = k.frameId ∧
      k.Remains (Function.update before c (before c ++ [chunk])) described calls) ∨
    ∃ now, call = .addMetadata k.metadata now ∧ described = false ∧ k.Remains before true calls := by
  have honly : ∀ other ∈ calls, (∃ c : Fin 4, other.chunkOf (UInt8.ofNat c.val) k.frameId ≠ none) ∨
      ∃ now, other = .addMetadata k.metadata now := fun other hother =>
    h.only other (List.mem_cons_of_mem _ hother)
  rcases h.only call List.mem_cons_self with ⟨c, hc⟩ | ⟨now, rfl⟩
  · obtain ⟨chunk, hchunk⟩ := Option.ne_none_iff_exists'.1 hc
    obtain ⟨entered, appended, rfl, hcamera, hframe⟩ := chunkOf_eq_some.1 hchunk
    refine Or.inl ⟨c, chunk, entered, appended, rfl, hcamera, hframe, honly, fun d => ?_, ?_⟩
    · rw [← h.chunks d]
      by_cases hd : d = c
      · subst hd
        simp [sent, hchunk]
      · have hnone : (Call.ingest chunk entered appended).chunkOf (UInt8.ofNat d.val) k.frameId =
            none := by
          simp only [Call.chunkOf, hcamera]
          exact if_neg fun he => hd (Slot.ofNat_inj he.1).symm
        simp [sent, hnone, Function.update_of_ne hd]
    · simpa [Call.isMetadata] using h.once
  · have honce := h.once
    simp only [List.filter_cons, Call.isMetadata, if_true, List.length_cons] at honce
    cases described with
    | true => simp at honce
    | false =>
      refine Or.inr ⟨now, rfl, rfl, honly, fun d => ?_, ?_⟩
      · have hnone : (Call.addMetadata k.metadata now).chunkOf (UInt8.ofNat d.val) k.frameId =
            none := rfl
        simpa [sent, hnone] using h.chunks d
      · simpa using honce

/-- When no calls remain, everything was sent. -/
theorem Remains.nil_iff {calls : List Call} (h : k.Remains before described calls) :
    calls = [] ↔ described = true ∧ ∀ d : Fin 4, sent calls k.frameId (UInt8.ofNat d.val) = [] := by
  constructor
  · rintro rfl
    have := h.once
    cases described with
    | true => exact ⟨rfl, fun _ => rfl⟩
    | false => simp at this
  · rintro ⟨rfl, hnone⟩
    cases calls with
    | nil => rfl
    | cons call calls =>
      rcases h.cons with ⟨c, chunk, entered, appended, rfl, hcamera, hframe, -⟩ | ⟨now, -, hfalse, -⟩
      · have := hnone c
        simp [sent, Call.chunkOf, hcamera, hframe] at this
      · cases hfalse

/-- Exactly the last of the remaining calls completes the frame. -/
theorem InFlight.outputs {calls : List Call} (hne : calls ≠ []) (h : k.InFlight s before described)
    (hr : k.Remains before described calls) :
    (assembler.outputs s calls).map (·.completed) =
      List.replicate (calls.length - 1) none ++ [some k.set] := by
  induction calls generalizing s before described with
  | nil => exact absurd rfl hne
  | cons call calls ih =>
    have hstep : ∃ before' described', k.Remains before' described' calls ∧
        (assembler.step s call).2.completed = (if calls = [] then some k.set else none) ∧
        (calls ≠ [] → k.InFlight (assembler.step s call).1 before' described') := by
      rcases hr.cons with ⟨c, chunk, entered, appended, rfl, hcamera, hframe, hr'⟩ |
        ⟨now, rfl, rfl, hr'⟩
      · have := h.ingest entered appended hcamera hframe hr'.chunks
        simp only [← hr'.nil_iff] at this
        exact ⟨_, _, hr', this.1, this.2⟩
      · have := h.addMetadata now hr'.chunks
        have hnil : (∀ d : Fin 4, sent calls k.frameId (UInt8.ofNat d.val) = []) ↔ calls = [] := by
          rw [hr'.nil_iff]
          simp
        simp only [hnil] at this
        exact ⟨_, _, hr', this.1, this.2⟩
    obtain ⟨before', described', hr', hdone, hnext⟩ := hstep
    rw [Library.System.outputs_cons, List.map_cons, hdone]
    cases calls with
    | nil => rfl
    | cons other calls =>
      rw [if_neg (List.cons_ne_nil _ _), ih (List.cons_ne_nil _ _) (hnext (List.cons_ne_nil _ _)) hr']
      rfl

end Capture

/-- Whatever the order, exactly the last call of an interleaving of the cameras' chunks
and the metadata completes the frame, with one and the same set. -/
theorem interleaving_completes (s : Assembler) (hs : assembler.Reachable s) (k : Capture)
    (hroom : s.metadataByFrame.size ≤ 15) (htracked : k.frameId ∉ s.startedAt)
    (hsettled : s.frameIsSettled k.frameId = false)
    (hnewer : ∀ newest ∈ s.newestFrameId, frameIdIsNewer k.frameId newest = true)
    (calls : List Call) (hcalls : k.Interleaving calls) :
    calls ≠ [] ∧ (assembler.outputs s calls).map (·.completed) =
      List.replicate (calls.length - 1) none ++ [some k.set] := by
  have h := Assembler.inv_reachable hs
  have hempty : s.slot k.frameId = {} := by
    have hstarted := not_not.1 (mt Assembler.mem_startedAt.2 htracked)
    have hgone := (h.slot k.frameId).tracked hstarted
    refine Slot.ext hstarted hgone.1 hgone.2 (funext fun camera => ?_)
    by_contra himage
    have hself := hnewer _ (h.newest k.frameId (Or.inr ⟨camera, himage⟩))
    rw [Assembler.frameIdIsNewer_self] at hself
    cases hself
  have hlate : s.isLate k.frameId = false := by
    cases hn : s.newestFrameId with
    | none => simp [Assembler.isLate, hn]
    | some newest => simp [Assembler.isLate, hn, hnewer newest hn]
  have hstart : k.InFlight s (fun _ => []) false := by
    refine ⟨h, fun d => ?_, ?_, ?_, hlate, hsettled, fun _ => hroom⟩
    · rw [hempty]
      rfl
    · rw [hempty]
      rfl
    · rw [hempty]
      rintro _ ⟨⟩
  have hne : calls ≠ [] := by
    rintro rfl
    have := hcalls.once
    simp at this
  exact ⟨hne, hstart.outputs hne hcalls⟩

/-- Frame 7 of cameras 0 and 2, the first in two pieces. -/
def twoCameras : Capture where
  frameId := 7
  metadata := { valid := true, cameras := 4, hostFrameId := 7, triggerTimeNs := 5000000
                exposureUs := fun c => if c.val = 0 ∨ c.val = 2 then 1000 else 0 }
  cameras := fun c => c.val = 0 ∨ c.val = 2
  width := 0
  height := 0
  encodedSize := fun c => if c.val = 0 then 3 else 1
  timestampUs := fun _ => 0
  jpeg := fun c => if c.val = 0 then [1, 2, 3] else [9]
  chunks := fun c => if c.val = 0 then [piece 7 0 0 3 [1, 2], piece 7 0 2 3 [3]]
    else if c.val = 2 then [wholeChunk 7 2 [9]] else []
  nonempty := by decide
  describes := rfl
  declares := by decide
  split := by decide +kernel
  absent := by decide +kernel
  header := by decide +kernel

/-- The pieces of camera 0 around the other camera and the metadata, while an older
frame is under way. -/
theorem twoCameras_completes :
    let calls : List Call := [.ingest (piece 7 0 0 3 [1, 2]) 1 1,
      .ingest (wholeChunk 7 2 [9]) 2 2, .addMetadata twoCameras.metadata 3,
      .ingest (piece 7 0 2 3 [3]) 4 4]
    calls ≠ [] ∧ (assembler.outputs (assembler.exec assembler.init
        [.ingest (piece 5 1 0 9 [4]) 0 0]) calls).map (·.completed) =
      List.replicate (calls.length - 1) none ++ [some twoCameras.set] := by
  intro calls
  have hnewest : (assembler.exec assembler.init
      [.ingest (piece 5 1 0 9 [4]) 0 0]).newestFrameId = some 5 := by
    decide +kernel
  refine interleaving_completes _ (assembler.reachable_exec _) twoCameras (by decide +kernel)
    (by decide +kernel) (by decide +kernel) ?_ calls ⟨?_, by decide +kernel, by decide +kernel⟩
  · rw [hnewest]
    rintro _ ⟨⟩
    decide +kernel
  · simp only [calls, List.forall_mem_cons]
    exact ⟨Or.inl ⟨0, by decide +kernel⟩, Or.inl ⟨2, by decide +kernel⟩, Or.inr ⟨3, rfl⟩,
      Or.inl ⟨0, by decide +kernel⟩, by simp⟩

end PrismSdk.Camera
