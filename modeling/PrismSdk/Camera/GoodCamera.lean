import PrismSdk.Camera.Credit
import PrismSdk.Camera.Lane

/-! A camera whose own chunks are good. Until its frame is reported its lane holds
what was sent, whatever the other cameras send, and the report delivers it. -/

namespace PrismSdk.Camera

open Library.Reassembly (payload)

/-- No call turns away a chunk of the camera and the frame. -/
def AllAdmitted (calls : List Call) (f : UInt32) (camera : UInt8) : Prop :=
  assembler.Along (fun s call => call.chunkOf camera f ≠ none → s.Admits call f)
    assembler.init calls

instance (calls : List Call) (f : UInt32) (camera : UInt8) :
    Decidable (AllAdmitted calls f camera) := Library.System.Along.decidable _ _ _ _

/-- There is no reset after the camera's first chunk of the frame. -/
def NoResetSince (calls : List Call) (f : UInt32) (camera : UInt8) : Prop :=
  ∀ pre post, calls = pre ++ .reset :: post → sent pre f camera = []

namespace Slot

variable {t : Slot} {c : Fin 4} {jpeg : List UInt8}

/-- A ready lane is in the partial set of a discarded frame. -/
theorem surviving_of_lane (h : t.lane c = { ready := true, jpeg }) (f : UInt32) :
    ∃ set, t.surviving f = some set ∧ hasCamera set.cameraMask c = true ∧ set.jpeg c = jpeg := by
  have hinvalid : t.isInvalid c = false := congrArg Lane.invalid h
  have hready : t.isReady c = true := congrArg Lane.ready h
  have hjpeg : (t.frameSet.getD {}).jpeg c = jpeg := congrArg Lane.jpeg h
  have hcomplete : t.isComplete c = true := by simp [isComplete, hinvalid, hready]
  cases hf : t.frameSet with
  | none => simp [isReady, hf] at hready
  | some frame =>
    have hmask : maskOf t.isComplete ≠ 0 := by
      intro h0
      have := hasCamera_maskOf t.isComplete c
      rw [h0, hasCamera_zero, hcomplete] at this
      cases this
    rw [hf] at hjpeg
    refine ⟨_, surviving_eq_some.2 ⟨frame, hf, hmask, rfl⟩, ?_, ?_⟩
    · simp [Assembler.survivingSet, hcomplete]
    · simpa [Assembler.survivingSet, hcomplete] using hjpeg

/-- A ready lane is in the set its frame completes to. -/
theorem completed_of_lane (h : t.lane c = { ready := true, jpeg }) {f : UInt32}
    {set : CameraFrameSet} (hset : t.completed f = some set) :
    hasCamera set.cameraMask c = true ∧ set.jpeg c = jpeg := by
  obtain ⟨frame, metadata, hf, -, hc, rfl⟩ := completed_eq_some.1 hset
  have hready : t.isReady c = true := congrArg Lane.ready h
  have hjpeg : (t.frameSet.getD {}).jpeg c = jpeg := congrArg Lane.jpeg h
  rw [isReady, hf] at hready
  rw [hf] at hjpeg
  refine ⟨?_, hjpeg⟩
  simp only [Assembler.completedSet, ← hc.2.1]
  exact hready

end Slot

section

variable {f : UInt32} {d : Fin 4} {encodedSize : UInt32} {timestampUs : UInt64} {jpeg : List UInt8}

/-- The good camera's lane holds the chunks sent so far, and its frame is tracked
from the first one on. -/
structure Holds (t : Slot) (d : Fin 4) (encodedSize : UInt32) (timestampUs : UInt64)
    (before : List VideoChunkView) : Prop where
  lane : t.lane d =
    Lane.holding encodedSize timestampUs (payload VideoChunkView.bytes before)
  tracked : before ≠ [] → t.started ≠ none

variable {s : Assembler} {call : Call} {before after : List VideoChunkView}

/-- The lane of the good camera after a chunk of its frame, be it its own or not. -/
theorem Holds.ingested (hs : s.Inv) (h : Holds (s.slot f) d encodedSize timestampUs before)
    {chunk : VideoChunkView} {entered appended : TimePoint} (hf : chunk.frameId = f)
    (hsplit : JpegSplit (before ++ ((Call.ingest chunk entered appended).chunkOf
      (UInt8.ofNat d.val) f).toList ++ after) encodedSize timestampUs jpeg)
    {t' : Slot} {done : Option CameraFrameSet}
    (hm : Slot.Ingested chunk entered appended (s.slot f) t' done) :
    ∃ t₁, Slot.Outcome f t₁ t' done ∧ t₁.lane d =
      Lane.holding encodedSize timestampUs (payload VideoChunkView.bytes
        (before ++ ((Call.ingest chunk entered appended).chunkOf (UInt8.ofNat d.val) f).toList)) := by
  obtain ⟨t₁, hout, -, -, hlane, -⟩ := hm.lane (hs.slot f)
  refine ⟨t₁, hf ▸ hout, ?_⟩
  rw [hlane, h.lane]
  split_ifs with hc
  · have hof : (Call.ingest chunk entered appended).chunkOf (UInt8.ofNat d.val) f = some chunk :=
      chunkOf_eq_some.2 ⟨entered, appended, rfl, hc.symm, hf⟩
    have hcamera : chunk.cameraId.toNat < 4 := by
      rw [← hc]
      have := d.isLt
      simp only [UInt8.toNat_ofNat', Nat.reducePow]
      omega
    rw [hof] at hsplit ⊢
    rw [Option.toList_some, List.append_assoc, List.singleton_append] at hsplit
    exact Lane.ingest_next hsplit hcamera
  · have hof : (Call.ingest chunk entered appended).chunkOf (UInt8.ofNat d.val) f = none := by
      simp [Call.chunkOf, Ne.symm hc]
    rw [hof, Option.toList_none, List.append_nil]

/-- A call that does not report the frame keeps the good camera's bytes. -/
theorem Holds.step (hs : s.Inv) (h : Holds (s.slot f) d encodedSize timestampUs before)
    (hsplit : JpegSplit (before ++ (call.chunkOf (UInt8.ofNat d.val) f).toList ++ after)
      encodedSize timestampUs jpeg)
    (hadmits : call.chunkOf (UInt8.ofNat d.val) f ≠ none → s.Admits call f)
    (hreset : call = .reset → before = []) (hrep : f ∉ (assembler.step s call).2.reported) :
    Holds ((assembler.step s call).1.slot f) d encodedSize timestampUs
      (before ++ (call.chunkOf (UInt8.ofNat d.val) f).toList) := by
  have hm := Assembler.step_move hs.history call f
  generalize hdec : decide (f ∈ (assembler.step s call).2.reported) = rep at hm
  have hfalse : false = rep := (decide_eq_false hrep).symm.trans hdec
  generalize (assembler.step s call).2.delivered.filter _ = sets at hm
  generalize (assembler.step s call).1.slot f = t' at hm ⊢
  have hother : call.chunkOf (UInt8.ofNat d.val) f = none →
      before ++ (call.chunkOf (UInt8.ofNat d.val) f).toList = before := by
    intro hnone
    rw [hnone, Option.toList_none, List.append_nil]
  cases hm with
  | keep hna =>
    rw [hother (not_not.1 (mt hadmits hna))]
    exact h
  | discarded _ hna _ _ hreport =>
    -- an unreported discard is of a settled frame, which is not tracked
    have hset : f ∈ s.settledFrameIds := by
      by_contra hun
      cases hfalse.trans (hreport hun)
    have hnil : before = [] := by
      by_contra hne
      exact h.tracked hne (hs.settled f ((hs.history.mem_iff f).1 hset))
    rw [hother (not_not.1 (mt hadmits hna)), hnil]
    exact ⟨rfl, absurd rfl⟩
  | ingested chunk entered appended _ done hcall hg _ hmove =>
    subst hcall
    obtain ⟨t₁, ⟨-, ht'⟩, hlane⟩ := h.ingested hs hg hsplit hmove
    rw [← hfalse, if_neg Bool.false_ne_true] at ht'
    subst ht'
    refine ⟨hlane, fun _ => (Assembler.Ingested.started hmove).resolve_right ?_⟩
    rw [← hfalse]
    exact Bool.false_ne_true
  | described metadata now hcall =>
    subst hcall
    exact ⟨by rw [hother rfl, ← h.lane]; rfl, fun _ => Option.some_ne_none _⟩
  | finished => cases hfalse
  | evicted hna =>
    rw [hother (not_not.1 (mt hadmits hna))]
    exact ⟨h.lane, h.tracked⟩
  | cleared hc =>
    subst hc
    rw [hother rfl, hreset rfl]
    exact ⟨rfl, absurd rfl⟩

/-- The call that reports the frame delivers the good camera's bytes. -/
theorem Holds.report (hs : s.Inv) (h : Holds (s.slot f) d encodedSize timestampUs before)
    (hsplit : JpegSplit (before ++ (call.chunkOf (UInt8.ofNat d.val) f).toList)
      encodedSize timestampUs jpeg)
    (hadmits : call.chunkOf (UInt8.ofNat d.val) f ≠ none → s.Admits call f)
    (hrep : f ∈ (assembler.step s call).2.reported) :
    ∃ set, (assembler.step s call).2.delivered.filter (fun set => set.frameId = f) = [set] ∧
      hasCamera set.cameraMask d = true ∧ set.jpeg d = jpeg := by
  have hm := Assembler.step_move hs.history call f
  generalize hdec : decide (f ∈ (assembler.step s call).2.reported) = rep at hm
  have htrue : true = rep := (decide_eq_true hrep).symm.trans hdec
  generalize (assembler.step s call).2.delivered.filter _ = sets at hm ⊢
  generalize (assembler.step s call).1.slot f = t' at hm
  cases hm with
  | keep | described | evicted | cleared => cases htrue
  | discarded _ hna =>
    have hnone := not_not.1 (mt hadmits hna)
    rw [hnone, Option.toList_none, List.append_nil] at hsplit
    obtain ⟨set, hset, hd⟩ := Slot.surviving_of_lane (h.lane.trans (Lane.holding_all hsplit)) f
    exact ⟨set, by rw [hset]; rfl, hd⟩
  | ingested chunk entered appended _ done hcall hg _ hmove =>
    subst hcall
    have hsplit' : JpegSplit (before ++ ((Call.ingest chunk entered appended).chunkOf
        (UInt8.ofNat d.val) f).toList ++ []) encodedSize timestampUs jpeg := by
      rwa [List.append_nil]
    obtain ⟨t₁, ⟨hdone, -⟩, hlane⟩ := h.ingested hs hg hsplit' hmove
    obtain ⟨set, rfl⟩ := Option.isSome_iff_exists.1 htrue.symm
    exact ⟨set, rfl, Slot.completed_of_lane (hlane.trans (Lane.holding_all hsplit)) hdone⟩
  | finished metadata now hcall hg _ set hn =>
    subst hcall
    have hnone : (Call.addMetadata metadata now).chunkOf (UInt8.ofNat d.val) f = none := rfl
    rw [hnone, Option.toList_none, List.append_nil] at hsplit
    have hlane : ((s.slot f).described metadata now).lane d = _ :=
      h.lane.trans (Lane.holding_all hsplit)
    exact ⟨set, rfl, Slot.completed_of_lane hlane hn⟩

/-- While the frame is not reported the lane of the good camera holds what was sent. -/
theorem holds_sent (calls rest : List Call)
    (hsplit : JpegSplit (sent (calls ++ rest) f (UInt8.ofNat d.val)) encodedSize timestampUs jpeg)
    (hadmits : AllAdmitted calls f (UInt8.ofNat d.val))
    (hreset : NoResetSince calls f (UInt8.ofNat d.val))
    (hfirst : f ∉ reports assembler.init calls) :
    Holds ((assembler.exec assembler.init calls).slot f) d encodedSize timestampUs
      (sent calls f (UInt8.ofNat d.val)) := by
  induction calls using List.reverseRecOn generalizing rest with
  | nil =>
    have : assembler.init.slot f = {} := by ext <;> simp [assembler, Assembler.slot]
    exact ⟨by rw [Library.System.exec_nil, this]; rfl, absurd rfl⟩
  | append_singleton calls call ih =>
    have hstart : ∀ {pre c post}, calls = pre ++ c :: post →
        calls ++ [call] = pre ++ c :: (post ++ [call]) := by
      rintro pre c post rfl
      simp
    rw [reports, Library.System.outputs_snoc, List.flatMap_append, List.mem_append, not_or,
      List.flatMap_singleton] at hfirst
    rw [AllAdmitted, Library.System.along_snoc] at hadmits
    have h := ih (call :: rest) (by simpa using hsplit) hadmits.1
      (fun pre post he => hreset pre (post ++ [call]) (hstart he)) hfirst.1
    rw [Library.System.exec_snoc, sent_append, sent_singleton]
    rw [sent_append, sent_append, sent_singleton] at hsplit
    exact h.step (Assembler.inv_exec calls) hsplit hadmits.2
      (fun hc => hreset calls [] (by rw [hc])) hfirst.2

end

/-- A camera whose own chunks are good is delivered by the first report of its frame,
whatever is sent for the other cameras. -/
theorem good_camera_delivered (calls : List Call) (call : Call) (f : UInt32) (d : Fin 4)
    (encodedSize : UInt32) (timestampUs : UInt64) (jpeg : List UInt8)
    (hsplit : JpegSplit (sent (calls ++ [call]) f (UInt8.ofNat d.val)) encodedSize timestampUs jpeg)
    (hadmits : AllAdmitted (calls ++ [call]) f (UInt8.ofNat d.val))
    (hreset : NoResetSince (calls ++ [call]) f (UInt8.ofNat d.val))
    (hfirst : f ∉ reports assembler.init calls)
    (hreport : f ∈ (assembler.step (assembler.exec assembler.init calls) call).2.reported) :
    ∃ set, (assembler.step (assembler.exec assembler.init calls) call).2.delivered.filter
        (fun set => set.frameId = f) = [set] ∧
      hasCamera set.cameraMask d = true ∧ set.jpeg d = jpeg := by
  have hstart : ∀ {pre c post}, calls = pre ++ c :: post →
      calls ++ [call] = pre ++ c :: (post ++ [call]) := by
    rintro pre c post rfl
    simp
  rw [AllAdmitted, Library.System.along_snoc] at hadmits
  have h := holds_sent calls [call] hsplit hadmits.1
    (fun pre post he => hreset pre (post ++ [call]) (hstart he)) hfirst
  rw [sent_append, sent_singleton] at hsplit
  exact h.report (Assembler.inv_exec calls) hsplit hadmits.2 hreport

/-- Camera 0 is good, camera 2 skips bytes, and a stray chunk has camera ID 9. -/
def damagedRun : List Call :=
  [.ingest (piece 1 0 0 3 [1, 2]) 0 0, .ingest (piece 1 2 5 9 [7]) 0 0,
    .ingest (wholeChunk 1 9 [6]) 0 0, .addMetadata (soloMeta 1 0) 0,
    .ingest (piece 1 0 2 3 [3]) 0 0]

/-- The next frame retires the damaged one, and camera 0 of it is delivered. -/
theorem damagedRun_delivers :
    ∃ set, (assembler.step (assembler.exec assembler.init damagedRun)
        (.ingest (wholeChunk 2 0 [8]) 1 1)).2.delivered.filter (fun set => set.frameId = 1) = [set] ∧
      hasCamera set.cameraMask 0 = true ∧ set.jpeg 0 = [1, 2, 3] := by
  have hreset : .reset ∉ damagedRun ++ [.ingest (wholeChunk 2 0 [8]) 1 1] := by decide +kernel
  exact good_camera_delivered damagedRun (.ingest (wholeChunk 2 0 [8]) 1 1) 1 0 3 0 [1, 2, 3]
    (by decide +kernel) (by decide +kernel) (fun pre post he => absurd (by simp [he]) hreset)
    (by decide +kernel) (by decide +kernel)

/-- A reset between the two pieces of camera 0 loses the first, and an empty piece is
refused, so the expiry of the frame delivers nothing. -/
theorem good_camera_lost :
    let split := [Call.ingest (piece 1 0 0 2 [1]) 0 0, .reset, .ingest (piece 1 0 1 2 [2]) 0 0]
    let padded := [Call.ingest (piece 1 0 0 1 []) 0 0, .ingest (piece 1 0 0 1 [1]) 0 0]
    (JpegSplit (sent (split ++ [.expire oneSecond]) 1 0) 2 0 [1, 2] ∧
      AllAdmitted (split ++ [.expire oneSecond]) 1 0 ∧ 1 ∉ reports assembler.init split ∧
      1 ∈ (assembler.step (assembler.exec assembler.init split) (.expire oneSecond)).2.reported ∧
      (assembler.step (assembler.exec assembler.init split) (.expire oneSecond)).2.delivered = []) ∧
    IsSplit (sent (padded ++ [.expire oneSecond]) 1 0) 1 0 [1] ∧
      AllAdmitted (padded ++ [.expire oneSecond]) 1 0 ∧ 1 ∉ reports assembler.init padded ∧
      1 ∈ (assembler.step (assembler.exec assembler.init padded) (.expire oneSecond)).2.reported ∧
      (assembler.step (assembler.exec assembler.init padded) (.expire oneSecond)).2.delivered = [] := by
  decide +kernel

end PrismSdk.Camera
