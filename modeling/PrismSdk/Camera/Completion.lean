import PrismSdk.Camera.Invariant

/-! Completion. A set is completed only from the last metadata its frame was
admitted with and from images of exactly the cameras that declares, none of them
rejected since the frame is tracked; and a frame with all it needs never waits. -/

namespace PrismSdk.Camera

/-- The metadata the call is admitted with for the frame. -/
def Assembler.describes (f : UInt32) (s : Assembler) : Call → Option VideoMeta
  | .addMetadata metadata now =>
    if s.Admits (.addMetadata metadata now) f then some metadata else none
  | _ => none

/-- The metadata of the last call of the run that was admitted for the frame. -/
def lastMetadata (calls : List Call) (f : UInt32) : Option VideoMeta :=
  assembler.last (Assembler.describes f) assembler.init calls

/-- The call passes a chunk of the frame with a camera below four, which is
admitted and leaves the camera marked invalid. -/
def Assembler.Rejects (s : Assembler) (call : Call) (f : UInt32) : Prop :=
  ∃ chunk entered appended, call = .ingest chunk entered appended ∧ s.Admits call f ∧
    ∃ c : Fin 4, c.val = chunk.cameraId.toNat ∧
      ((assembler.step s call).1.slot f).isInvalid c = true

namespace Assembler

variable {s : Assembler}

/-- A call completes only a frame it is admitted for. -/
theorem admits_of_completed (call : Call) {set : CameraFrameSet}
    (h : (assembler.step s call).2.completed = some set) : s.Admits call set.frameId := by
  cases call with
  | reset => cases h
  | expire now =>
    have hnone : (s.expire now).2.completed = none := s.discardFrames_completed _ {} _
    cases hnone.symm.trans h
  | addMetadata metadata now =>
    change (s.addMetadata metadata now).2 = some set at h
    by_cases hlate : s.metadataIsLate metadata.hostFrameId = true
    · unfold addMetadata at h
      rw [if_pos hlate] at h
      cases h
    · have hnl := Bool.eq_false_of_not_eq_true hlate
      rw [(s.addMetadata_spec hnl now).1] at h
      rw [completed_frameId h]
      exact ⟨rfl, hnl⟩
  | ingest chunk entered appended =>
    change (s.ingest chunk entered appended).2.completed = some set at h
    by_cases hlate : s.isLate chunk.frameId = true
    · rw [ingest_of_late s hlate] at h
      cases h
    · have hnl := Bool.eq_false_of_not_eq_true hlate
      rw [ingest_of_not_late s hnl] at h
      by_cases hun : (s.swept chunk.frameId).frameIsSettled chunk.frameId = true
      · rw [ingestFrame_of_settled hun] at h
        cases h
      · have hmove := (s.swept chunk.frameId).ingested_ingestFrame chunk entered appended
          (Bool.eq_false_of_not_eq_true hun)
        rw [ingested_frameId hmove set h]
        exact ⟨rfl, hnl, Bool.eq_false_of_not_eq_true hun⟩

/-- What a completed set was built from: the images and the metadata that the slot
had, with the last image or the metadata that the call brought. -/
theorem step_completed (h : s.Inv) {call : Call} {set : CameraFrameSet}
    (hset : (assembler.step s call).2.completed = some set) :
    ∃ t : Slot, t.completed set.frameId = some set ∧ (∀ frame ∈ t.frameSet, frame.Inv) ∧
      (∀ c, t.isInvalid c = (s.slot set.frameId).isInvalid c) ∧
      ((assembler.step s call).1.slot set.frameId).started = none ∧
      ((assembler.step s call).1.slot set.frameId).frameSet = none ∧
      t.metadata = (s.describes set.frameId call).or (s.slot set.frameId).metadata := by
  have hadmits := admits_of_completed call hset
  have hm := step_move h.history call set.frameId
  have hmem : set ∈ (assembler.step s call).2.delivered.filter
      (fun other => other.frameId = set.frameId) := by
    simp [CameraChunkResult.delivered, hset]
  generalize hf : set.frameId = f at *
  generalize (assembler.step s call).2.delivered.filter _ = sets at hm hmem
  generalize (assembler.step s call).1.slot f = t' at hm ⊢
  generalize decide (f ∈ (assembler.step s call).2.reported) = rep at hm
  cases hm with
  | keep | described | evicted | cleared => cases hmem
  | discarded _ hna => exact absurd hadmits hna
  | ingested chunk entered appended _ _ hcall hg _ hmove =>
    subst hcall hg
    rw [Option.mem_toList] at hmem
    cases hmove with
    | finished hv hi hc hge hr hlen other hn =>
      obtain rfl := Option.some.inj hmem
      refine ⟨_, hn, (h.slot _).stored_frameSet hv hi hc appended, fun c => ?_, rfl, rfl, rfl⟩
      rw [Slot.isInvalid_eq, Slot.isInvalid_eq]
      rfl
    | _ => cases hmem
  | finished metadata now hcall _ hadmits' other hn =>
    subst hcall
    rw [List.mem_singleton] at hmem
    subst hmem
    refine ⟨_, hn, (h.slot f).frameSet, fun c => rfl, rfl, rfl, ?_⟩
    simp [describes, hadmits', Slot.described]

/-- A rejected camera stays rejected while its frame is tracked. -/
theorem isInvalid_step (h : s.Inv) {call : Call} {f : UInt32} {c : Fin 4}
    (hi : (s.slot f).isInvalid c = true)
    (htracked : ((assembler.step s call).1.slot f).started ≠ none) :
    ((assembler.step s call).1.slot f).isInvalid c = true := by
  obtain ⟨sets, rep, hm⟩ := exists_move h.history call f
  generalize (assembler.step s call).1.slot f = t' at hm htracked ⊢
  cases hm with
  | keep | described | evicted => exact hi
  | discarded | finished | cleared => exact absurd rfl htracked
  | ingested chunk entered appended _ _ _ _ _ hmove =>
    have hreject : ∀ {t : Slot} (camera : UInt8), t.isInvalid c = true →
        (t.reject camera).isInvalid c = true := by
      intro t camera ht
      by_cases hc : camera.toNat < 4
      · simp [Slot.isInvalid_reject hc, ht]
      · rwa [Slot.reject, dif_neg hc]
    cases hmove with
    | invalid | discontinuous | ignored => first | exact hreject _ hi | exact hi
    | extended => exact hi
    | repeated =>
      refine hreject _ ?_
      rw [Slot.isInvalid_eq] at hi ⊢
      exact hi
    | stored =>
      rw [Slot.isInvalid_eq] at hi ⊢
      exact hi
    | finished => exact absurd rfl htracked

theorem isInvalid_run (h : s.Inv) {calls : List Call} {f : UInt32} {c : Fin 4}
    (hi : (s.slot f).isInvalid c = true)
    (htracked : ∀ mid, mid <+: calls → f ∈ (assembler.exec s mid).startedAt) :
    ((assembler.exec s calls).slot f).isInvalid c = true := by
  induction calls using List.reverseRecOn with
  | nil => exact hi
  | append_singleton calls call ih =>
    have hlast := htracked _ (List.prefix_refl _)
    have hi' := ih fun mid hmid => htracked mid (hmid.trans (List.prefix_append _ _))
    rw [Library.System.exec_snoc] at hlast ⊢
    rw [Std.ExtTreeMap.mem_iff_isSome_getElem?, Option.isSome_iff_ne_none] at hlast
    exact isInvalid_step (h.exec calls) hi' hlast

/-- The metadata a frame has is the last it was admitted with. -/
theorem metadata_eq_last (calls : List Call) (f : UInt32) :
    ∀ metadata ∈ ((assembler.exec assembler.init calls).slot f).metadata,
      lastMetadata calls f = some metadata := by
  induction calls using List.reverseRecOn with
  | nil => simp [assembler, Assembler.slot]
  | append_singleton calls call ih =>
    intro metadata
    obtain ⟨sets, rep, hm⟩ := exists_move (inv_exec calls).history call f
    have hkeep : ¬ (assembler.exec assembler.init calls).Admits call f →
        ((assembler.exec assembler.init calls).slot f).metadata = some metadata →
        lastMetadata (calls ++ [call]) f = some metadata := by
      intro hna hold
      have hnone : (assembler.exec assembler.init calls).describes f call = none := by
        cases call with
        | addMetadata => simp [describes, hna]
        | _ => rfl
      rw [lastMetadata, Library.System.last_snoc, hnone, Option.none_or]
      exact ih metadata hold
    have hother : (∀ metadata now, call ≠ .addMetadata metadata now) →
        ((assembler.exec assembler.init calls).slot f).metadata = some metadata →
        lastMetadata (calls ++ [call]) f = some metadata := by
      intro hcall hold
      have hnone : (assembler.exec assembler.init calls).describes f call = none := by
        cases call with
        | addMetadata => exact absurd rfl (hcall _ _)
        | _ => rfl
      rw [lastMetadata, Library.System.last_snoc, hnone, Option.none_or]
      exact ih metadata hold
    rw [Library.System.exec_snoc]
    generalize (assembler.step _ call).1.slot f = t' at hm ⊢
    cases hm with
    | keep hna => exact hkeep hna
    | discarded | evicted | cleared | finished => rintro ⟨⟩
    | ingested chunk entered appended _ _ hcall _ _ hmove =>
      subst hcall
      intro ht
      refine hother (by simp) ?_
      cases hmove with
      | invalid | discontinuous | repeated => rwa [Slot.reject_metadata] at ht
      | ignored | extended | stored => exact ht
      | finished => cases ht
    | described stored now hcall hg hadmits _ other hstored =>
      subst hcall
      rintro ⟨⟩
      obtain rfl := Option.some.inj (hstored.resolve_right (by simp))
      rw [lastMetadata, Library.System.last_snoc]
      simp [describes, hadmits]

/-- A zero trigger time needs no case of its own. -/
theorem completedSet_timestampUs (f : UInt32) (frame : PartialFrameSet) (metadata : VideoMeta) :
    (completedSet f frame metadata).timestampUs =
      if metadata.valid then metadata.triggerTimeNs / 1000 else 0 := by
  by_cases hv : metadata.valid = true <;> by_cases ht : metadata.triggerTimeNs = 0 <;>
    simp [completedSet, hv, ht]

/-- A set is completed from a slot without rejected cameras. -/
theorem isInvalid_of_completed {t : Slot} {f : UInt32} {set : CameraFrameSet}
    (h : t.completed f = some set) (c : Fin 4) : t.isInvalid c = false := by
  obtain ⟨frame, metadata, hp, -, hc, -⟩ := Slot.completed_eq_some.1 h
  rw [Slot.isInvalid_eq, hp, Option.getD_some, hc.2.2, hasCamera_zero]

end Assembler

/-- No chunk of the frame was rejected since it is tracked: in every stretch of calls
that ends in `call` and tracks the frame between its calls, the first one does not
reject. -/
def CleanInterval (calls : List Call) (call : Call) (f : UInt32) : Prop :=
  ∀ pre first post, calls ++ [call] = pre ++ first :: post →
    (∀ mid, mid <+: post → mid ≠ post →
      f ∈ (assembler.exec assembler.init (pre ++ first :: mid)).startedAt) →
    ¬ (assembler.exec assembler.init pre).Rejects first f

/-- A frame that ends without a rejected camera had none rejected. -/
theorem cleanInterval_of_valid {calls : List Call} {call : Call} {f : UInt32}
    (hgone : ((assembler.step (assembler.exec assembler.init calls) call).1.slot f).frameSet = none)
    (hvalid : ∀ c, ((assembler.exec assembler.init calls).slot f).isInvalid c = false) :
    CleanInterval calls call f := by
  rintro pre first post heq htracked ⟨chunk, entered, appended, -, -, c, -, hi⟩
  rcases List.eq_nil_or_concat post with rfl | ⟨mid, last, rfl⟩
  · obtain ⟨rfl, hlast⟩ := List.append_inj' heq rfl
    obtain rfl := List.head_eq_of_cons_eq hlast
    simp [Slot.isInvalid, hgone] at hi
  · rw [List.concat_eq_append, ← List.cons_append, ← List.append_assoc] at heq
    obtain ⟨rfl, -⟩ := List.append_inj' heq rfl
    have hmid : ∀ part, part <+: mid →
        f ∈ (assembler.exec (assembler.step (assembler.exec assembler.init pre) first).1
          part).startedAt := by
      intro part hpart
      have := htracked part (hpart.trans (List.prefix_concat _ _)) (fun he => ?_)
      · rwa [Library.System.exec_append] at this
      · have hlen := hpart.length_le
        rw [he, List.length_concat] at hlen
        omega
    have hrun := Assembler.isInvalid_run ((Assembler.inv_exec pre).step first) hi hmid
    rw [Library.System.exec_append] at hvalid
    exact Bool.false_ne_true ((hvalid c).symm.trans hrun)

/-- A frame completes exactly when its declared cameras are all there. -/
theorem completes_exactly (calls : List Call) (call : Call) :
    (∀ set ∈ (assembler.step (assembler.exec assembler.init calls) call).2.completed,
      lastMetadata (calls ++ [call]) set.frameId = some set.metadata ∧
      set.cameraMask = (if set.metadata.valid ∧ set.metadata.cameras = 4 then
        maskOf (fun c => set.metadata.exposureUs c ≠ 0) else 0x0f) ∧
      set.cameraMask ≠ 0 ∧
      (∀ c, set.jpeg c ≠ [] ↔ hasCamera set.cameraMask c = true) ∧
      set.timestampUs = (if set.metadata.valid then set.metadata.triggerTimeNs / 1000 else 0) ∧
      CleanInterval calls call set.frameId) ∧
    ∀ f ∈ (assembler.exec assembler.init calls).startedAt, ∀ frameSet metadata,
      (assembler.exec assembler.init calls).partialFrameSets[f]? = some frameSet →
      (assembler.exec assembler.init calls).metadataByFrame[f]? = some metadata →
      ¬ (Assembler.expectedMask metadata ≠ 0 ∧
        frameSet.readyMask = Assembler.expectedMask metadata ∧ frameSet.invalidMask = 0) := by
  have h := Assembler.inv_exec calls
  refine ⟨fun set hset => ?_, fun f _ frameSet metadata hp hm hc =>
    (h.slot f).waiting ⟨frameSet, metadata, hp, hm, hc⟩⟩
  obtain ⟨t, hdone, hframes, hinvalid, -, hgone, hmetadata⟩ := Assembler.step_completed h hset
  obtain ⟨frame, metadata, hp, hm, hc, he⟩ := Slot.completed_eq_some.1 hdone
  have hfaulty := Assembler.isInvalid_of_completed hdone
  generalize set.frameId = f at *
  subst he
  refine ⟨?_, rfl, hc.1, fun c => ?_, ?_, ?_⟩
  · rw [lastMetadata, Library.System.last_snoc]
    rw [hm] at hmetadata
    cases hd : (assembler.exec assembler.init calls).describes f call with
    | some stored =>
      rw [hd] at hmetadata
      exact hmetadata.symm
    | none =>
      rw [hd, Option.none_or] at hmetadata
      exact Assembler.metadata_eq_last calls f metadata hmetadata.symm
  · simp only [Assembler.completedSet, ← hc.2.1]
    exact ((hframes frame hp).ready_iff c).symm
  · exact Assembler.completedSet_timestampUs f frame metadata
  · refine cleanInterval_of_valid hgone fun c => ?_
    rw [← hinvalid c, hfaulty c]

end PrismSdk.Camera
