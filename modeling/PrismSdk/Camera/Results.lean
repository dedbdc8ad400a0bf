import PrismSdk.Camera.Credit

/-! The lists of one result. A sweep fills the reported IDs, their diagnostics and the
partial sets at different points, and they agree because a frame that has a set is
tracked, so its report is not suppressed. -/

namespace PrismSdk.Camera

open Std (ExtTreeMap ExtTreeSet)

namespace Assembler

variable (s : Assembler)

/-- The diagnostic of a frame reads nothing but its slot. -/
theorem diagnostic_congr {s s' : Assembler} {f : UInt32} (h : s'.slot f = s.slot f) :
    s'.diagnostic f = s.diagnostic f := by
  have hframe : s'.partialFrameSets[f]? = s.partialFrameSets[f]? := congrArg Slot.frameSet h
  have hmeta : s'.metadataByFrame[f]? = s.metadataByFrame[f]? := congrArg Slot.metadata h
  have himage : ∀ camera, s'.pendingImages[(camera, f)]? = s.pendingImages[(camera, f)]? :=
    fun camera => congrFun (congrArg Slot.image h) camera
  have hreceived : s'.metadataByFrame.contains f = s.metadataByFrame.contains f := by
    rw [ExtTreeMap.contains_eq_isSome_getElem?, ExtTreeMap.contains_eq_isSome_getElem?, hmeta]
  have hcameras : s'.progress f = s.progress f := by
    funext c
    unfold progress
    rw [hframe, himage]
  unfold diagnostic
  rw [hreceived, hcameras]

/-- The diagnostic a sweep files for a frame. -/
def report (reason : String) (f : UInt32) : CameraFrameDiagnostic :=
  { s.diagnostic f with reason }

theorem report_congr {s s' : Assembler} {f : UInt32} (h : s'.slot f = s.slot f)
    (reason : String) : s'.report reason f = s.report reason f := by
  unfold report
  rw [diagnostic_congr h]

theorem discardFrame_diagnostics (f : UInt32) (result : CameraChunkResult) (reason : String) :
    (s.discardFrame f result reason).2.discardedDiagnostics =
      result.discardedDiagnostics ++ if (s.settleFrame f).2 then [s.report reason f] else [] := by
  have hflag : ((s.forget f).settleFrame f).2 = (s.settleFrame f).2 := by
    unfold settleFrame forget
    split_ifs <;> rfl
  have hcamera : ¬ (0 ≤ (-1 : ℤ) ∧ (-1 : ℤ) < kCameraCount) := by decide
  unfold discardFrame
  dsimp only
  rw [if_neg hcamera, ← hflag]
  split_ifs with h
  · rfl
  · exact (List.append_nil _).symm

/-- A sweep files one diagnostic for each ID it reports, of the state before it. -/
theorem discardFrames_diagnostics {ids : List UInt32} (hn : ids.Nodup) (result : CameraChunkResult)
    (reason : String) :
    ∃ rs, (s.discardFrames ids result reason).2.discardedIncompleteFrameIds =
        result.discardedIncompleteFrameIds ++ rs ∧
      (s.discardFrames ids result reason).2.discardedDiagnostics =
        result.discardedDiagnostics ++ rs.map (s.report reason) ∧ rs.Sublist ids := by
  induction ids generalizing s result with
  | nil => exact ⟨[], by simp [discardFrames], by simp [discardFrames], List.Sublist.slnil⟩
  | cons f ids ih =>
    rw [List.nodup_cons] at hn
    obtain ⟨hslot, -, -, -, -, hids⟩ := s.discardFrame_spec f result reason
    have hdiags := s.discardFrame_diagnostics f result reason
    obtain ⟨rs, hrs, hds, hsub⟩ :=
      ih (s.discardFrame f result reason).1 hn.2 (s.discardFrame f result reason).2
    have hsame : rs.map ((s.discardFrame f result reason).1.report reason) =
        rs.map (s.report reason) := by
      refine List.map_congr_left fun g hg => report_congr ?_ reason
      have hgf : g ≠ f := by
        rintro rfl
        exact hn.1 (hsub.subset hg)
      rw [hslot, if_neg hgf]
    rw [hids] at hrs
    rw [hdiags, hsame] at hds
    rw [discardFrames_cons]
    cases hflag : (s.settleFrame f).2 with
    | true =>
      rw [hflag, if_pos rfl, List.append_assoc] at hrs hds
      exact ⟨f :: rs, hrs, hds, hsub.cons_cons f⟩
    | false =>
      rw [hflag, if_neg Bool.false_ne_true, List.append_nil] at hrs hds
      exact ⟨rs, hrs, hds, hsub.cons f⟩

end Assembler

/-! ### Sizes of stored images -/

namespace Slot

/-- The images of the frame's set are within the limit of `ingest`. -/
def Sized (t : Slot) : Prop := ∀ frame ∈ t.frameSet, ∀ c, (frame.jpeg c).length ≤ jpegLimit

variable {t : Slot}

theorem Sized.getD (h : t.Sized) (c : Fin 4) :
    ((t.frameSet.getD {}).jpeg c).length ≤ jpegLimit := by
  cases hf : t.frameSet with
  | none => exact Nat.zero_le _
  | some frame => exact h frame hf c

theorem Sized.reject (h : t.Sized) (camera : UInt8) :
    (t.reject camera).Sized := by
  unfold Slot.reject
  split_ifs with hc
  · intro frame hf c
    obtain rfl := Option.some.inj hf
    by_cases hd : c = ⟨camera.toNat, hc⟩
    · rw [hd]
      simp [PartialFrameSet.reject]
    · simpa [PartialFrameSet.reject, hd] using h.getD c
  · exact h

theorem Ingested.sized {chunk : VideoChunkView} {entered appended : TimePoint} {t' : Slot}
    {done : Option CameraFrameSet} (hm : Ingested chunk entered appended t t' done) (ht : t.Inv)
    (h : t.Sized) : t'.Sized := by
  cases hm with
  | invalid | discontinuous => exact Sized.reject (t := t.enter entered) h _
  | ignored | extended => exact h
  | repeated =>
    refine Sized.reject (fun frame hf c => ?_) _
    obtain rfl := Option.some.inj hf
    exact h.getD c
  | stored hv hi hc =>
    intro frame hf c
    obtain rfl := Option.some.inj hf
    by_cases hd : c = chunkCamera chunk hv
    · have hle := (append_spec ht hv hc).2.2.1
      have hlimit := ((Assembler.not_invalidChunk_iff chunk).1 hv).2.2.2.2
      rw [hd]
      simpa [PartialFrameSet.store] using hle.trans hlimit
    · have hkept : ((t.resized chunk).jpeg c).length ≤ jpegLimit := h.getD c
      simpa [PartialFrameSet.store, hd] using hkept
  | finished => rintro _ ⟨⟩

end Slot

namespace Assembler

theorem Move.sized {s : Assembler} {call : Call} {g : UInt32} {t' : Slot}
    {sets : List CameraFrameSet} {rep : Bool} (hm : Move s call g t' sets rep)
    (ht : (s.slot g).Inv) (h : (s.slot g).Sized) : t'.Sized := by
  cases hm with
  | keep | described | evicted => exact h
  | discarded | finished | cleared => rintro _ ⟨⟩
  | ingested _ _ _ _ _ _ _ _ hmove => exact hmove.sized ht h

theorem sized_exec (calls : List Call) (f : UInt32) :
    ((assembler.exec assembler.init calls).slot f).Sized := by
  refine assembler.history (R := fun _ s => s.Inv ∧ ∀ f, (s.slot f).Sized) ?_ ?_ calls |>.2 f
  · refine ⟨inv_init, fun f frame hf => ?_⟩
    simp [assembler, slot] at hf
  · intro calls call h
    exact ⟨h.1.step call, fun f => (step_move h.1.history call f).sized (h.1.slot f) (h.2 f)⟩

/-! ### Partial sets -/

variable {s : Assembler}

/-- A frame that delivers a partial set is tracked, so it is not settled. -/
theorem not_settled_of_surviving (h : s.Inv) {f : UInt32} {set : CameraFrameSet}
    (hset : (s.slot f).surviving f = some set) : f ∉ s.settledFrameIds := by
  obtain ⟨frame, hframe, -⟩ := Slot.surviving_eq_some.1 hset
  intro hf
  have hstarted := h.settled f ((h.history.mem_iff f).1 hf)
  rw [((h.slot f).tracked hstarted).1] at hframe
  cases hframe

theorem progress_of_complete {f : UInt32} {c : Fin 4} {frame : PartialFrameSet}
    (hframe : (s.slot f).frameSet = some frame) (hc : (s.slot f).isComplete c = true) :
    s.progress f c =
      { state := .complete, receivedBytes := UInt32.ofNat (frame.jpeg c).length
        expectedBytes := UInt32.ofNat (frame.jpeg c).length } := by
  have hframe' : s.partialFrameSets[f]? = some frame := hframe
  obtain ⟨hinvalid, hready⟩ : hasCamera frame.invalidMask c = false ∧
      hasCamera frame.readyMask c = true := by
    simpa [Slot.isComplete, Slot.isInvalid, Slot.isReady, hframe] using hc
  unfold progress
  simp [hframe', hinvalid, hready]

/-- What a diagnostic says of a frame, and what the frame delivers. -/
theorem report_surviving (h : ∀ f, (s.slot f).Sized) (reason : String) (f : UInt32) :
    (((s.slot f).surviving f).isSome ↔ ∃ c, ((s.report reason f).cameras c).state = .complete) ∧
      ∀ set ∈ (s.slot f).surviving f,
        set.cameraMask = maskOf (fun c => ((s.report reason f).cameras c).state = .complete) ∧
        ∀ c, ((s.report reason f).cameras c).state = .complete →
          ((s.report reason f).cameras c).expectedBytes.toNat = (set.jpeg c).length := by
  have hstate : ∀ c, ((s.report reason f).cameras c).state = .complete ↔
      (s.slot f).isComplete c = true := by
    intro c
    rw [← s.progress_complete f c, decide_eq_true_iff]
    rfl
  constructor
  · rw [Option.isSome_iff_exists]
    constructor
    · rintro ⟨set, hset⟩
      obtain ⟨frame, -, hmask, -⟩ := Slot.surviving_eq_some.1 hset
      by_contra hnone
      refine hmask ((mask_eq_zero (maskOf_lt _)).2 fun c => ?_)
      rw [hasCamera_maskOf]
      exact Bool.eq_false_of_not_eq_true fun hc => hnone ⟨c, (hstate c).2 hc⟩
    · rintro ⟨c, hc⟩
      rw [hstate] at hc
      obtain ⟨frame, hframe⟩ : ∃ frame, (s.slot f).frameSet = some frame := by
        cases hf : (s.slot f).frameSet with
        | none => simp [Slot.isComplete, Slot.isReady, hf] at hc
        | some frame => exact ⟨frame, rfl⟩
      refine ⟨_, Slot.surviving_eq_some.2 ⟨frame, hframe, fun hmask => ?_, rfl⟩⟩
      have hzero := (mask_eq_zero (maskOf_lt _)).1 hmask c
      rw [hasCamera_maskOf, hc] at hzero
      cases hzero
  · intro set hset
    obtain ⟨frame, hframe, -, rfl⟩ := Slot.surviving_eq_some.1 hset
    refine ⟨congrArg maskOf (funext fun c => (s.progress_complete f c).symm), fun c hc => ?_⟩
    have hcomplete := (hstate c).1 hc
    have hsize := h f frame hframe c
    have hbytes : ((s.report reason f).cameras c).expectedBytes =
        UInt32.ofNat (frame.jpeg c).length :=
      congrArg CameraTransferProgress.expectedBytes (progress_of_complete hframe hcomplete)
    simp only [survivingSet, hcomplete, if_true]
    rw [hbytes, UInt32.toNat_ofNat', Nat.mod_eq_of_lt]
    exact hsize.trans_lt (by decide)

end Assembler

/-- The lists of one result tell one story: one diagnostic for each ID reported as
discarded, a partial set for those with a complete image, and in it those images. -/
structure CameraChunkResult.Consistent (r : CameraChunkResult) : Prop where
  nodup : r.discardedIncompleteFrameIds.Nodup
  completed : ∀ set ∈ r.completed, set.frameId ∉ r.discardedIncompleteFrameIds
  diagnostics : r.discardedDiagnostics.map (·.frameId) = r.discardedIncompleteFrameIds
  partials : (r.partialFrames.map (·.frameId)).Sublist r.discardedIncompleteFrameIds
  survives : ∀ info ∈ r.discardedDiagnostics,
    (∃ set ∈ r.partialFrames, set.frameId = info.frameId) ↔
      ∃ c, (info.cameras c).state = .complete
  images : ∀ info ∈ r.discardedDiagnostics, ∀ set ∈ r.partialFrames,
    set.frameId = info.frameId →
      set.cameraMask = maskOf (fun c => (info.cameras c).state = .complete) ∧
      ∀ c, (info.cameras c).state = .complete →
        (info.cameras c).expectedBytes.toNat = (set.jpeg c).length

namespace Assembler

variable {s : Assembler}

/-- Only reported frames of a sweep deliver a partial set. -/
theorem flatMap_surviving_eq (h : s.Inv) {ids rs : List UInt32} (hsub : rs.Sublist ids)
    (hn : ids.Nodup) (hall : ∀ f ∈ ids, f ∉ s.settledFrameIds → f ∈ rs) :
    ids.flatMap (fun f => ((s.slot f).surviving f).toList) =
      rs.flatMap (fun f => ((s.slot f).surviving f).toList) := by
  induction hsub with
  | slnil => rfl
  | cons f hsub ih =>
    rw [List.nodup_cons] at hn
    have hnone : (s.slot f).surviving f = none := by
      rw [Option.eq_none_iff_forall_not_mem]
      intro set hset
      exact hn.1 (hsub.subset (hall f List.mem_cons_self (not_settled_of_surviving h hset)))
    rw [List.flatMap_cons, hnone, Option.toList_none, List.nil_append]
    exact ih hn.2 fun g hg => hall g (List.mem_cons_of_mem f hg)
  | cons_cons f hsub ih =>
    rw [List.nodup_cons] at hn
    rw [List.flatMap_cons, List.flatMap_cons, ih hn.2 fun g hg hs => ?_]
    refine (List.mem_cons.1 (hall g (List.mem_cons_of_mem f hg) hs)).resolve_left ?_
    rintro rfl
    exact hn.1 hg

theorem map_frameId_surviving (rs : List UInt32) :
    ((rs.flatMap (fun f => ((s.slot f).surviving f).toList)).map (·.frameId)).Sublist rs := by
  induction rs with
  | nil => exact List.Sublist.slnil
  | cons f rs ih =>
    rw [List.flatMap_cons, List.map_append]
    cases hset : (s.slot f).surviving f with
    | none => exact ih.cons f
    | some set =>
      rw [Option.toList_some, List.map_singleton, surviving_frameId hset]
      exact ih.cons_cons f

theorem mem_flatMap_surviving {rs : List UInt32} {set : CameraFrameSet} :
    set ∈ rs.flatMap (fun f => ((s.slot f).surviving f).toList) ↔
      set.frameId ∈ rs ∧ (s.slot set.frameId).surviving set.frameId = some set := by
  simp only [List.mem_flatMap, Option.mem_toList]
  constructor
  · rintro ⟨f, hf, hset⟩
    rw [surviving_frameId hset]
    exact ⟨hf, hset⟩
  · rintro ⟨hf, hset⟩
    exact ⟨_, hf, hset⟩

/-- A sweep fills its lists consistently, whatever set is completed besides. -/
theorem sweep_consistent (h : s.Inv) (hs : ∀ f, (s.slot f).Sized) {ids : List UInt32}
    (hn : ids.Nodup) (reason : String) (completed : Option CameraFrameSet)
    (hc : ∀ set ∈ completed, set.frameId ∉ ids) :
    CameraChunkResult.Consistent
      { (s.discardFrames ids {} reason).2 with completed := completed } := by
  obtain ⟨rs, hrs, hdiags, hsub⟩ := s.discardFrames_diagnostics hn {} reason
  obtain ⟨rs', hrs', -, -, hall⟩ := discardFrames_settles ids {} reason h.history hn
  obtain rfl : rs' = rs := List.append_cancel_left (hrs'.symm.trans hrs)
  have hkept := s.discardFrames_partialFrames ids {} reason hn
  rw [flatMap_surviving_eq h hsub hn hall] at hkept
  change _ = [] ++ rs' at hrs
  change _ = [] ++ rs'.map (s.report reason) at hdiags
  change _ = [] ++ rs'.flatMap _ at hkept
  rw [List.nil_append] at hrs hdiags hkept
  refine ⟨?_, ?_, ?_, ?_, ?_, ?_⟩ <;> dsimp only
  · rw [hrs]
    exact hn.sublist hsub
  · intro set hset hmem
    rw [hrs] at hmem
    exact hc set hset (hsub.subset hmem)
  · rw [hdiags, hrs, List.map_map]
    exact List.map_id' rs'
  · rw [hkept, hrs]
    exact map_frameId_surviving rs'
  · intro info hinfo
    rw [hdiags] at hinfo
    obtain ⟨f, hf, rfl⟩ := List.mem_map.1 hinfo
    rw [hkept, ← (report_surviving hs reason f).1, Option.isSome_iff_exists]
    constructor
    · rintro ⟨set, hset, hid⟩
      obtain ⟨-, hsurviving⟩ := mem_flatMap_surviving.1 hset
      rw [show set.frameId = f from hid] at hsurviving
      exact ⟨set, hsurviving⟩
    · rintro ⟨set, hset⟩
      exact ⟨set, List.mem_flatMap.2 ⟨f, hf, Option.mem_toList.2 hset⟩, surviving_frameId hset⟩
  · intro info hinfo set hset hid
    rw [hdiags] at hinfo
    obtain ⟨f, -, rfl⟩ := List.mem_map.1 hinfo
    rw [hkept] at hset
    obtain ⟨-, hsurviving⟩ := mem_flatMap_surviving.1 hset
    rw [show set.frameId = f from hid] at hsurviving
    exact (report_surviving hs reason f).2 set hsurviving

/-- A result without reports is consistent. -/
theorem consistent_completed (completed : Option CameraFrameSet) :
    CameraChunkResult.Consistent { completed } where
  nodup := List.nodup_nil
  completed _ _ := List.not_mem_nil
  diagnostics := rfl
  partials := List.Sublist.slnil
  survives _ h := absurd h List.not_mem_nil
  images _ h := absurd h List.not_mem_nil

end Assembler

/-- Every result tells a consistent story of acknowledgements. -/
theorem results_consistent (calls : List Call) (call : Call) :
    (assembler.step (assembler.exec assembler.init calls) call).2.Consistent := by
  have h := Assembler.inv_exec calls
  have hs := Assembler.sized_exec calls
  generalize assembler.exec assembler.init calls = s at h hs
  cases call with
  | addMetadata metadata now => exact Assembler.consistent_completed _
  | reset => exact Assembler.consistent_completed none
  | expire now =>
    have hcompleted : (s.expire now).2.completed = none := s.discardFrames_completed _ {} _
    have hsame : (assembler.step s (.expire now)).2 =
        { (s.expire now).2 with completed := none } := by
      rw [← hcompleted]
      rfl
    rw [hsame]
    exact Assembler.sweep_consistent h hs (s.expiredIds_nodup now) _ none (by simp)
  | ingest chunk entered appended =>
    change (s.ingest chunk entered appended).2.Consistent
    by_cases hlate : s.isLate chunk.frameId = true
    · rw [Assembler.ingest_of_late s hlate]
      exact Assembler.consistent_completed none
    · rw [Assembler.ingest_of_not_late s (Bool.eq_false_of_not_eq_true hlate)]
      refine Assembler.sweep_consistent h hs (s.retired_nodup _) _ _ fun set hset hmem => ?_
      rw [(s.swept chunk.frameId).ingestFrame_frameId chunk entered appended set hset] at hmem
      exact s.not_mem_retired_self _ hmem

/-- The sets a result delivers are of frames that it reports, in the same order. -/
theorem delivered_sublist (calls : List Call) (call : Call) :
    ((assembler.step (assembler.exec assembler.init calls) call).2.delivered.map
      (·.frameId)).Sublist (assembler.step (assembler.exec assembler.init calls) call).2.reported := by
  have h := Assembler.inv_exec calls
  have hs := Assembler.sized_exec calls
  generalize assembler.exec assembler.init calls = s at h hs
  have hpartials : ((assembler.step s call).2.partialFrames.map (·.frameId)).Sublist
      (assembler.step s call).2.discardedIncompleteFrameIds := by
    cases call with
    | addMetadata metadata now => exact List.Sublist.slnil
    | reset => exact List.Sublist.slnil
    | expire now =>
      exact (Assembler.sweep_consistent h hs (s.expiredIds_nodup now) _ none (by simp)).partials
    | ingest chunk entered appended =>
      change ((s.ingest chunk entered appended).2.partialFrames.map (·.frameId)).Sublist
        (s.ingest chunk entered appended).2.discardedIncompleteFrameIds
      by_cases hlate : s.isLate chunk.frameId = true
      · rw [Assembler.ingest_of_late s hlate]
        exact List.Sublist.slnil
      · rw [Assembler.ingest_of_not_late s (Bool.eq_false_of_not_eq_true hlate)]
        exact (Assembler.sweep_consistent h hs (s.retired_nodup _) _ none (by simp)).partials
  rw [CameraChunkResult.delivered, CameraChunkResult.reported, List.map_append]
  refine hpartials.append ?_
  cases (assembler.step s call).2.completed with
  | none => exact List.Sublist.slnil
  | some set => exact List.Sublist.refl _

end PrismSdk.Camera
