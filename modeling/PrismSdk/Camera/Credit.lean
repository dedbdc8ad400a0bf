import PrismSdk.Camera.Clock

/-! Flow control. The sender's window has one credit for every frame under way, and
a report gives it back. A tracked frame stays tracked until it is reported, an
expiry leaves nothing behind, and a newer frame retires the older ones that hold
more than their clock. -/

namespace PrismSdk.Camera

open Std (ExtTreeMap ExtTreeSet)

namespace Assembler

variable {s : Assembler}

theorem mem_partialFrameSets {f : UInt32} :
    f ∈ s.partialFrameSets ↔ (s.slot f).frameSet ≠ none := by
  rw [ExtTreeMap.mem_iff_isSome_getElem?, Option.isSome_iff_ne_none]
  rfl

theorem mem_metadataByFrame {f : UInt32} :
    f ∈ s.metadataByFrame ↔ (s.slot f).metadata ≠ none := by
  rw [ExtTreeMap.mem_iff_isSome_getElem?, Option.isSome_iff_ne_none]
  rfl

theorem mem_pendingImages {camera : UInt8} {f : UInt32} :
    (camera, f) ∈ s.pendingImages ↔ (s.slot f).image camera ≠ none := by
  rw [ExtTreeMap.mem_iff_isSome_getElem?, Option.isSome_iff_ne_none]
  rfl

/-- An unsettled frame that is not late is admitted: the sweep before the check
does not settle it. -/
theorem admits_ingest {chunk : VideoChunkView} (h : s.SettledInv)
    (hlate : s.isLate chunk.frameId = false) (hs : s.frameIsSettled chunk.frameId = false)
    (entered appended : TimePoint) : s.Admits (.ingest chunk entered appended) chunk.frameId := by
  refine ⟨rfl, hlate, ?_⟩
  obtain ⟨rs, -, hset, hsub, -⟩ := swept_settled h chunk.frameId
  rw [Bool.eq_false_iff, Ne, h.frameIsSettled] at hs
  refine Bool.eq_false_iff.2 fun hm => ?_
  have hm' : chunk.frameId ∈ (s.swept chunk.frameId).settledFrameOrder :=
    (hset.inv.frameIsSettled _).1 hm
  rw [hset.order] at hm'
  rcases Library.RecentMemory.mem_of_mem_pushAll _ hm' with hm' | hm'
  · exact hs hm'
  · exact s.not_mem_retired_self _ (hsub.subset hm')

/-! ### Tracking -/

/-- The frame is tracked after an admitted chunk, unless it completed. -/
theorem Ingested.started {chunk : VideoChunkView} {entered appended : TimePoint} {t t' : Slot}
    {done : Option CameraFrameSet} (h : Slot.Ingested chunk entered appended t t' done) :
    t'.started ≠ none ∨ done.isSome := by
  cases h with
  | invalid | discontinuous | repeated =>
    rw [Slot.reject_started]
    exact Or.inl (Option.some_ne_none _)
  | ignored | extended | stored => exact Or.inl (Option.some_ne_none _)
  | finished => exact Or.inr rfl

/-- A frame that is tracked or admitted is tracked after the call or reported by it. -/
theorem step_tracked (h : s.Inv) {call : Call} (hr : call ≠ .reset) {f : UInt32}
    (hf : (s.slot f).started ≠ none ∨ s.Admits call f) :
    ((assembler.step s call).1.slot f).started ≠ none ∨
      f ∈ (assembler.step s call).2.reported := by
  have hm := step_move h.history call f
  generalize hrep : decide (f ∈ (assembler.step s call).2.reported) = rep at hm
  generalize (assembler.step s call).1.slot f = t' at hm ⊢
  generalize (assembler.step s call).2.delivered.filter _ = sets at hm
  cases hm with
  | keep hna => exact Or.inl (hf.resolve_right hna)
  | discarded _ hna _ _ hreport =>
    have hstarted := hf.resolve_right hna
    have hun : f ∉ s.settledFrameIds := fun hs =>
      hstarted (h.settled f ((h.history.mem_iff f).1 hs))
    exact Or.inr (of_decide_eq_true (hrep.trans (hreport hun)))
  | ingested _ _ _ _ _ _ _ _ hmove =>
    exact (Ingested.started hmove).imp id fun hd => of_decide_eq_true (hrep.trans hd)
  | described => exact Or.inl (Option.some_ne_none _)
  | finished => exact Or.inr (of_decide_eq_true hrep)
  | evicted hna => exact Or.inl (hf.resolve_right hna)
  | cleared hc => exact absurd hc hr

theorem run_tracked (h : s.Inv) {calls : List Call} (hr : NoReset calls) {f : UInt32}
    (hf : (s.slot f).started ≠ none) :
    ((assembler.exec s calls).slot f).started ≠ none ∨ f ∈ reports s calls := by
  induction calls generalizing s with
  | nil => exact Or.inl hf
  | cons call calls ih =>
    rw [reports_cons, List.mem_append]
    rcases step_tracked h (hr call List.mem_cons_self) (Or.inl hf) with ht | hrep
    · exact (ih (h.step call) (fun c hc => hr c (List.mem_cons_of_mem _ hc)) ht).imp id Or.inr
    · exact Or.inr (Or.inl hrep)

/-- An admitted frame is tracked to the end of the run or reported from its
admission on. -/
theorem admitted_tracked (h : s.Inv) {call : Call} {post : List Call}
    (hr : NoReset (call :: post)) {f : UInt32} (hf : s.Admits call f) :
    f ∈ (assembler.exec s (call :: post)).startedAt ∨ f ∈ reports s (call :: post) := by
  rw [mem_startedAt, reports_cons, List.mem_append]
  rcases step_tracked h (hr call List.mem_cons_self) (Or.inr hf) with ht | hrep
  · exact (run_tracked (h.step call) (fun c hc => hr c (List.mem_cons_of_mem _ hc)) ht).imp id
      Or.inr
  · exact Or.inr (Or.inl hrep)

/-! ### Expiry -/

/-- Every clock of a tracked frame is a reading of an earlier call. -/
theorem started_mem_readings (calls : List Call) :
    ∀ f, ∀ time ∈ ((assembler.exec assembler.init calls).slot f).started,
      ∃ call ∈ calls, time ∈ call.readings := by
  induction calls using List.reverseRecOn with
  | nil => simp [assembler, Assembler.slot]
  | append_singleton calls call ih =>
    intro f time ht
    rw [Library.System.exec_snoc] at ht
    rcases started_or_reading (inv_exec calls).history ht with hold | hnew
    · obtain ⟨c, hc, hmem⟩ := ih f time hold
      exact ⟨c, List.mem_append_left _ hc, hmem⟩
    · exact ⟨call, by simp, hnew⟩

/-- An expiry a second after every clock leaves no frame tracked. -/
theorem expire_all {now : TimePoint}
    (ht : ∀ f, ∀ time ∈ (s.slot f).started, time + oneSecond ≤ now) (f : UInt32) :
    ((assembler.step s (.expire now)).1.slot f).started = none := by
  have hslot : (assembler.step s (.expire now)).1.slot f =
      if f ∈ s.expiredIds now then {} else s.slot f :=
    s.discardFrames_slot (s.expiredIds now) {} _ f
  rw [hslot]
  split_ifs with hm
  · rfl
  · cases hs : (s.slot f).started with
    | none => rfl
    | some time =>
      exact absurd (s.mem_expiredIds.2 ⟨time, hs, le_sub_iff_add_le'.2 (ht f time hs)⟩) hm

theorem subset_startedAt (h : s.Inv) {f : UInt32}
    (hf : f ∈ s.partialFrameSets ∨ f ∈ s.metadataByFrame) : f ∈ s.startedAt := by
  rw [mem_partialFrameSets, mem_metadataByFrame] at hf
  rw [mem_startedAt]
  intro hs
  have := (h.slot f).tracked hs
  exact hf.elim (absurd this.1) (absurd this.2)

end Assembler

/-! ### No credit lost -/

/-- No credit is lost. An admitted frame is tracked or was reported since, only
tracked frames have images or metadata, and an expiry a second after the last
reading of the clock reports all that is left. -/
theorem credit_not_lost (calls : List Call) (hr : NoReset calls) :
    (∀ pre call post f, calls = pre ++ call :: post →
      (assembler.exec assembler.init pre).Admits call f →
        f ∈ (assembler.exec assembler.init calls).startedAt ∨
          f ∈ reports (assembler.exec assembler.init pre) (call :: post)) ∧
    (∀ f, f ∈ (assembler.exec assembler.init calls).partialFrameSets ∨
        f ∈ (assembler.exec assembler.init calls).metadataByFrame →
      f ∈ (assembler.exec assembler.init calls).startedAt) ∧
    ∀ now, (∀ call ∈ calls, ∀ time ∈ call.readings, time + oneSecond ≤ now) →
      (assembler.exec assembler.init (calls ++ [.expire now])).startedAt = ∅ ∧
      (assembler.exec assembler.init (calls ++ [.expire now])).partialFrameSets = ∅ ∧
      (assembler.exec assembler.init (calls ++ [.expire now])).metadataByFrame = ∅ ∧
      ∀ pre call post f, calls = pre ++ call :: post →
        (assembler.exec assembler.init pre).Admits call f →
          f ∈ reports (assembler.exec assembler.init pre) (call :: post ++ [.expire now]) := by
  refine ⟨?_, fun f => Assembler.subset_startedAt (Assembler.inv_exec calls), fun now hnow => ?_⟩
  · rintro pre call post f rfl hadmits
    rw [Library.System.exec_append]
    exact Assembler.admitted_tracked (Assembler.inv_exec pre)
      (fun c hc => hr c (List.mem_append_right _ hc)) hadmits
  · have hstarted : ∀ f, f ∉ (assembler.exec assembler.init (calls ++ [.expire now])).startedAt := by
      intro f
      rw [Assembler.mem_startedAt, not_not, Library.System.exec_snoc]
      refine Assembler.expire_all (fun g time ht => ?_) f
      obtain ⟨call, hcall, hmem⟩ := Assembler.started_mem_readings calls g time ht
      exact hnow call hcall time hmem
    have hsub : ∀ {f}, _ → f ∈ (assembler.exec assembler.init (calls ++ [.expire now])).startedAt :=
      Assembler.subset_startedAt (Assembler.inv_exec (calls ++ [.expire now]))
    refine ⟨?_, ?_, ?_, ?_⟩
    · exact ExtTreeMap.eq_empty_iff_forall_not_mem.2 hstarted
    · exact ExtTreeMap.eq_empty_iff_forall_not_mem.2 fun f hf => hstarted f (hsub (Or.inl hf))
    · exact ExtTreeMap.eq_empty_iff_forall_not_mem.2 fun f hf => hstarted f (hsub (Or.inr hf))
    · rintro pre call post f rfl hadmits
      have hno : NoReset (call :: (post ++ [.expire now])) := by
        intro c hc
        rw [← List.cons_append, List.mem_append] at hc
        rcases hc with hc | hc
        · exact hr c (List.mem_append_right _ hc)
        · rw [List.mem_singleton.1 hc]
          simp
      refine (Assembler.admitted_tracked (Assembler.inv_exec pre) hno hadmits).resolve_left ?_
      have := hstarted f
      rwa [List.append_assoc, Library.System.exec_append] at this

/-- A stray chunk starts frame 1, and its expiry reports it. -/
theorem credit_not_lost_stray :
    1 ∈ reports (assembler.exec assembler.init [])
      [.ingest (wholeChunk 1 9 [7]) 0 0, .expire oneSecond] :=
  ((credit_not_lost [.ingest (wholeChunk 1 9 [7]) 0 0] (by decide)).2.2 oneSecond
    (by decide)).2.2.2 [] _ [] 1 rfl (by decide +kernel)

/-! ### Retirement -/

/-- After the chunk no older frame is left, and it reports every older frame that
was tracked. -/
def Assembler.Retires (s : Assembler) (chunk : VideoChunkView) (entered appended : TimePoint) :
    Prop :=
  ∀ g, frameIdIsNewer chunk.frameId g = true →
    g ∉ (s.ingest chunk entered appended).1.startedAt ∧
    (∀ camera, (camera, g) ∉ (s.ingest chunk entered appended).1.pendingImages) ∧
    g ∉ (s.ingest chunk entered appended).1.partialFrameSets ∧
    g ∉ (s.ingest chunk entered appended).1.metadataByFrame ∧
    (g ∈ s.startedAt → g ∈ (s.ingest chunk entered appended).2.discardedIncompleteFrameIds)

/-- The sweep reaches every older frame that is tracked: it looks for images and
metadata, and runs only when there was a newest frame before. -/
def Assembler.Sweepable (s : Assembler) (chunk : VideoChunkView) : Prop :=
  ∀ g ∈ s.startedAt, frameIdIsNewer chunk.frameId g = true →
    s.newestFrameId ≠ none ∧
      ((∃ camera, (camera, g) ∈ s.pendingImages) ∨ g ∈ s.partialFrameSets ∨
        g ∈ s.metadataByFrame)

namespace Assembler

variable {s : Assembler}

/-- A chunk that moves the newest frame is not late. -/
theorem isLate_of_newest {chunk : VideoChunkView} (hold : s.newestFrameId ≠ some chunk.frameId)
    {entered appended : TimePoint}
    (hnew : (s.ingest chunk entered appended).1.newestFrameId = some chunk.frameId) :
    s.isLate chunk.frameId = false := by
  refine Bool.eq_false_iff.2 fun hlate => hold ?_
  rwa [ingest_of_late s hlate] at hnew

theorem held_iff {g : UInt32} : (s.slot g).Held ↔
    (∃ camera, (camera, g) ∈ s.pendingImages) ∨ g ∈ s.partialFrameSets ∨ g ∈ s.metadataByFrame := by
  simp only [Slot.Held, mem_pendingImages, mem_partialFrameSets, mem_metadataByFrame]

/-- An older frame the sweep does not reach holds nothing, unless it is tracked. -/
theorem slot_eq_empty_of_sweepable (h : s.Inv) {chunk : VideoChunkView}
    (hs : s.Sweepable chunk) (hnew : ∀ newest ∈ s.newestFrameId,
      frameIdIsNewer chunk.frameId newest = true) {g : UInt32}
    (hg : frameIdIsNewer chunk.frameId g = true) (hm : g ∉ s.retired chunk.frameId) :
    s.slot g = {} := by
  have hretired : ∀ newest, s.newestFrameId = some newest → (s.slot g).Held → False :=
    fun newest hn hheld => hm (s.mem_retired.2 ⟨hg, hheld, newest, hn, hnew newest hn⟩)
  have hstarted : (s.slot g).started = none := by
    by_contra hst
    obtain ⟨hn, hheld⟩ := hs g (mem_startedAt.2 hst) hg
    obtain ⟨newest, hn⟩ := Option.ne_none_iff_exists'.1 hn
    exact hretired newest hn (held_iff.2 hheld)
  have himage : ∀ camera, (s.slot g).image camera = none := by
    intro camera
    by_contra hc
    exact hretired g (h.newest g (Or.inr ⟨camera, hc⟩)) (Or.inl ⟨camera, hc⟩)
  have htracked := (h.slot g).tracked hstarted
  exact Slot.ext hstarted htracked.1 htracked.2 (funext himage)

/-- The sweep reports the tracked frames it reaches. -/
theorem mem_discarded_of_retired (h : s.Inv) {chunk : VideoChunkView}
    (hlate : s.isLate chunk.frameId = false) (entered appended : TimePoint) {g : UInt32}
    (hg : g ∈ s.startedAt) (hm : g ∈ s.retired chunk.frameId) :
    g ∈ (s.ingest chunk entered appended).2.discardedIncompleteFrameIds := by
  obtain ⟨rs, hrs, -, -, hall⟩ := swept_settled h.history chunk.frameId
  have hun : g ∉ s.settledFrameIds := fun hset =>
    mem_startedAt.1 hg (h.settled g ((h.history.mem_iff g).1 hset))
  rw [ingest_of_not_late s hlate]
  show g ∈ (s.discardFrames (s.retired chunk.frameId) {}).2.discardedIncompleteFrameIds
  rw [hrs]
  exact hall g hm hun

end Assembler

open Assembler in
/-- A chunk that moves the newest frame retires the older ones exactly when the
sweep reaches every older frame that is tracked. -/
theorem retires_iff_sweepable (s : Assembler) (hs : assembler.Reachable s) (chunk : VideoChunkView)
    (entered appended : TimePoint) (hold : s.newestFrameId ≠ some chunk.frameId)
    (hnew : (s.ingest chunk entered appended).1.newestFrameId = some chunk.frameId) :
    s.Retires chunk entered appended ↔ s.Sweepable chunk := by
  have h := inv_reachable hs
  have hlate := isLate_of_newest hold hnew
  have hmoves : ∀ newest ∈ s.newestFrameId, frameIdIsNewer chunk.frameId newest = true := by
    intro newest hn
    have hne : chunk.frameId ≠ newest := fun he => hold (by rw [he]; exact hn)
    simp only [isLate, Option.mem_def.1 hn, Option.any_some, Bool.and_eq_false_iff,
      bne_eq_false_iff_eq, Bool.not_eq_false'] at hlate
    exact hlate.resolve_left hne
  have hslot : ∀ g, frameIdIsNewer chunk.frameId g = true →
      (s.ingest chunk entered appended).1.slot g =
        if g ∈ s.retired chunk.frameId then {} else s.slot g := by
    intro g hg
    refine ingest_slot_other hlate entered appended ?_
    rintro rfl
    rw [frameIdIsNewer_self] at hg
    cases hg
  constructor
  · intro hret g htracked hg
    have hgone := (hret g hg).1
    rw [mem_startedAt, hslot g hg] at hgone
    have hm : g ∈ s.retired chunk.frameId := by
      by_contra hm
      rw [if_neg hm] at hgone
      exact hgone (mem_startedAt.1 htracked)
    obtain ⟨-, hheld, newest, hn, -⟩ := s.mem_retired.1 hm
    exact ⟨by rw [hn]; exact Option.some_ne_none _, held_iff.1 hheld⟩
  · intro hsweep g hg
    have hempty : (s.ingest chunk entered appended).1.slot g = {} := by
      rw [hslot g hg]
      split_ifs with hm
      · rfl
      · exact slot_eq_empty_of_sweepable h hsweep hmoves hg hm
    refine ⟨?_, fun camera => ?_, ?_, ?_, fun htracked => ?_⟩
    · simp [mem_startedAt, hempty]
    · simp [mem_pendingImages, hempty]
    · simp [mem_partialFrameSets, hempty]
    · simp [mem_metadataByFrame, hempty]
    · obtain ⟨hn, hheld⟩ := hsweep g htracked hg
      obtain ⟨newest, hn⟩ := Option.ne_none_iff_exists'.1 hn
      exact mem_discarded_of_retired h hlate entered appended htracked
        (s.mem_retired.2 ⟨hg, held_iff.2 hheld, newest, hn, hmoves newest hn⟩)

/-- The first two frames of a stream, whole. -/
theorem retires_next_frame :
    (assembler.exec assembler.init [.ingest (wholeChunk 1 0 [7]) 0 0]).Retires
      (wholeChunk 2 0 [8]) 1 1 ↔
    (assembler.exec assembler.init [.ingest (wholeChunk 1 0 [7]) 0 0]).Sweepable
      (wholeChunk 2 0 [8]) :=
  retires_iff_sweepable _ (assembler.reachable_exec _) _ 1 1 (by decide +kernel) (by decide +kernel)

/-- A chunk with camera ID 9 starts the clock of frame 1 and leaves nothing else, so
the first chunk of frame 2 passes frame 1 over. -/
theorem stray_not_retired :
    let s := assembler.exec assembler.init [.ingest (wholeChunk 1 9 [7]) 0 0]
    s.newestFrameId ≠ some 2 ∧
      (s.ingest (wholeChunk 2 0 [8]) 1 1).1.newestFrameId = some 2 ∧
      ¬ s.Retires (wholeChunk 2 0 [8]) 1 1 := by
  intro s
  have hleft : 1 ∈ (s.ingest (wholeChunk 2 0 [8]) 1 1).1.startedAt := by decide +kernel
  exact ⟨by decide +kernel, by decide +kernel, fun h => (h 1 (by decide +kernel)).1 hleft⟩

end PrismSdk.Camera
