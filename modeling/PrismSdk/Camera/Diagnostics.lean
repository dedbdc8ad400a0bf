import PrismSdk.Camera.Results
import PrismSdk.Library.KeyedMerge

/-! The two diagnostics that a program may ask for between calls: of the newest frame that is
still awaited, and of the frame that was given up last; and what a diagnostic says of the
cameras of its frame. -/

namespace PrismSdk.Camera

open Std (ExtTreeMap)
open Library (better foldl_better foldl_better_le)
open Library.Serial (distance)

namespace Assembler

variable (s : Assembler)

/-! ### The frame that is awaited -/

/-- The lambda of `pendingDiagnostic`. -/
def consider (newest : Option UInt32) (id : UInt32) : Option UInt32 :=
  if s.frameIsSettled id then newest
  else if s.newestFrameId.any (fun n => id != n && !frameIdIsNewer id n) then newest
  else if newest.all (frameIdIsNewer id) then some id
  else newest

/-- The IDs that the three loops of `pendingDiagnostic` go through. -/
def pendingIds : List UInt32 :=
  (s.pendingImages.keys.map Prod.snd ++ s.partialFrameSets.keys) ++ s.metadataByFrame.keys

/-- The frame that `pendingDiagnostic` chooses. -/
def newestPending : Option UInt32 := s.pendingIds.foldl s.consider none

def pendingDiagnostic : Option CameraFrameDiagnostic := s.newestPending.map s.diagnostic

/-- Something of the frame is held, and its metadata would be taken. -/
def Pending (f : UInt32) : Prop := (s.slot f).Held ∧ s.metadataIsLate f = false

theorem mem_pendingIds {f : UInt32} : f ∈ s.pendingIds ↔ (s.slot f).Held := by
  have himages : f ∈ s.pendingImages.keys.map Prod.snd ↔
      ∃ camera, (camera, f) ∈ s.pendingImages := by
    simp [List.mem_map]
  rw [held_iff, pendingIds, List.mem_append, List.mem_append, or_assoc, himages,
    ExtTreeMap.mem_keys, ExtTreeMap.mem_keys]

/-- An ID for the choice of `pendingDiagnostic`, unless it is late. -/
def candidate (id : UInt32) : Option UInt32 := if s.metadataIsLate id then none else some id

theorem some_mem_candidates {ids : List UInt32} {f : UInt32} :
    some f ∈ ids.map s.candidate ↔ f ∈ ids ∧ s.metadataIsLate f = false := by
  simp [candidate]

theorem consider_eq (newest : Option UInt32) (id : UInt32) : s.consider newest id =
    better (fun old new => frameIdIsNewer new old) newest (s.candidate id) := by
  have hlate : s.consider newest id = if s.metadataIsLate id then newest
      else if newest.all (frameIdIsNewer id) then some id else newest := by
    unfold consider metadataIsLate
    cases s.frameIsSettled id <;> simp
  rw [hlate, candidate]
  split_ifs with h hnewer
  · cases newest <;> rfl
  · cases newest with
    | none => rfl
    | some old => exact (if_pos hnewer).symm
  · cases newest with
    | none => exact absurd rfl hnewer
    | some old => exact (if_neg hnewer).symm

theorem newestPending_eq : s.newestPending = (s.pendingIds.map s.candidate).foldl
    (better fun old new => frameIdIsNewer new old) none := by
  rw [newestPending, List.foldl_map]
  congr 1
  funext newest id
  exact s.consider_eq newest id

theorem pending_iff {f : UInt32} : s.Pending f ↔ some f ∈ s.pendingIds.map s.candidate := by
  rw [some_mem_candidates, mem_pendingIds, Pending]

theorem newestPending_eq_none_iff : s.newestPending = none ↔ ∀ f, ¬ s.Pending f := by
  simp only [pending_iff]
  rw [newestPending_eq]
  obtain ⟨hnone, hsome⟩ := foldl_better (fun old new => frameIdIsNewer new old)
    (s.pendingIds.map s.candidate)
  constructor
  · exact fun h f hf => nomatch hnone h _ hf
  · intro h
    by_contra hne
    obtain ⟨f, hf⟩ := Option.ne_none_iff_exists'.1 hne
    exact h f (hsome f hf)

theorem pending_of_newestPending {f : UInt32} (h : s.newestPending = some f) : s.Pending f := by
  rw [newestPending_eq] at h
  exact s.pending_iff.2 ((foldl_better _ _).2 f h)

/-- On the IDs of a window the choice is the one farthest from its start. -/
theorem distance_le_newestPending {base : UInt32} (hwindow : ∀ f, s.Pending f → InWindow base f)
    {f g : UInt32} (hf : s.newestPending = some f) (hg : s.Pending g) :
    distance base.toBitVec g.toBitVec ≤ distance base.toBitVec f.toBitVec := by
  rw [newestPending_eq] at hf
  refine foldl_better_le (fun id : UInt32 => distance base.toBitVec id.toBitVec)
    (fun new old hnew hold => ?_) f hf g (s.pending_iff.1 hg)
  exact frameIdIsNewer_iff (hwindow new (s.pending_iff.2 hnew)) (hwindow old (s.pending_iff.2 hold))

/-- What is held is of a frame that some call named. -/
theorem held_inWindow {base : UInt32} {calls : List Call} (hcalls : RunInWindow base calls)
    {f : UInt32} (hf : ((assembler.exec assembler.init calls).slot f).Held) : InWindow base f := by
  induction calls using List.reverseRecOn with
  | nil => exact absurd rfl hf.ne_empty
  | append_singleton calls call ih =>
    have ih := ih fun c hc => hcalls c (List.mem_append_left _ hc)
    have hcall := hcalls call (List.mem_append_right _ (List.mem_singleton_self _))
    rw [Library.System.exec_snoc] at hf
    obtain ⟨sets, rep, hmove⟩ := exists_move (inv_exec calls).history call f
    generalize (assembler.step (assembler.exec assembler.init calls) call).1.slot f = t
      at hf hmove
    cases hmove with
    | keep => exact ih hf
    | discarded | cleared => exact absurd rfl hf.ne_empty
    | ingested chunk entered appended t done hstep hid =>
      subst hstep
      exact hcall f (congrArg some hid)
    | described metadata now hstep hid | finished metadata now hstep hid =>
      subst hstep
      exact hcall f (congrArg some hid)
    | evicted => exact ih (hf.imp_right (Or.imp_right fun h => absurd rfl h))

/-- In every run the pending diagnostic is that of a frame of which something is held, and
whose metadata would be taken; there is none just when there is no such frame; and while all
frame IDs lie in one window, it is that of the newest such frame. -/
theorem pendingDiagnostic_exact (calls : List Call) :
    let s := assembler.exec assembler.init calls
    (s.pendingDiagnostic = none ↔ ∀ f, ¬ s.Pending f) ∧
      ∀ d ∈ s.pendingDiagnostic, ∃ f, s.Pending f ∧ d = s.diagnostic f ∧
        ∀ base, RunInWindow base calls → ∀ g ≠ f, s.Pending g → frameIdIsNewer f g = true := by
  intro s
  refine ⟨?_, fun d hd => ?_⟩
  · rw [pendingDiagnostic, Option.map_eq_none_iff, newestPending_eq_none_iff]
  · obtain ⟨f, hf, rfl⟩ := Option.map_eq_some_iff.1 hd
    have hpending := s.pending_of_newestPending hf
    refine ⟨f, hpending, rfl, fun base hcalls g hne hg => ?_⟩
    have hwindow : ∀ f, s.Pending f → InWindow base f := fun f h => held_inWindow hcalls h.1
    have hle := s.distance_le_newestPending hwindow hf hg
    rw [frameIdIsNewer_iff (hwindow f hpending) (hwindow g hg)]
    exact hle.lt_of_ne fun heq => hne (UInt32.eq_of_toBitVec_eq
      (Library.Serial.distance_injective _ heq))

/-! ### The frame given up last -/

theorem lastDiscarded_settleFrame (f : UInt32) :
    (s.settleFrame f).1.lastDiscardedDiagnostic = s.lastDiscardedDiagnostic := by
  unfold settleFrame
  split_ifs <;> rfl

theorem lastDiscarded_rejectCamera (f : UInt32) (camera : UInt8) :
    (s.rejectCamera f camera).lastDiscardedDiagnostic = s.lastDiscardedDiagnostic := by
  unfold rejectCamera
  split_ifs <;> rfl

/-- A frame that is given up leaves the diagnostic that its report has, if it is reported. -/
theorem lastDiscarded_discardFrame (f : UInt32) (result : CameraChunkResult) (reason : String) :
    ∃ more, (s.discardFrame f result reason).2.discardedDiagnostics =
        result.discardedDiagnostics ++ more ∧
      (s.discardFrame f result reason).1.lastDiscardedDiagnostic =
        more.getLast?.or s.lastDiscardedDiagnostic := by
  have hcamera : ¬ (0 ≤ (-1 : ℤ) ∧ (-1 : ℤ) < kCameraCount) := by decide
  unfold discardFrame
  dsimp only
  rw [if_neg hcamera]
  split_ifs
  · exact ⟨_, rfl, rfl⟩
  · exact ⟨[], (List.append_nil _).symm, (s.forget f).lastDiscarded_settleFrame f⟩

theorem lastDiscarded_discardFrames (ids : List UInt32) (result : CameraChunkResult)
    (reason : String) :
    ∃ more, (s.discardFrames ids result reason).2.discardedDiagnostics =
        result.discardedDiagnostics ++ more ∧
      (s.discardFrames ids result reason).1.lastDiscardedDiagnostic =
        more.getLast?.or s.lastDiscardedDiagnostic := by
  induction ids generalizing s result with
  | nil => exact ⟨[], (List.append_nil _).symm, rfl⟩
  | cons f ids ih =>
    obtain ⟨first, hfirst, hlast⟩ := s.lastDiscarded_discardFrame f result reason
    obtain ⟨more, hmore, hrest⟩ := ih (s.discardFrame f result reason).1
      (s.discardFrame f result reason).2
    refine ⟨first ++ more, ?_, ?_⟩
    · rw [← List.append_assoc, ← hfirst]
      exact hmore
    · rw [List.getLast?_append, Option.or_assoc, ← hlast]
      exact hrest

/-- A step of one frame clears the last diagnostic just when it completes the frame. -/
def Clears (last : Option CameraFrameDiagnostic) (x : Assembler × Option CameraFrameSet) : Prop :=
  x.1.lastDiscardedDiagnostic = if x.2.isSome then none else last

theorem clears_takeCompletedFrame (f : UInt32) :
    Clears s.lastDiscardedDiagnostic (s.takeCompletedFrame f) := by
  unfold takeCompletedFrame Clears
  split
  · split_ifs <;> simp_all
  · rfl

theorem clears_rejectCamera (f : UInt32) (camera : UInt8) :
    Clears s.lastDiscardedDiagnostic (s.rejectCamera f camera, none) :=
  s.lastDiscarded_rejectCamera f camera

theorem clears_storeImage (chunk : VideoChunkView) (c : Fin 4) (image : ImageBuffer) :
    Clears s.lastDiscardedDiagnostic (s.storeImage chunk c image) := by
  unfold storeImage
  dsimp only
  split_ifs
  · exact clears_rejectCamera _ _ _
  · exact clears_rejectCamera _ _ _
  · exact clears_takeCompletedFrame _ _

theorem clears_appendChunk (chunk : VideoChunkView) (c : Fin 4) (now : TimePoint) :
    Clears s.lastDiscardedDiagnostic (s.appendChunk chunk c now) := by
  unfold appendChunk
  dsimp only
  split_ifs
  · exact rfl
  · exact clears_rejectCamera _ _ _
  · exact rfl
  · exact clears_storeImage _ _ _ _

theorem clears_ingestFrame (chunk : VideoChunkView) (entered appended : TimePoint) :
    Clears s.lastDiscardedDiagnostic (s.ingestFrame chunk entered appended) := by
  unfold ingestFrame
  dsimp only
  split_ifs
  · exact rfl
  · exact clears_rejectCamera _ _ _
  · exact clears_appendChunk { s with startedAt := s.startedAt.insertIfNew chunk.frameId entered }
      chunk _ appended

theorem clears_addMetadata (metadata : VideoMeta) (now : TimePoint) :
    Clears s.lastDiscardedDiagnostic (s.addMetadata metadata now) := by
  cases hlate : s.metadataIsLate metadata.hostFrameId with
  | true =>
    unfold addMetadata
    rw [if_pos hlate]
    exact rfl
  | false =>
    rw [addMetadata_eq s hlate]
    exact (s.withMetadata metadata now).clears_takeCompletedFrame metadata.hostFrameId

/-- What a call makes of the last diagnostic: a reset and a completed frame clear it, and else
it is that of the frame given up last in the call, where one was. -/
def assigned (call : Call) (r : CameraChunkResult) : Option (Option CameraFrameDiagnostic) :=
  if call = .reset ∨ r.completed.isSome then some none else r.discardedDiagnostics.getLast?.map some

theorem assigned_of_clears {call : Call} {r : CameraChunkResult}
    (h : ¬ (call ≠ .reset ∧ r.completed = none)) : assigned call r = some none := by
  rw [not_and_or, not_not, ← ne_eq, Option.ne_none_iff_isSome] at h
  rw [assigned, if_pos h]

theorem assigned_of_keeps {call : Call} {r : CameraChunkResult}
    (h : call ≠ .reset ∧ r.completed = none) :
    assigned call r = r.discardedDiagnostics.getLast?.map some := by
  rw [assigned, if_neg (by simp [h])]

theorem assigned_eq_none {call : Call} {r : CameraChunkResult} : assigned call r = none ↔
    (call ≠ .reset ∧ r.completed = none) ∧ r.discardedDiagnostics = [] := by
  by_cases h : call ≠ .reset ∧ r.completed = none
  · rw [assigned_of_keeps h, Option.map_eq_none_iff, List.getLast?_eq_none_iff, and_iff_right h]
  · rw [assigned_of_clears h]
    exact iff_of_false nofun fun hkeeps => h hkeeps.1

theorem assigned_eq_some {call : Call} {r : CameraChunkResult} {d : CameraFrameDiagnostic} :
    assigned call r = some (some d) ↔
      (call ≠ .reset ∧ r.completed = none) ∧ r.discardedDiagnostics.getLast? = some d := by
  by_cases h : call ≠ .reset ∧ r.completed = none
  · rw [assigned_of_keeps h, and_iff_right h]
    simp
  · rw [assigned_of_clears h]
    exact iff_of_false (by simp) fun hkeeps => h hkeeps.1

theorem or_eq_getD {α : Type} (x y : Option α) : x.or y = (x.map some).getD y := by
  cases x <;> rfl

theorem step_lastDiscarded (call : Call) : (assembler.step s call).1.lastDiscardedDiagnostic =
    (assigned call (assembler.step s call).2).getD s.lastDiscardedDiagnostic := by
  cases call with
  | reset => rfl
  | addMetadata metadata now =>
    have hclears := s.clears_addMetadata metadata now
    show (s.addMetadata metadata now).1.lastDiscardedDiagnostic =
      (assigned (.addMetadata metadata now) { completed := (s.addMetadata metadata now).2 }).getD _
    rw [hclears, assigned]
    cases (s.addMetadata metadata now).2 <;> rfl
  | expire now =>
    obtain ⟨more, hmore, hlast⟩ := s.lastDiscarded_discardFrames
      (s.expiredIds now) {} "incomplete frame expired; other streams continue"
    have hkeeps : Call.expire now ≠ .reset ∧ (s.expire now).2.completed = none :=
      ⟨nofun, s.discardFrames_completed _ {} _⟩
    show (s.expire now).1.lastDiscardedDiagnostic = (assigned _ (s.expire now).2).getD _
    rw [assigned_of_keeps hkeeps,
      show (s.expire now).2.discardedDiagnostics = more from hmore]
    exact hlast.trans (or_eq_getD _ _)
  | ingest chunk entered appended =>
    show (s.ingest chunk entered appended).1.lastDiscardedDiagnostic =
      (assigned _ (s.ingest chunk entered appended).2).getD _
    cases hlate : s.isLate chunk.frameId with
    | true =>
      rw [ingest_of_late s hlate]
      rfl
    | false =>
      obtain ⟨more, hmore, hlast⟩ := s.lastDiscarded_discardFrames (s.retired chunk.frameId) {}
        "next frame arrived before completion"
      have hclears := (s.swept chunk.frameId).clears_ingestFrame chunk entered appended
      rw [ingest_of_not_late s hlate, hclears, assigned]
      dsimp only
      rw [hmore]
      cases ((s.swept chunk.frameId).ingestFrame chunk entered appended).2 with
      | none => exact hlast.trans (or_eq_getD _ _)
      | some set => rfl

/-- The last diagnostic of a run is that of the frame given up last: by a call that did not
also complete a frame, and after which no frame was given up or completed and nothing reset. -/
theorem lastDiscarded_exact (calls : List Call) (d : CameraFrameDiagnostic) :
    (assembler.exec assembler.init calls).lastDiscardedDiagnostic = some d ↔
      ∃ before call r after,
        assembler.transcript assembler.init calls = before ++ (call, r) :: after ∧
          call ≠ .reset ∧ r.completed = none ∧ r.discardedDiagnostics.getLast? = some d ∧
          ∀ e ∈ after, e.1 ≠ .reset ∧ e.2.completed = none ∧ e.2.discardedDiagnostics = [] := by
  have hlast : (assembler.exec assembler.init calls).lastDiscardedDiagnostic = Option.getD _ none :=
    assembler.exec_assigned (·.lastDiscardedDiagnostic) assigned step_lastDiscarded _ calls
  have hgetD : ∀ x : Option (Option CameraFrameDiagnostic),
      x.getD none = some d ↔ x = some (some d) := fun x => by cases x <;> simp
  rw [hlast, hgetD, List.findSome?_eq_some_iff]
  constructor
  · rintro ⟨after, ⟨call, r⟩, before, hes, he, hafter⟩
    obtain ⟨⟨hreset, hcompleted⟩, hd⟩ := assigned_eq_some.1 he
    refine ⟨before.reverse, call, r, after.reverse, ?_, hreset, hcompleted, hd, fun e he => ?_⟩
    · rw [← List.reverse_inj, hes]
      simp
    · exact and_assoc.1 (assigned_eq_none.1 (hafter e (List.mem_reverse.1 he)))
  · rintro ⟨before, call, r, after, hes, hreset, hcompleted, hd, hafter⟩
    refine ⟨after.reverse, (call, r), before.reverse, ?_,
      assigned_eq_some.2 ⟨⟨hreset, hcompleted⟩, hd⟩,
      fun e he => assigned_eq_none.2 (and_assoc.2 (hafter e (List.mem_reverse.1 he)))⟩
    rw [hes]
    simp

end Assembler

/-! ### What a diagnostic says of a camera -/

/-- The byte counts fit the state: nothing counted of an image that is missing or was
rejected, a part of one under way, and all of a complete one, within the limit of `ingest`. -/
def CameraTransferProgress.Plausible (p : CameraTransferProgress) : Prop :=
  match p.state with
  | .missing | .invalid => p.receivedBytes = 0 ∧ p.expectedBytes = 0
  | .incomplete =>
    0 < p.receivedBytes ∧ p.receivedBytes < p.expectedBytes ∧ p.expectedBytes.toNat ≤ jpegLimit
  | .complete =>
    p.receivedBytes = p.expectedBytes ∧ 0 < p.expectedBytes ∧ p.expectedBytes.toNat ≤ jpegLimit

def CameraFrameDiagnostic.Plausible (d : CameraFrameDiagnostic) : Prop :=
  ∀ c, (d.cameras c).Plausible

namespace Assembler

variable {s : Assembler}

theorem diagnostic_plausible {f : UInt32} (h : (s.slot f).Inv) (hs : (s.slot f).Sized) :
    (s.diagnostic f).Plausible := by
  intro c
  show (s.progress f c).Plausible
  unfold progress
  dsimp only
  split_ifs with hinvalid hready
  · exact ⟨rfl, rfl⟩
  · obtain ⟨frame, hframe, hbit⟩ := (Option.any_eq_true _ _).1 hready
    have hnonempty := List.length_pos_of_ne_nil (((h.frameSet frame hframe).ready_iff c).1 hbit)
    have hlimit := hs frame hframe c
    have hsize : (UInt32.ofNat (frame.jpeg c).length).toNat = (frame.jpeg c).length := by
      rw [UInt32.toNat_ofNat', Nat.mod_eq_of_lt]
      exact hlimit.trans_lt (by decide)
    rw [hframe, Option.getD_some]
    refine ⟨rfl, ?_, ?_⟩
    · rw [UInt32.lt_iff_toNat_lt, hsize]
      exact hnonempty
    · rw [hsize]
      exact hlimit
  · split
    · rename_i image himage
      have himage := h.image _ image himage
      refine ⟨?_, ?_, himage.size_le⟩
      · rw [UInt32.lt_iff_toNat_lt, himage.received]
        exact himage.nonempty
      · rw [UInt32.lt_iff_toNat_lt, himage.received]
        exact himage.lt_size
    · exact ⟨rfl, rfl⟩

/-- A diagnostic that a call files is of a frame in the state before the call. -/
theorem discarded_report {call : Call} {d : CameraFrameDiagnostic}
    (hd : d ∈ (assembler.step s call).2.discardedDiagnostics) :
    ∃ reason f, d = s.report reason f := by
  have hsweep : ∀ {ids : List UInt32} {reason : String}, ids.Nodup →
      d ∈ (s.discardFrames ids {} reason).2.discardedDiagnostics →
        ∃ reason f, d = s.report reason f := by
    intro ids reason hn hd
    obtain ⟨rs, -, hdiags, -⟩ := s.discardFrames_diagnostics hn {} reason
    rw [hdiags, List.mem_append] at hd
    obtain ⟨f, -, rfl⟩ := List.mem_map.1 (hd.resolve_left List.not_mem_nil)
    exact ⟨reason, f, rfl⟩
  cases call with
  | addMetadata | reset => exact absurd hd List.not_mem_nil
  | expire now => exact hsweep (s.expiredIds_nodup now) hd
  | ingest chunk entered appended =>
    change d ∈ (s.ingest chunk entered appended).2.discardedDiagnostics at hd
    cases hlate : s.isLate chunk.frameId with
    | true =>
      rw [ingest_of_late s hlate] at hd
      exact absurd hd List.not_mem_nil
    | false =>
      rw [ingest_of_not_late s hlate] at hd
      exact hsweep (s.retired_nodup _) hd

/-- A diagnostic that a call assigns is one that it files. -/
theorem mem_discarded_of_assigned {call : Call} {r : CameraChunkResult}
    {d : CameraFrameDiagnostic} (h : assigned call r = some (some d)) :
    d ∈ r.discardedDiagnostics :=
  List.mem_of_getLast? (assigned_eq_some.1 h).2

theorem step_plausible (calls : List Call) (call : Call) :
    ∀ d ∈ (assembler.step (assembler.exec assembler.init calls) call).2.discardedDiagnostics,
      d.Plausible := by
  intro d hd
  obtain ⟨reason, f, rfl⟩ := discarded_report hd
  exact diagnostic_plausible ((inv_exec calls).slot f) (sized_exec calls f)

/-- Every diagnostic of a run is plausible: those that the calls file, and the two that may be
asked for after them. -/
theorem diagnostics_plausible (calls : List Call) :
    (∀ r ∈ assembler.outputs assembler.init calls, ∀ d ∈ r.discardedDiagnostics, d.Plausible) ∧
      (∀ d ∈ (assembler.exec assembler.init calls).pendingDiagnostic, d.Plausible) ∧
      ∀ d ∈ (assembler.exec assembler.init calls).lastDiscardedDiagnostic, d.Plausible := by
  refine ⟨?_, fun d hd => ?_, ?_⟩
  · induction calls using List.reverseRecOn with
    | nil => exact fun _ => nofun
    | append_singleton calls call ih =>
      intro r hr
      rw [Library.System.outputs_snoc, List.mem_append, List.mem_singleton] at hr
      rcases hr with hr | rfl
      · exact ih r hr
      · exact step_plausible calls call
  · obtain ⟨f, -, rfl⟩ := Option.map_eq_some_iff.1 hd
    exact diagnostic_plausible ((inv_exec calls).slot f) (sized_exec calls f)
  · induction calls using List.reverseRecOn with
    | nil => exact fun _ => nofun
    | append_singleton calls call ih =>
      intro d hd
      rw [Library.System.exec_snoc, step_lastDiscarded] at hd
      cases hassigned : assigned call
          (assembler.step (assembler.exec assembler.init calls) call).2 with
      | none =>
        rw [hassigned] at hd
        exact ih d hd
      | some last =>
        rw [hassigned, Option.getD_some] at hd
        rw [Option.mem_def.1 hd] at hassigned
        exact step_plausible calls call d (mem_discarded_of_assigned hassigned)

end Assembler

end PrismSdk.Camera
