import PrismSdk.Camera.Reports
import PrismSdk.Capture.Runs

/-! Acknowledgements of a capture. A capture acknowledges what its assembler reports, in the
order of the reports, each report once; the sender gets no credit that is not due, and
none is kept back. -/

namespace PrismSdk.Capture

open Camera (Call CameraFrameSet CameraChunkResult assembler reports NoReset)
open Library.Effects

/-- The two capture programs. -/
inductive Link where
  | usb | network

def main : Link → Options → ℕ → Action (Option ℕ)
  | .usb => Usb.main
  | .network => Network.main

/-- The requests that a program makes to save a set. -/
def Link.images : Link → CameraFrameSet → List Request
  | .usb => fun _ => []
  | .network => Network.imagesPlan

/-- Where a run ends or is cut. -/
def final (link : Link) (options : Options) (turns : ℕ) (w : World Answer) :
    Config Answer Locals := (main link options turns w { locals := {} }).2

/-- What the exit code says, when no exception has left the program. -/
def Link.EndCode : Link → Locals → ℕ → Prop
  | .usb => Usb.EndCode
  | .network => Network.EndCode

/-- A run is in its loop or has ended without an exception, and is in balance, or it has
ended by an exception. -/
theorem accounted_main (link : Link) (options : Options) (turns : ℕ) (w : World Answer) :
    ∃ result c, main link options turns w { locals := {} } = (.ok result, c) ∧
      (Ends link.EndCode (Balanced link.images []) result c ∨
        result = some 1 ∧ Accounted link.images c) := by
  have hinit := balanced_init link.images
  cases link with
  | usb => exact (Usb.accounts options turns).exitCode w hinit
  | network => exact (Network.accounts options turns).exitCode w hinit

theorem accounted_final (link : Link) (options : Options) (turns : ℕ) (w : World Answer) :
    Accounted link.images (final link options turns w) := by
  obtain ⟨result, c, hmain, hend⟩ := accounted_main link options turns w
  rw [final, hmain]
  exact hend.elim (fun h => .inl h.1) And.right

/-- The condition holds at the end of every run, if the parts of the turns keep it. -/
theorem final_of_inside {τ : Type} {loud : Request → Bool} {view : Locals → τ}
    {I : Config Answer Locals → Prop} (h : Framed loud view I)
    (houter : ∀ r, r.Outer → loud r = false) (hturn : ∀ r, r.InTurn → loud r = false)
    (hhandle : ∀ frame, loud (.handleFrame frame) = false)
    (hbesides : ∀ l l', SameBesides l l' → view l' = view l)
    (harmed : ∀ l b, view { l with armed := b } = view l)
    (hack : ∀ id, Keeps I (acknowledge id)) (hcount : ∀ set, Keeps I (Usb.count set))
    (hstatistics : ∀ s, Keeps I (ImuStatistics.ingest s))
    (hsave : ∀ set, Keeps I (Network.saveImages set)) (hsample : ∀ s, Keeps I (Network.onSample s))
    (hinit : I { locals := {} }) (link : Link) (options : Options) (turns : ℕ) (w : World Answer) :
    I (final link options turns w) := by
  have haround : Around loud view I I := ⟨h, h, fun _ => id, houter, harmed⟩
  have hfinal : ∀ {code : Locals → ℕ → Prop} {result c},
      Ends code I result c ∨ result = some 1 ∧ I c → I c := fun h => h.elim And.left And.right
  cases link with
  | usb =>
    have hinside : Inside loud view I I Usb.count ImuStatistics.ingest :=
      ⟨h, fun _ => id, hturn, hbesides, hack, hcount,
        fun frame => triple_handleFrame h (hhandle frame) (fun _ => id) hstatistics⟩
    obtain ⟨result, c, hmain, hend⟩ :=
      (Usb.runCapture_of_turn haround hinside.turn options turns).exitCode w hinit
    rw [final, main, Usb.main, hmain]
    exact hfinal hend
  | network =>
    have hinside : Inside loud view I I Network.saveImages Network.onSample :=
      ⟨h, fun _ => id, hturn, hbesides, hack, hsave,
        fun frame => triple_handleFrame h (hhandle frame) (fun _ => id) hsample⟩
    obtain ⟨result, c, hmain, hend⟩ :=
      (Network.runCapture_of_turn haround hinside.turn options turns).exitCode w hinit
    rw [final, main, Network.main, hmain]
    exact hfinal hend

/-! ### Acknowledged frames -/

/-- The frame that a request acknowledges. -/
def Request.ack : Request → Option UInt32
  | .sendVideoAck frameId => some frameId
  | _ => none

/-- The frames that a run acknowledges, or tries to, in order. -/
def acks (trace : List (Event Answer)) : List UInt32 := asked Request.ack trace

/-- Those of which the acknowledgement was sent. -/
def sentAcks (trace : List (Event Answer)) : List UInt32 := done Request.ack trace

theorem delivers_of_ack (r : Request) (f : UInt32) (h : r.ack = some f) : r.Delivers := by
  cases r <;> first | rfl | cases h

/-- Saving a set acknowledges nothing. -/
theorem Link.filterMap_images (link : Link) (set : CameraFrameSet) :
    (link.images set).filterMap Request.ack = [] := by
  cases link with
  | usb => rfl
  | network =>
    rw [List.filterMap_eq_nil_iff]
    intro r hr
    obtain ⟨i, -, hr⟩ := List.mem_flatMap.1 hr
    unfold Network.imagePlan at hr
    split_ifs at hr
    · cases hr
    · simp only [List.mem_cons, List.not_mem_nil, or_false] at hr
      rcases hr with rfl | rfl | rfl | rfl <;> rfl

/-- A result is worth one acknowledgement for each frame that it reports. -/
theorem filterMap_planOf (link : Link) (result : CameraChunkResult) :
    (planOf link.images result).filterMap Request.ack = result.reported := by
  have hids : (result.discardedIncompleteFrameIds.map Request.sendVideoAck).filterMap Request.ack =
      result.discardedIncompleteFrameIds := by
    rw [List.filterMap_map]
    exact List.filterMap_some
  have hpartial : (result.partialFrames.flatMap link.images).filterMap Request.ack = [] := by
    rw [List.filterMap_flatMap, List.flatMap_eq_nil_iff]
    exact fun set _ => link.filterMap_images set
  rw [planOf, List.filterMap_append, List.filterMap_append, hids, hpartial, List.nil_append,
    CameraChunkResult.reported]
  congr 1
  cases result.completed with
  | none => rfl
  | some set =>
    rw [Option.toList_some, List.flatMap_singleton, finishPlan, List.filterMap_append,
      link.filterMap_images]
    rfl

theorem filterMap_plan (link : Link) (calls : List Call) :
    (plan link.images calls).filterMap Request.ack = reports assembler.init calls := by
  rw [plan, List.filterMap_flatMap, reports]
  exact List.flatMap_congr fun result _ => filterMap_planOf link result

/-- A capture never resets its assembler. -/
theorem noReset_calls (trace : List (Event Answer)) : NoReset (calls trace) := by
  rintro call hcall rfl
  obtain ⟨⟨r, outcome⟩, -, he⟩ := List.mem_filterMap.1 hcall
  unfold callOf at he
  split at he <;> cases he

/-! ### The counter -/

/-- `acknowledged` counts the acknowledgements sent. -/
def CountsAcks (c : Config Answer Locals) : Prop :=
  c.locals.acknowledged = UInt64.ofNat (sentAcks c.trace).length

theorem framed_countsAcks :
    Framed (fun r => r.ack.isSome) (fun l => l.acknowledged) CountsAcks where
  push c e he h := by
    have hnone : e.request.ack = none := Option.not_isSome_iff_eq_none.1 (by simp [he])
    rw [CountsAcks] at h ⊢
    simpa [sentAcks, done_push, hnone] using h
  set c l hl h := hl.trans h

theorem countsAcks_acknowledge (frameId : UInt32) :
    Keeps CountsAcks (acknowledge frameId) := by
  refine Triple.bind (Q := fun _ c => c.locals.acknowledged + 1 =
    UInt64.ofNat (sentAcks c.trace).length) (Triple.request (fun c _ h => ?_) fun c what h => ?_)
    fun _ => Triple.modify fun _ => id
  · rw [CountsAcks] at h
    rw [Config.push_trace, Config.push_locals, h, sentAcks, sentAcks, done_push]
    simp [Request.ack]
  · rw [CountsAcks] at h ⊢
    simpa [sentAcks, done_push] using h

theorem countsAcks_final (link : Link) (options : Options) (turns : ℕ) (w : World Answer) :
    CountsAcks (final link options turns w) := by
  have h := framed_countsAcks
  refine final_of_inside h ?_ ?_ (fun _ => rfl) (fun _ _ hl => hl.acknowledged) (fun _ _ => rfl)
    countsAcks_acknowledge (fun set => Triple.forM fun i _ => ?_)
    (keeps_statistics h fun _ _ => rfl) (fun set => Triple.forM fun i _ => ?_)
    (fun s => Triple.bind (keeps_statistics h (fun _ _ => rfl) s) fun _ => h.ask rfl) rfl
    link options turns w
  · intro r hr
    cases r <;> first | rfl | cases hr
  · intro r hr
    cases r <;> first | rfl | cases hr
  · exact Triple.ite (fun _ => h.modify fun _ => rfl) fun _ => Triple.pure fun _ => id
  · exact Triple.ite (fun _ => Triple.pure fun _ => id) fun _ => Triple.bind (h.ask rfl) fun _ =>
      Triple.bind (h.ask rfl) fun _ => Triple.bind (h.ask rfl) fun _ => Triple.bind (h.ask rfl)
        fun _ => h.modify fun _ => rfl

/-- Whatever a device, the network and the disk do, in every run of either capture: the
acknowledgements are for the frames that the assembler reported, in that order, and none
is left out unless a request failed; no frame is acknowledged twice within 65
acknowledgements; and the counter counts those sent. -/
theorem acks_exact (link : Link) (options : Options) (turns : ℕ) (w : World Answer) :
    let c := final link options turns w
    acks c.trace <+: reports assembler.init (calls c.trace) ∧
      ((∀ e ∈ deliveries c.trace, e.succeeds) →
        acks c.trace = reports assembler.init (calls c.trace)) ∧
      (∀ i j f, i < j → j ≤ i + 64 → (acks c.trace)[i]? = some f → (acks c.trace)[j]? ≠ some f) ∧
      c.locals.acknowledged = UInt64.ofNat (sentAcks c.trace).length := by
  intro c
  obtain ⟨hinitial, hwhole⟩ := (accounted_final link options turns w).asked delivers_of_ack
  rw [filterMap_plan] at hinitial hwhole
  refine ⟨hinitial, hwhole, fun i j f hij hj hi hj' => ?_, countsAcks_final link options turns w⟩
  have hget : ∀ {k f}, (acks c.trace)[k]? = some f →
      (reports assembler.init (calls c.trace))[k]? = some f := fun h => by
    obtain ⟨hk, rfl⟩ := List.getElem?_eq_some_iff.1 h
    exact List.prefix_iff_getElem?.1 hinitial _ hk
  have hfresh := Camera.Assembler.settles_run Camera.Assembler.inv_init.history
    (noReset_calls c.trace)
  exact hfresh.fresh.ne_of_close _ hij hj (hget hi) (hget hj')

end PrismSdk.Capture
