import PrismSdk.Capture.Files

/-! The exit code of a network capture. A capture that ends without an exception has handed
on all that it was given: every sample is in its table, every image in its file, and every
report is acknowledged. -/

namespace PrismSdk.Capture

open Camera (CameraFrameSet assembler reports)
open Library.Effects

/-- The sample of which a request writes the row. -/
def Request.sampleRow : Request → Option ImuSample
  | .writeSampleRow s => some s
  | _ => none

/-- The samples that an event passes to the handler. -/
def samplesOf (e : Event Answer) : List ImuSample :=
  match e with
  | ⟨.handleFrame _, .ok handled⟩ => handled.samples
  | _ => []

/-- The samples that a run has passed to its handler, in order. -/
def handed (trace : List (Event Answer)) : List ImuSample := trace.flatMap samplesOf

@[simp] theorem handed_append (t t' : List (Event Answer)) :
    handed (t ++ t') = handed t ++ handed t' :=
  List.flatMap_append

/-- The request writes a sample, or gets some. -/
def Request.Samples : Request → Bool
  | .handleFrame _ | .writeSampleRow _ => true
  | _ => false

theorem of_not_samples {e : Event Answer} (h : e.request.Samples = false) :
    e.request.sampleRow = none ∧ samplesOf e = [] := by
  obtain ⟨r, outcome⟩ := e
  cases r <;> first | exact ⟨rfl, rfl⟩ | cases h

namespace Network

/-! ### Samples -/

/-- The samples up to `owed` have their rows, and are counted. -/
structure Written (owed : List ImuSample) (c : Config Answer Locals) : Prop where
  rows : done Request.sampleRow c.trace ++ owed = handed c.trace
  counted : imuCountReceived c.locals = UInt64.ofNat (done Request.sampleRow c.trace).length

/-- The rows are those of the first samples. -/
def Behind (c : Config Answer Locals) : Prop :=
  done Request.sampleRow c.trace <+: handed c.trace

theorem Written.behind {owed : List ImuSample} {c : Config Answer Locals} (h : Written owed c) :
    Behind c :=
  ⟨owed, h.rows⟩

theorem framed_written (owed : List ImuSample) :
    Framed Request.Samples (fun l => l.statistics.samples) (Written owed) where
  push c e he h := by
    obtain ⟨hrow, hhanded⟩ := of_not_samples he
    refine ⟨?_, ?_⟩
    · simpa [done_push, hrow, handed, hhanded] using h.rows
    · simpa [done_push, hrow] using h.counted
  set c l hl h := ⟨h.rows, by rw [← h.counted]; simp only [imuCountReceived, hl]⟩

theorem framed_behind : Framed Request.Samples (fun l => l.statistics.samples) Behind where
  push c e he h := by
    obtain ⟨hrow, hhanded⟩ := of_not_samples he
    rw [Behind] at h ⊢
    simpa [done_push, hrow, handed, hhanded] using h
  set c l hl h := h

theorem imuCountReceived_add (l : Locals) (i : Fin 2) :
    (List.finRange 2).foldl (fun n j => n +
      Function.update l.statistics.samples i (l.statistics.samples i + 1) j) 0 =
        imuCountReceived l + 1 := by
  simp only [imuCountReceived, List.finRange_succ, List.finRange_zero, List.map_nil, List.map_cons,
    List.foldl_cons, List.foldl_nil]
  match i with
  | 0 => simp [Function.update]; grind
  | 1 => simp [Function.update]; grind

/-- The sample is counted, but its row is not yet written. -/
theorem written_ingest (s : ImuSample) (rest : List ImuSample) :
    Triple (Written (s :: rest)) (ImuStatistics.ingest s)
      (fun _ c => done Request.sampleRow c.trace ++ s :: rest = handed c.trace ∧
        imuCountReceived c.locals = UInt64.ofNat (done Request.sampleRow c.trace).length + 1)
      (fun _ => Behind) := by
  unfold ImuStatistics.ingest
  split_ifs with hid
  · refine Triple.modify fun c h => ⟨h.rows, ?_⟩
    rw [← h.counted]
    exact imuCountReceived_add c.locals _
  · exact Triple.throw fun _ => Written.behind

theorem written_onSample (s : ImuSample) (rest : List ImuSample) :
    Triple (Written (s :: rest)) (onSample s) (fun _ => Written rest) (fun _ => Behind) := by
  refine Triple.bind (written_ingest s rest) fun _ => Triple.request ?_ ?_
  · rintro c a ⟨hrows, hcounted⟩
    refine ⟨?_, ?_⟩
    · simpa [done_push, Request.sampleRow, handed, samplesOf] using hrows
    · simpa [done_push, Request.sampleRow] using hcounted
  · rintro c what ⟨hrows, -⟩
    refine ⟨s :: rest, ?_⟩
    simpa [done_push, handed, samplesOf] using hrows

theorem written_handleFrame (frame : Frame) :
    Triple (Written []) (handleFrame onSample frame) (fun _ => Written []) (fun _ => Behind) := by
  refine Triple.bind (Q := fun handled => Written handled.samples) (Triple.request ?_ ?_)
    fun handled => Triple.bind (Triple.forM_rest written_onSample handled.samples) fun _ => ?_
  · intro c handled h
    refine ⟨?_, ?_⟩
    · simpa [done_push, Request.sampleRow, handed, samplesOf] using h.rows
    · simpa [done_push, Request.sampleRow] using h.counted
  · intro c what h
    have hrows := h.rows
    refine ⟨[], ?_⟩
    simpa [done_push, handed, samplesOf] using hrows
  · cases handled.returned with
    | ok taken => exact Triple.pure fun _ => id
    | error what => exact Triple.throw fun _ => Written.behind

theorem written_main (options : Options) (turns : ℕ) (w : World Answer) :
    ∃ result c, main options turns w { locals := {} } = (.ok result, c) ∧
      (Ends EndCode (Written []) result c ∨ result = some 1 ∧ Behind c) := by
  have h := framed_written []
  have haround : Around Request.Samples (fun l => l.statistics.samples) (Written []) Behind :=
    { inner := h
      ending := framed_behind
      le := fun _ => Written.behind
      quiet := fun r hr => by cases r <;> first | rfl | cases hr
      armed := fun _ _ => rfl }
  have hkeeps : ∀ {α : Type} {x : Action α}, Keeps (Written []) x →
      Triple (Written []) x (fun _ => Written []) (fun _ => Behind) := fun hx =>
    hx.conseq (fun _ => id) (fun _ _ => id) fun _ _ => Written.behind
  have hinside : Inside Request.Samples (fun l => l.statistics.samples) (Written []) Behind
      saveImages onSample :=
    { framed := h
      le := fun _ => Written.behind
      quiet := fun r hr => by cases r <;> first | rfl | cases hr
      besides := fun _ _ hl => congrArg ImuStatistics.samples hl.statistics
      acknowledge := fun _ => hkeeps (Triple.bind (h.ask rfl) fun _ => h.modify fun _ => rfl)
      save := fun set => hkeeps (Triple.forM fun i _ => Triple.ite (fun _ => Triple.pure fun _ => id)
        fun _ => Triple.bind (h.ask rfl) fun _ => Triple.bind (h.ask rfl) fun _ =>
          Triple.bind (h.ask rfl) fun _ => Triple.bind (h.ask rfl) fun _ => h.modify fun _ => rfl)
      handleFrame := written_handleFrame }
  exact (runCapture_of_turn haround hinside.turn options turns).exitCode w ⟨rfl, rfl⟩

/-! ### Images -/

/-- Each row is counted for one camera. -/
theorem sum_cameras (rows : List FrameRow) :
    (List.finRange 4).foldl (fun n i => n + UInt64.ofNat
      (rows.filter fun row => row.cameraId = i).length) 0 = UInt64.ofNat rows.length := by
  simp only [List.finRange_succ, List.finRange_zero, List.map_nil, List.map_cons, List.foldl_cons,
    List.foldl_nil]
  induction rows with
  | nil => rfl
  | cons row rows ih =>
    rw [List.length_cons, UInt64.ofNat_add, ← ih]
    simp only [List.filter_cons]
    generalize row.cameraId = i
    match i with
    | 0 => simp; grind
    | 1 => simp; grind
    | 2 => simp; grind
    | 3 => simp; grind

theorem imageCount_final (options : Options) (turns : ℕ) (w : World Answer) :
    imageCount (final .network options turns w).locals =
      UInt64.ofNat (done Request.row (final .network options turns w).trace).length := by
  rw [← sum_cameras, imageCount]
  simp only [countsRows_final options turns w _]

end Network

/-- What is asked for is done, if nothing that delivers fails. -/
theorem done_of_succeed {β : Type} {kind : Request → Option β} {trace : List (Event Answer)}
    (hkind : ∀ r b, kind r = some b → r.Delivers)
    (h : ∀ e ∈ deliveries trace, e.succeeds) : done kind trace = asked kind trace := by
  rw [done, asked, List.filterMap_filter]
  refine List.filterMap_congr fun e he => ?_
  cases hb : kind e.request with
  | none => simp
  | some b => rw [if_pos (h e (List.mem_filter.2 ⟨he, hkind _ b hb⟩))]

/-- In balance, all of the plan is done. -/
theorem Balanced.done_eq {images : CameraFrameSet → List Request} {c : Config Answer Locals}
    (h : Balanced images [] c) {β : Type} {kind : Request → Option β}
    (hkind : ∀ r b, kind r = some b → r.Delivers) :
    done kind c.trace = (plan images (calls c.trace)).filterMap kind := by
  rw [done_of_succeed hkind h.succeed, asked_deliveries hkind, ← h.requests, List.append_nil]

namespace Network

/-- Whatever the device, the network and the disk do, in every run of the network capture:
the rows of the samples are those of the first samples that the stream handed on. A run
that ends with a code other than 1 has opened, written and closed a file for every image of
every delivered set and written its row after that, each of these with success and in the
order of the sets; it has acknowledged every report and written every sample; its code is 3
when it counted no image or no sample, and else 0. -/
theorem capture_complete (options : Options) (turns : ℕ) (w : World Answer) :
    ∃ result c, main options turns w { locals := {} } = (.ok result, c) ∧
      done Request.sampleRow c.trace <+: handed c.trace ∧
      ∀ code ∈ result, code ≠ 1 →
        done Request.saved c.trace = (deliveredSets (calls c.trace)).flatMap imagesPlan ∧
          done Request.row c.trace = (deliveredSets (calls c.trace)).flatMap rowsOf ∧
          sentAcks c.trace = reports assembler.init (calls c.trace) ∧
          done Request.sampleRow c.trace = handed c.trace ∧
          code = if 2 ^ 64 ∣ (done Request.row c.trace).length ∨
            2 ^ 64 ∣ (done Request.sampleRow c.trace).length then 3 else 0 := by
  obtain ⟨result, c, hmain, hwritten⟩ := written_main options turns w
  obtain ⟨result', c', hmain', haccounted⟩ := accounted_main .network options turns w
  obtain ⟨hresult, hc⟩ := Prod.mk.inj (hmain'.symm.trans hmain)
  cases hresult
  subst hc
  have hfinal : final .network options turns w = c' := by
    rw [final, hmain']
  refine ⟨result, c', hmain, ?_, fun code hcode hne => ?_⟩
  · exact hwritten.elim (fun h => h.1.behind) And.right
  · cases Option.mem_def.1 hcode
    have hend : Ends EndCode (Written []) (some code) c' :=
      hwritten.resolve_right fun h => hne (Option.some.inj h.1)
    have hbalanced : Balanced imagesPlan [] c' :=
      (haccounted.resolve_right fun h => hne (Option.some.inj h.1)).1
    refine ⟨?_, ?_, ?_, ?_, ?_⟩
    · rw [hbalanced.done_eq delivers_of_saved, filterMap_plan_of_sets fun _ => rfl]
      exact List.flatMap_congr fun set _ => filterMap_saved set
    · rw [hbalanced.done_eq delivers_of_row, filterMap_plan_of_sets fun _ => rfl]
      exact List.flatMap_congr fun set _ => filterMap_row set
    · rw [sentAcks, hbalanced.done_eq delivers_of_ack]
      exact filterMap_plan .network _
    · have hrows := hend.1.rows
      rwa [List.append_nil] at hrows
    · have hcount := imageCount_final options turns w
      rw [hfinal] at hcount
      rw [hend.2 code rfl, hcount, hend.1.counted]
      simp only [ofNat_eq_zero_iff]

end Network

end PrismSdk.Capture
