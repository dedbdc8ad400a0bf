import PrismSdk.Capture.Acks

/-! The life of a capture on the device. A capture that was started is stopped before its
program ends, in whatever way it ends: the guard asks for the stop once, and once more when
that has failed. -/

namespace PrismSdk.Capture

open Camera (CameraFrameSet)
open Library.Effects

namespace Request

def IsStart : Request → Bool
  | .startVideo _ => true
  | _ => false

def IsStop : Request → Bool
  | .imuStop | .stopVideo => true
  | _ => false

/-- The request starts or stops the capture. -/
def Governs (r : Request) : Bool := r.IsStart || r.IsStop

end Request

/-- The requests of a run that start and stop the capture. -/
def lifecycle (trace : List (Event Answer)) : List (Event Answer) :=
  trace.filter fun e => e.request.Governs

/-- The guard is armed or not, and the capture has been started and stopped as told. -/
def Governed (armed : Bool) (events : List (Event Answer)) (c : Config Answer Locals) : Prop :=
  c.locals.armed = armed ∧ lifecycle c.trace = events

theorem framed_governed (armed : Bool) (events : List (Event Answer)) :
    Framed Request.Governs (fun l => l.armed) (Governed armed events) :=
  framed_of _ _ fun b es => b = armed ∧ es = events

variable {armed : Bool} {events : List (Event Answer)}

theorem Governed.push {c : Config Answer Locals} {e : Event Answer} (h : Governed armed events c)
    (he : e.request.Governs) : Governed armed (events ++ [e]) (c.push e) := by
  refine ⟨h.1, ?_⟩
  rw [← h.2]
  simp [lifecycle, he]

/-- A request that starts or stops the capture. -/
theorem governed_ask {r : Request} (hr : r.Governs) :
    Triple (Governed armed events) (ask r)
      (fun a => Governed armed (events ++ [⟨r, .ok a⟩]))
      (fun what => Governed armed (events ++ [⟨r, .error what⟩])) :=
  Triple.request (fun _ _ h => h.push hr) fun _ _ h => h.push hr

/-- One stop, which succeeds or throws. -/
def StoppedOnce (armed : Bool) (events : List (Event Answer)) (succeeds : Bool)
    (c : Config Answer Locals) : Prop :=
  ∃ stop : Event Answer, stop.request.IsStop ∧ stop.succeeds = succeeds ∧
    Governed armed (events ++ [stop]) c

theorem stoppedOnce_ask {r : Request} (hr : r.Governs) (hstop : r.IsStop) :
    Triple (Governed armed events) (ask r)
      (fun _ => StoppedOnce armed events true) fun _ => StoppedOnce armed events false :=
  (governed_ask hr).conseq (fun _ => id) (fun _ _ h => ⟨_, hstop, rfl, h⟩)
    fun _ _ h => ⟨_, hstop, rfl, h⟩

theorem stoppedOnce_stopStreams : Triple (Governed armed events) stopStreams
    (fun _ => StoppedOnce armed events true) (fun _ => StoppedOnce armed events false) := by
  exact Triple.bind (Q := fun _ => Governed armed events)
    (Triple.observe fun c _ => (framed_governed armed events).push c _ rfl) fun _ =>
      Triple.ite (fun _ => stoppedOnce_ask rfl rfl) fun _ => stoppedOnce_ask rfl rfl

/-- A guard that is armed stops the capture, and is then no longer armed. -/
theorem stoppedOnce_stop : Triple (Governed true events) CaptureGuard.stop
    (fun _ => StoppedOnce false events true) (fun _ => StoppedOnce true events false) := by
  refine Triple.bind (Q := fun l c => Governed true events c ∧ l.armed = true)
    (Triple.locals fun c h => ⟨h, h.1⟩) fun l => Triple.ite (fun _ => ?_) fun hl => ?_
  · refine Triple.bind (stoppedOnce_stopStreams.conseq (fun _ => And.left) (fun _ _ => id)
      fun _ _ => id) fun _ => Triple.modify ?_
    rintro c ⟨stop, hstop, hsucceeds, h⟩
    exact ⟨stop, hstop, hsucceeds, rfl, h.2⟩
  · exact Triple.pure fun _ h => absurd h.2 hl

/-- The destructor of a guard that is armed asks for the stop, and hides its failure. -/
theorem stoppedOnce_destructor {E : String → Config Answer Locals → Prop} :
    Triple (Governed true events) CaptureGuard.destructor
      (fun _ c => ∃ succeeds, StoppedOnce true events succeeds c) E := by
  refine Triple.bind (Q := fun l c => Governed true events c ∧ l.armed = true)
    (Triple.locals fun c h => ⟨h, h.1⟩) fun l => Triple.ite (fun _ => ?_) fun hl => ?_
  · exact Triple.catching (stoppedOnce_stopStreams.conseq (fun _ => And.left)
      (fun _ _ h => ⟨true, h⟩) fun _ _ => id) fun _ => Triple.pure fun _ h => ⟨false, h⟩
  · exact Triple.pure fun _ h => absurd h.2 hl

/-- The destructor of a guard that is not armed does nothing. -/
theorem governed_destructor {E : String → Config Answer Locals → Prop} :
    Triple (Governed false events) CaptureGuard.destructor (fun _ => Governed false events) E := by
  refine Triple.bind (Q := fun l c => Governed false events c ∧ l.armed = false)
    (Triple.locals fun c h => ⟨h, h.1⟩) fun l => Triple.ite (fun hl => ?_) fun _ => ?_
  · rintro w c ⟨-, h⟩
    rw [h] at hl
    cases hl
  · exact Triple.pure fun _ => And.left

/-! ### Runs -/

/-- The starts and stops of a run that has ended. -/
inductive Lifecycle (link : Link) : List (Event Answer) → Prop where
  | unopened : Lifecycle link []
  /-- The start failed, and only the network capture arms its guard before. -/
  | refused (start : Event Answer) (isStart : start.request.IsStart)
      (failed : start.succeeds = false) (unarmed : link = .usb) : Lifecycle link [start]
  | stopped (start stop : Event Answer) (isStart : start.request.IsStart)
      (isStop : stop.request.IsStop) : Lifecycle link [start, stop]
  /-- The stop failed, and the destructor asked again. -/
  | retried (start stop stop' : Event Answer) (isStart : start.request.IsStart)
      (isStop : stop.request.IsStop) (failed : stop.succeeds = false)
      (isStop' : stop'.request.IsStop) : Lifecycle link [start, stop, stop']

/-- The capture is running. -/
def Running (c : Config Answer Locals) : Prop :=
  ∃ start : Event Answer, start.request.IsStart ∧ start.succeeds ∧ Governed true [start] c

/-- The capture was stopped, and the device confirmed it. -/
def Confirmed (c : Config Answer Locals) : Prop :=
  ∃ start stop : Event Answer, start.request.IsStart ∧ start.succeeds ∧ stop.request.IsStop ∧
    stop.succeeds ∧ Governed false [start, stop] c

/-- What an exception leaves to the destructor. -/
def Thrown (link : Link) (c : Config Answer Locals) : Prop :=
  Governed false [] c ∨
    (∃ start : Event Answer, start.request.IsStart ∧ (Governed true [start] c ∨
      (start.succeeds = false ∧ link = .usb) ∧ Governed false [start] c)) ∨
    (∃ start stop : Event Answer, start.request.IsStart ∧ stop.request.IsStop ∧
      stop.succeeds = false ∧ Governed true [start, stop] c) ∨ Confirmed c

variable {link : Link}

theorem Running.thrown {c : Config Answer Locals} (h : Running c) : Thrown link c := by
  obtain ⟨start, hstart, -, h⟩ := h
  exact .inr (.inl ⟨start, hstart, .inl h⟩)

theorem framed_running : Framed Request.Governs (fun l => l.armed) Running :=
  framed_of _ _ fun b es => ∃ start : Event Answer, start.request.IsStart ∧ start.succeeds ∧
    b = true ∧ es = [start]

theorem framed_confirmed : Framed Request.Governs (fun l => l.armed) Confirmed :=
  framed_of _ _ fun b es => ∃ start stop : Event Answer, start.request.IsStart ∧ start.succeeds ∧
    stop.request.IsStop ∧ stop.succeeds ∧ b = false ∧ es = [start, stop]

/-- The exception of a part that keeps the capture running. -/
theorem running_of_keeps {α : Type} {x : Action α} (h : Keeps Running x) :
    Triple Running x (fun _ => Running) (fun _ => Thrown link) :=
  h.conseq (fun _ => id) (fun _ _ => id) fun _ _ => Running.thrown

theorem running_stop :
    Triple Running CaptureGuard.stop (fun _ => Confirmed) (fun _ => Thrown link) := by
  rintro w c ⟨start, hstart, hsucceeds, h⟩
  refine (stoppedOnce_stop.conseq (fun _ => id) ?_ ?_) w c h
  · rintro _ c ⟨stop, hstop, hs, h⟩
    exact ⟨start, stop, hstart, hsucceeds, hstop, hs, h⟩
  · rintro _ c ⟨stop, hstop, hs, h⟩
    exact .inr (.inr (.inl ⟨start, stop, hstart, hstop, hs, h⟩))

/-- After the destructor, the capture has been stopped, or was never started. -/
theorem lifecycle_destructor {E : String → Config Answer Locals → Prop} :
    Triple (Thrown link) CaptureGuard.destructor (fun _ c => Lifecycle link (lifecycle c.trace)) E := by
  rintro w c (h | ⟨start, hstart, h | ⟨⟨hfailed, husb⟩, h⟩⟩ | ⟨start, stop, hstart, hstop, hfailed, h⟩ |
    ⟨start, stop, hstart, -, hstop, -, h⟩)
  · exact (governed_destructor.conseq (fun _ => id)
      (fun _ c h => by rw [h.2]; exact .unopened) fun _ _ => id) w c h
  · refine (stoppedOnce_destructor.conseq (fun _ => id) ?_ fun _ _ => id) w c h
    rintro _ c ⟨succeeds, stop, hstop, -, h⟩
    rw [h.2]
    exact .stopped start stop hstart hstop
  · exact (governed_destructor.conseq (fun _ => id)
      (fun _ c h => by rw [h.2]; exact .refused start hstart hfailed husb) fun _ _ => id) w c h
  · refine (stoppedOnce_destructor.conseq (fun _ => id) ?_ fun _ _ => id) w c h
    rintro _ c ⟨succeeds, stop', hstop', -, h⟩
    rw [h.2]
    exact .retried start stop stop' hstart hstop hfailed hstop'
  · exact (governed_destructor.conseq (fun _ => id)
      (fun _ c h => by rw [h.2]; exact .stopped start stop hstart hstop) fun _ _ => id) w c h

/-- A run in its loop is running; one that has ended has been stopped. -/
def Finishes (result : Option ℕ) (c : Config Answer Locals) : Prop :=
  match result with
  | none => Running c
  | some _ => Confirmed c

theorem finishes_guarded {x : Action (Option ℕ)}
    (h : Triple (Governed false []) x Finishes (fun _ => Thrown link)) :
    Triple (Governed false []) (x.guarded CaptureGuard.destructor) Finishes
      (fun _ c => Lifecycle link (lifecycle c.trace)) := by
  refine Triple.guarded h (fun _ => id) (fun n => ?_) fun _ => lifecycle_destructor
  rintro w c ⟨start, stop, hstart, hsucceeds, hstop, hs, h⟩
  exact (governed_destructor.conseq (fun _ => id)
    (fun _ c h => ⟨start, stop, hstart, hsucceeds, hstop, hs, h⟩) fun _ _ => id) w c h

theorem running_turn {save : CameraFrameSet → Action Unit} {sample : ImuSample → Action Unit}
    (hsave : ∀ set, Keeps Running (save set)) (hsample : ∀ s, Keeps Running (sample s)) :
    Triple Running (turn save sample) (fun _ => Running) (fun _ => Thrown link) :=
  have h := framed_running
  have hinside : Inside Request.Governs (fun l => l.armed) Running Running save sample :=
    { framed := h
      le := fun _ => id
      quiet := fun r hr => by cases r <;> first | rfl | cases hr
      besides := fun _ _ hl => hl.armed
      acknowledge := fun _ => Triple.bind (h.ask rfl) fun _ => h.modify fun _ => rfl
      save := hsave
      handleFrame := fun _ => triple_handleFrame h rfl (fun _ => id) hsample }
  running_of_keeps hinside.turn

/-- The loop of a running capture, and the stop after it. -/
theorem finishes_loop {condition : Action Bool} {body : Action Unit} {rest : Action (Option ℕ)}
    (hcondition : Keeps Running condition)
    (hbody : Triple Running body (fun _ => Running) (fun _ => Thrown link))
    (hrest : Triple Running rest Finishes (fun _ => Thrown link)) (turns : ℕ) :
    Triple Running (do
        let ended ← Program.loop condition body turns
        if ended then rest else pure none) Finishes (fun _ => Thrown link) :=
  Triple.bind (Triple.loop (running_of_keeps hcondition) hbody turns) fun _ =>
    Triple.ite (fun _ => hrest) fun _ => Triple.pure fun _ => id

/-- What the programs do before they start the capture. -/
theorem unopened_of_keeps {α : Type} {x : Action α} (h : Keeps (Governed false []) x) :
    Triple (Governed false []) x (fun _ => Governed false [])
      (fun _ c => Lifecycle link (lifecycle c.trace)) :=
  h.conseq (fun _ => id) (fun _ _ => id) fun _ c hc => by rw [hc.2]; exact .unopened

namespace Usb

theorem finishes_runCapture (options : Options) (turns : ℕ) :
    Triple (Governed false []) (runCapture options turns) Finishes
      (fun _ c => Lifecycle .usb (lifecycle c.trace)) := by
  have hframed := framed_governed false []
  have h := framed_running
  refine Triple.bind (unopened_of_keeps (hframed.ask rfl)) fun _ =>
    Triple.bind (unopened_of_keeps (hframed.ask rfl)) fun device => finishes_guarded ?_
  have hstart : Triple (Governed false []) (ask (.startVideo options.cameraFps))
      (fun video => Governed false [⟨.startVideo options.cameraFps, .ok video⟩])
      (fun _ => Thrown .usb) :=
    (governed_ask rfl).conseq (fun _ => id) (fun _ _ => id)
      fun _ _ hc => .inr (.inl ⟨_, rfl, .inr ⟨⟨rfl, rfl⟩, hc⟩⟩)
  refine Triple.bind hstart fun video =>
    Triple.bind (Q := fun _ => Running) (Triple.modify fun c hc => ⟨_, rfl, rfl, rfl, hc.2⟩) fun _ =>
    Triple.bind (running_of_keeps (Triple.throwIf (fun _ _ => id) fun _ _ => id)) fun _ =>
    Triple.bind (running_of_keeps (h.ask rfl)) fun _ =>
    Triple.bind (running_of_keeps (h.observe rfl)) fun start => finishes_loop ?_ ?_ ?_ turns
  · exact Triple.bind (h.observe rfl) fun _ => Triple.pure fun _ => id
  · exact running_turn (fun set => Triple.forM fun i _ => Triple.ite (fun _ => h.modify fun _ => rfl)
      fun _ => Triple.pure fun _ => id) (keeps_statistics h fun _ _ => rfl)
  · exact Triple.bind running_stop fun _ => Triple.bind
      (Triple.observe fun c _ => framed_confirmed.push c _ rfl) fun _ =>
        Triple.bind (Q := fun _ => Confirmed) (Triple.locals fun _ => id) fun _ =>
          Triple.pure fun _ => id

end Usb

namespace Network

theorem unopened_openCapture (options : Options) :
    Keeps (Governed false []) (openCapture options) :=
  have h := framed_governed false []
  have hask {r : Request} (hr : r.Governs = false) := h.ask hr
  have hthrow {bad : Prop} [Decidable bad] {what : String} :
      Keeps (Governed false []) (Program.throwIf bad what) :=
    Triple.throwIf (fun _ _ => id) fun _ _ => id
  Triple.bind (hask rfl) fun _ => Triple.bind hthrow fun _ => Triple.bind (hask rfl) fun _ =>
    Triple.bind (hask rfl) fun _ => Triple.bind hthrow fun _ => Triple.bind (hask rfl) fun _ =>
    Triple.bind (hask rfl) fun _ => Triple.bind (hask rfl) fun _ => Triple.bind (hask rfl) fun _ =>
    Triple.bind (hask rfl) fun _ => Triple.bind hthrow fun _ => Triple.bind (hask rfl) fun _ =>
    Triple.pure fun _ => id

theorem finishes_runCapture (options : Options) (turns : ℕ) :
    Triple (Governed false []) (runCapture options turns) Finishes
      (fun _ c => Lifecycle .network (lifecycle c.trace)) := by
  have h := framed_running
  have hconfirmed := framed_confirmed
  have hkept {r : Request} (hr : r.Governs = false) :
      Triple Confirmed (ask r) (fun _ => Confirmed) (fun _ => Thrown .network) :=
    (hconfirmed.ask hr).conseq (fun _ => id) (fun _ _ => id)
      fun _ _ hc => .inr (.inr (.inr hc))
  refine Triple.bind (unopened_of_keeps (unopened_openCapture options)) fun device =>
    finishes_guarded ?_
  have hstart : Triple (Governed true []) (ask (.startVideo options.cameraFps))
      (fun _ => Running) (fun _ => Thrown .network) :=
    (governed_ask rfl).conseq (fun _ => id) (fun _ _ hc => ⟨_, rfl, rfl, hc⟩)
      fun _ _ hc => .inr (.inl ⟨_, rfl, .inl hc⟩)
  refine Triple.bind (Q := fun _ => Governed true []) (Triple.modify fun c hc => ⟨rfl, hc.2⟩)
    fun _ => Triple.bind hstart fun video =>
    Triple.bind (running_of_keeps (Triple.throwIf (fun _ _ => id) fun _ _ => id)) fun _ =>
    Triple.bind (running_of_keeps (h.ask rfl)) fun _ =>
    Triple.bind (running_of_keeps (h.observe rfl)) fun start => finishes_loop ?_ ?_ ?_ turns
  · exact Triple.bind (h.observe rfl) fun _ => Triple.ite (fun _ => Triple.pure fun _ => id)
      fun _ => Triple.bind (h.observe rfl) fun _ => Triple.pure fun _ => id
  · exact running_turn (fun set => Triple.forM fun i _ => Triple.ite (fun _ => Triple.pure fun _ => id)
      fun _ => Triple.bind (h.ask rfl) fun _ => Triple.bind (h.ask rfl) fun _ =>
        Triple.bind (h.ask rfl) fun _ => Triple.bind (h.ask rfl) fun _ => h.modify fun _ => rfl)
      fun s => Triple.bind (keeps_statistics h (fun _ _ => rfl) s) fun _ => h.ask rfl
  · exact Triple.bind running_stop fun _ => Triple.bind (hkept rfl) fun _ =>
      Triple.bind (hkept rfl) fun _ => Triple.bind
        (Triple.observe fun c _ => hconfirmed.push c _ rfl) fun _ =>
          Triple.bind (Q := fun _ => Confirmed) (Triple.locals fun _ => id) fun _ =>
            Triple.pure fun _ => id

end Network

/-- A capture never leaves the device running. Whatever the device does, every run of
either capture that has ended has asked for the stop after a start that did not throw, the
network capture also after one that threw, and a second time only when the first stop had
failed; a run that ends without an exception has been stopped with success, and one that is
still in its loop has not been stopped. -/
theorem stop_attempted (link : Link) (options : Options) (turns : ℕ) (w : World Answer) :
    ∃ result c, main link options turns w { locals := {} } = (.ok result, c) ∧
      match result with
      | none => Running c
      | some code => Lifecycle link (lifecycle c.trace) ∧ (code ≠ 1 → Confirmed c) := by
  have hrun : ∃ result c, main link options turns w { locals := {} } = (.ok result, c) ∧
      (Finishes result c ∨ result = some 1 ∧ Lifecycle link (lifecycle c.trace)) := by
    cases link with
    | usb => exact (Usb.finishes_runCapture options turns).exitCode w ⟨rfl, rfl⟩
    | network => exact (Network.finishes_runCapture options turns).exitCode w ⟨rfl, rfl⟩
  obtain ⟨result, c, hmain, h | ⟨rfl, h⟩⟩ := hrun
  · refine ⟨result, c, hmain, ?_⟩
    cases result with
    | none => exact h
    | some code =>
      obtain ⟨start, stop, hstart, -, hstop, -, hgoverned⟩ := id h
      refine ⟨?_, fun _ => h⟩
      rw [hgoverned.2]
      exact .stopped start stop hstart hstop
  · exact ⟨some 1, c, hmain, h, fun hcode => absurd rfl hcode⟩

end PrismSdk.Capture
