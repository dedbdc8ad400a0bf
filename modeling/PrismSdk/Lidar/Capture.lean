import PrismSdk.Gnss.Wire
import PrismSdk.Library.Effects
import PrismSdk.Lidar.Points
import PrismSdk.Telemetry

/-! The capture program `lidar_capture.cpp`. The LiDAR stream comes as a binary and answers
requests; what it hands to the two handlers of the program is counted. The options are
taken as given, and output to the console is left out. -/

namespace PrismSdk.Lidar.Capture

open Library.Effects
open Library.Effects.Program (locals modify throw throwIf loop guarded)

/-- What the program reads of a batch. -/
structure TimedBatch extends LidarPointBatch where
  timestampSynced : Bool := false
  timestampUtcUs : UInt64 := 0

structure LidarImuSample where
  timestampSynced : Bool := false
  timestampUtcUs : UInt64 := 0

/-- A call of one of the two handlers. -/
inductive Heard where
  | points (batch : TimedBatch)
  | imu (sample : LidarImuSample)

/-- What `LidarStream::handleFrame` does: it calls the handlers, and then returns or throws. -/
structure Handled where
  heard : List Heard
  returned : Except String Bool

/-- What the program prints of the status. -/
structure LidarStatus where
  enabled : Bool := false
  packetCount : UInt64 := 0
  pointCount : UInt64 := 0
  droppedPointCount : UInt64 := 0

def heartbeatType : UInt8 := 0x84

inductive Request where
  | openFirst
  | start (model : LidarModel)
  | active
  | stop
  | now
  | readFrame (timeoutMs : UInt32)
  | handleFrame (frame : Frame)
  | parseHeartbeat (frame : Frame)
  | lidarStatus

abbrev Answer : Request → Type
  | .active => Bool
  | .now => TimePoint
  | .readFrame _ => Frame
  | .handleFrame _ => Handled
  | .lidarStatus => LidarStatus
  | _ => Unit

structure LidarStatistics where
  pointBatches : UInt64 := 0
  points : UInt64 := 0
  synchronizedPointBatches : UInt64 := 0
  imuSamples : UInt64 := 0
  synchronizedImuSamples : UInt64 := 0
  lastPointTimestampUtcUs : UInt64 := 0
  lastImuTimestampUtcUs : UInt64 := 0

structure Locals where
  statistics : LidarStatistics := {}
  heartbeats : UInt64 := 0

abbrev Action := Program Answer Locals

def ask (r : Request) : Action (Answer r) := Program.request r

/-- A request that is `noexcept`. -/
def observe (r : Request) (fallback : Answer r) : Action (Answer r) := Program.observe r fallback

def LidarStatistics.ingest (s : LidarStatistics) : Heard → LidarStatistics
  | .points batch =>
    { s with
      pointBatches := s.pointBatches + 1
      points := s.points + UInt64.ofNat batch.points.length
      synchronizedPointBatches :=
        if batch.timestampSynced then s.synchronizedPointBatches + 1
        else s.synchronizedPointBatches
      lastPointTimestampUtcUs := batch.timestampUtcUs }
  | .imu sample =>
    { s with
      imuSamples := s.imuSamples + 1
      synchronizedImuSamples :=
        if sample.timestampSynced then s.synchronizedImuSamples + 1 else s.synchronizedImuSamples
      lastImuTimestampUtcUs := sample.timestampUtcUs }

structure Options where
  model : LidarModel := .none
  seconds : UInt32 := 10

def Options.deadline (options : Options) (started : TimePoint) : TimePoint :=
  started + options.seconds.toNat * oneSecond

def ingest (heard : Heard) : Action Unit :=
  modify fun l => { l with statistics := l.statistics.ingest heard }

/-- `stream.handleFrame(frame)`. -/
def handleFrame (frame : Frame) : Action Bool := do
  let handled ← ask (.handleFrame frame)
  handled.heard.forM ingest
  match handled.returned with
  | .ok taken => pure taken
  | .error what => throw what

/-- The body of the loop. -/
def turn : Action Unit := do
  let frame ← ask (.readFrame 3000)
  if ← handleFrame frame then pure ()
  else if frame.type = heartbeatType then
    ask (.parseHeartbeat frame)
    modify fun l => { l with heartbeats := l.heartbeats + 1 }
  else pure ()

def LidarGuard.destructor : Action Unit := do
  if ← observe .active false then (ask .stop).catching fun _ => pure () else pure ()

/-- The run while the loop makes at most `turns` turns; `none` is a run still in the loop. -/
def run (options : Options) (turns : ℕ) : Action (Option ℕ) := do
  ask .openFirst
  guarded (do
    ask (.start options.model)
    let active ← observe .active false
    throwIf (active = false) "LiDAR stream did not become active"
    let _ ← observe .active false
    let started ← observe .now 0
    let ended ← loop
      (do
        let now ← observe .now 0
        pure (decide (now < options.deadline started)))
      turn turns
    if ended then
      ask .stop
      let _ ← observe .now 0
      let _ ← ask .lidarStatus
      let l ← locals
      pure (some (if l.statistics.pointBatches = 0 then 3 else 0))
    else pure none) LidarGuard.destructor

def main (options : Options) (turns : ℕ) : Action (Option ℕ) := (run options turns).exitCode

/-! ### What is counted -/

/-- The calls of the handlers that are a part of the event. -/
def heardOf : Event Answer → List Heard
  | ⟨.handleFrame _, .ok handled⟩ => handled.heard
  | _ => []

/-- The calls of the handlers in a run, in order. -/
def heard (trace : List (Event Answer)) : List Heard := trace.flatMap heardOf

@[simp] theorem heard_append (t t' : List (Event Answer)) : heard (t ++ t') = heard t ++ heard t' :=
  List.flatMap_append

def Heard.batch? : Heard → Option TimedBatch
  | .points batch => some batch
  | .imu _ => none

def Heard.sample? : Heard → Option LidarImuSample
  | .points _ => none
  | .imu sample => some sample

def batches (hs : List Heard) : List TimedBatch := hs.filterMap Heard.batch?

def samples (hs : List Heard) : List LidarImuSample := hs.filterMap Heard.sample?

section Heard

variable (hs : List Heard) (batch : TimedBatch) (sample : LidarImuSample)

@[simp] theorem batches_points : batches (hs ++ [.points batch]) = batches hs ++ [batch] :=
  List.filterMap_append

@[simp] theorem batches_imu : batches (hs ++ [.imu sample]) = batches hs :=
  List.filterMap_append.trans (List.append_nil _)

@[simp] theorem samples_points : samples (hs ++ [.points batch]) = samples hs :=
  List.filterMap_append.trans (List.append_nil _)

@[simp] theorem samples_imu : samples (hs ++ [.imu sample]) = samples hs ++ [sample] :=
  List.filterMap_append

end Heard

/-- The statistics of some calls, as totals. -/
def totals (hs : List Heard) : LidarStatistics where
  pointBatches := UInt64.ofNat (batches hs).length
  points := UInt64.ofNat ((batches hs).map fun b => b.points.length).sum
  synchronizedPointBatches := UInt64.ofNat ((batches hs).countP fun b => b.timestampSynced)
  imuSamples := UInt64.ofNat (samples hs).length
  synchronizedImuSamples := UInt64.ofNat ((samples hs).countP fun s => s.timestampSynced)
  lastPointTimestampUtcUs := ((batches hs).getLast?.map fun b => b.timestampUtcUs).getD 0
  lastImuTimestampUtcUs := ((samples hs).getLast?.map fun s => s.timestampUtcUs).getD 0

theorem ingest_totals (hs : List Heard) (h : Heard) :
    (totals hs).ingest h = totals (hs ++ [h]) := by
  cases h with
  | points batch =>
    cases hsynced : batch.timestampSynced <;>
      simp [totals, LidarStatistics.ingest, hsynced, UInt64.ofNat_add]
  | imu sample =>
    cases hsynced : sample.timestampSynced <;>
      simp [totals, LidarStatistics.ingest, hsynced, UInt64.ofNat_add]

/-- The statistics are the totals of what was handed on, apart from `owed`. -/
structure Counted (owed : List Heard) (c : Config Answer Locals) : Prop where
  handed : ∃ done, heard c.trace = done ++ owed ∧ c.locals.statistics = totals done

/-- The request hands something on. -/
def Request.Hands : Request → Bool
  | .handleFrame _ => true
  | _ => false

theorem heardOf_of_not_hands {e : Event Answer} (h : e.request.Hands = false) : heardOf e = [] := by
  obtain ⟨r, outcome⟩ := e
  cases r <;> first | rfl | cases h

theorem framed_counted (owed : List Heard) :
    Framed Request.Hands (fun l => l.statistics) (Counted owed) where
  push c e he h := by
    obtain ⟨done, hheard, hdone⟩ := h.handed
    refine ⟨done, ?_, hdone⟩
    rw [Config.push_trace, heard_append, hheard]
    simp [heard, heardOf_of_not_hands he]
  set c l hl h := by
    obtain ⟨done, hheard, hdone⟩ := h.handed
    exact ⟨done, hheard, hl.trans hdone⟩

theorem counted_ingest (h : Heard) (rest : List Heard) :
    Triple (Counted (h :: rest)) (ingest h) (fun _ => Counted rest) (fun _ _ => False) := by
  refine Triple.modify ?_
  rintro c ⟨done, hheard, hdone⟩
  refine ⟨done ++ [h], by rw [hheard, List.append_assoc]; rfl, ?_⟩
  show c.locals.statistics.ingest h = _
  rw [hdone, ingest_totals]

theorem counted_handleFrame (frame : Frame) : Keeps (Counted []) (handleFrame frame) := by
  refine Triple.bind (Q := fun handled => Counted handled.heard) (Triple.request ?_ ?_)
    fun handled => Triple.bind (Q := fun _ => Counted [])
      ((Triple.forM_rest counted_ingest handled.heard).conseq (fun _ => id) (fun _ _ => id)
        fun _ _ => False.elim) fun _ => ?_
  · rintro c handled ⟨done, hheard, hdone⟩
    refine ⟨done, ?_, hdone⟩
    rw [Config.push_trace, heard_append, hheard]
    simp [heard, heardOf]
  · rintro c what ⟨done, hheard, hdone⟩
    refine ⟨done, ?_, hdone⟩
    rw [Config.push_trace, heard_append, hheard]
    simp [heard, heardOf]
  · cases handled.returned with
    | ok taken => exact Triple.pure fun _ => id
    | error what => exact Triple.throw fun _ => id

/-- The heartbeats that a run has parsed. -/
def Request.heartbeat? : Request → Option Frame
  | .parseHeartbeat frame => some frame
  | _ => none

def Beaten (c : Config Answer Locals) : Prop :=
  c.locals.heartbeats = UInt64.ofNat (done Request.heartbeat? c.trace).length

def Request.Beats (r : Request) : Bool := r.heartbeat?.isSome

theorem framed_beaten : Framed Request.Beats (fun l => l.heartbeats) Beaten where
  push c e he h := by
    have hnone : e.request.heartbeat? = none := Option.isNone_iff_eq_none.1 (by
      simpa [Request.Beats] using he)
    simpa [Beaten, done_push, hnone] using h
  set c l hl h := hl.trans h

/-- `(void)prism::parseHeartbeat(frame); ++heartbeats`. -/
theorem beaten_heartbeat (frame : Frame) : Keeps Beaten (do
    ask (.parseHeartbeat frame)
    modify fun l => { l with heartbeats := l.heartbeats + 1 }) := by
  refine Triple.bind (Q := fun _ (c : Config Answer Locals) => c.locals.heartbeats + 1 =
    UInt64.ofNat (done Request.heartbeat? c.trace).length) (Triple.request ?_ ?_) fun _ =>
      Triple.modify fun c h => h
  · intro c a h
    simp [done_push, Request.heartbeat?, UInt64.ofNat_add, h.symm]
  · intro c what h
    simpa [Beaten, done_push] using h

/-! ### Runs -/

/-- A condition that the two places keep where something is counted, and all else. -/
structure Kept (I : Config Answer Locals → Prop) : Prop where
  ask : ∀ r, r.Hands = false → r.Beats = false → Keeps I (ask r)
  observe : ∀ r fallback, r.Hands = false → r.Beats = false → Keeps I (observe r fallback)
  handleFrame : ∀ frame, Keeps I (handleFrame frame)
  heartbeat : ∀ frame, Keeps I (do
    Capture.ask (.parseHeartbeat frame)
    modify fun l => { l with heartbeats := l.heartbeats + 1 })

namespace Kept

variable {I : Config Answer Locals → Prop}

theorem turn (h : Kept I) : Keeps I turn :=
  Triple.bind (h.ask _ rfl rfl) fun frame => Triple.bind (h.handleFrame frame) fun _ =>
    Triple.ite (fun _ => Triple.pure fun _ => id) fun _ =>
      Triple.ite (fun _ => h.heartbeat frame) fun _ => Triple.pure fun _ => id

theorem destructor (h : Kept I) : Keeps I LidarGuard.destructor :=
  Triple.bind (h.observe _ _ rfl rfl) fun _ => Triple.ite
    (fun _ => Triple.catching (h.ask _ rfl rfl) fun _ => Triple.pure fun _ => id)
    fun _ => Triple.pure fun _ => id

theorem run (h : Kept I) (options : Options) (turns : ℕ) : Keeps I (run options turns) := by
  refine Triple.bind (h.ask _ rfl rfl) fun _ => Triple.guarded (S := fun _ => I) ?_ (fun _ => id)
    (fun _ => h.destructor) fun _ => h.destructor
  refine Triple.bind (h.ask _ rfl rfl) fun _ => Triple.bind (h.observe _ _ rfl rfl) fun _ =>
    Triple.bind (Triple.throwIf (fun _ _ => id) fun _ _ => id) fun _ =>
    Triple.bind (h.observe _ _ rfl rfl) fun _ => Triple.bind (h.observe _ _ rfl rfl) fun _ =>
    Triple.bind (Triple.loop (Triple.bind (h.observe _ _ rfl rfl) fun _ => Triple.pure fun _ => id)
      h.turn turns) fun _ => Triple.ite (fun _ => ?_) fun _ => Triple.pure fun _ => id
  exact Triple.bind (h.ask _ rfl rfl) fun _ => Triple.bind (h.observe _ _ rfl rfl) fun _ =>
    Triple.bind (h.ask _ rfl rfl) fun _ => Triple.bind (Q := fun _ => I)
      (Triple.locals fun _ => id) fun _ => Triple.pure fun _ => id

end Kept

theorem kept_counted : Kept (Counted []) where
  ask _ hr _ := (framed_counted []).ask hr
  observe _ _ hr _ := (framed_counted []).observe hr
  handleFrame := counted_handleFrame
  heartbeat _ := Triple.bind ((framed_counted []).ask rfl) fun _ =>
    (framed_counted []).modify fun _ => rfl

theorem kept_beaten : Kept Beaten where
  ask _ _ hr := framed_beaten.ask hr
  observe _ _ _ hr := framed_beaten.observe hr
  handleFrame _ := Triple.bind (framed_beaten.ask rfl) fun handled =>
    Triple.bind (Triple.forM fun _ _ => framed_beaten.modify fun _ => rfl) fun _ => by
      cases handled.returned with
      | ok taken => exact Triple.pure fun _ => id
      | error what => exact Triple.throw fun _ => id
  heartbeat := beaten_heartbeat

/-! ### The stop -/

/-- The last that the guard does. -/
inductive Left : List (Event Answer) → Prop where
  | inactive (before : List (Event Answer)) : Left (before ++ [⟨.active, .ok false⟩])
  | stopped (before : List (Event Answer)) (outcome : Except String Unit) :
    Left (before ++ [⟨.active, .ok true⟩] ++ [⟨.stop, outcome⟩])

/-- What a run that ends without an exception has behind it. -/
def Closed (code : ℕ) (c : Config Answer Locals) : Prop :=
  ⟨.stop, .ok ()⟩ ∈ c.trace ∧ code = if c.locals.statistics.pointBatches = 0 then 3 else 0

theorem left_destructor {P : Config Answer Locals → Prop} (hpush : ∀ c e, P c → P (c.push e))
    {E : String → Config Answer Locals → Prop} :
    Triple P LidarGuard.destructor (fun _ c => P c ∧ Left c.trace) E := by
  refine Triple.bind (Q := fun b c => P c ∧ ∃ before, c.trace = before ++ [⟨.active, .ok b⟩])
    (Triple.observe fun c b h => ⟨hpush _ _ h, c.trace, rfl⟩) fun b => ?_
  cases b with
  | false =>
    refine Triple.pure ?_
    rintro c ⟨h, before, htrace⟩
    exact ⟨h, htrace ▸ .inactive before⟩
  | true =>
    refine Triple.catching (F := fun _ c => P c ∧ Left c.trace) (Triple.request ?_ ?_) fun _ =>
      Triple.pure fun _ => id
    · rintro c a ⟨h, before, htrace⟩
      exact ⟨hpush _ _ h, by rw [Config.push_trace, htrace]; exact .stopped before (.ok a)⟩
    · rintro c what ⟨h, before, htrace⟩
      exact ⟨hpush _ _ h, by rw [Config.push_trace, htrace]; exact .stopped before (.error what)⟩

/-- A run that has ended has been through the guard, or has not opened the device. -/
def Ended (result : Option ℕ) (c : Config Answer Locals) : Prop :=
  ∀ code ∈ result, Closed code c ∧ Left c.trace

theorem ended_run (options : Options) (turns : ℕ) :
    Triple (fun c => c.trace = []) (run options turns) Ended
      fun _ c => (∃ what, c.trace = [⟨.openFirst, .error what⟩]) ∨ Left c.trace := by
  refine Triple.bind (Q := fun _ _ => True) (Triple.request (fun _ _ _ => trivial) ?_) fun _ =>
    Triple.guarded (F := fun _ _ => True) (S := fun result c => ∀ code ∈ result, Closed code c)
      ?_ ?_ (fun code => ?_) fun what => ?_
  · rintro c what h
    exact .inl ⟨what, by rw [Config.push_trace, h]; rfl⟩
  · refine Triple.bind .trivial fun _ => Triple.bind .trivial fun _ => Triple.bind .trivial fun _ =>
      Triple.bind .trivial fun _ => Triple.bind .trivial fun _ => Triple.bind .trivial fun ended =>
        Triple.ite (fun _ => ?_) fun _ => Triple.pure fun _ _ => nofun
    refine Triple.bind (Q := fun _ c => ⟨.stop, .ok ()⟩ ∈ c.trace) (Triple.request
      (fun c a _ => List.mem_append_right _ (List.mem_singleton_self _)) fun _ _ _ => trivial)
      fun _ => ?_
    refine Triple.bind (Q := fun _ c => ⟨.stop, .ok ()⟩ ∈ c.trace)
      (Triple.observe fun c a h => List.mem_append_left _ h) fun _ => ?_
    refine Triple.bind (Q := fun _ c => ⟨.stop, .ok ()⟩ ∈ c.trace)
      (Triple.request (fun c a h => List.mem_append_left _ h) fun _ _ _ => trivial) fun _ => ?_
    refine Triple.bind (Q := fun l c => ⟨.stop, .ok ()⟩ ∈ c.trace ∧ l = c.locals)
      (Triple.locals fun c h => ⟨h, rfl⟩) fun l => Triple.pure ?_
    rintro c ⟨hstop, rfl⟩ code hcode
    exact ⟨hstop, (Option.mem_some_iff.1 hcode).symm⟩
  · exact fun _ _ => nofun
  · refine (left_destructor (P := fun c => ∀ n ∈ some code, Closed n c) ?_).conseq (fun _ => id)
      (fun _ c h n hn => ⟨h.1 n hn, h.2⟩) fun _ _ => id
    exact fun c e h n hn => ⟨List.mem_append_left _ (h n hn).1, (h n hn).2⟩
  · exact (left_destructor (P := fun _ => True) fun _ _ => id).conseq (fun _ => id)
      (fun _ _ h => .inr h.2) fun _ _ => id

/-- Whatever the device does, in every run of the capture: the statistics are the totals of
what the stream handed on and the heartbeats are those that were parsed. A run that has
ended has not opened the device, or its guard found the stream inactive, or asked for the
stop. One that ends with a code other than 1 has stopped the stream before, and its code
is 3 when it counted no batch of points, and else 0. -/
theorem capture_exact (options : Options) (turns : ℕ) (w : World Answer) :
    ∃ result c, main options turns w { locals := {} } = (.ok result, c) ∧
      c.locals.statistics = totals (heard c.trace) ∧
      c.locals.heartbeats = UInt64.ofNat (done Request.heartbeat? c.trace).length ∧
      ∀ code ∈ result, ((∃ what, c.trace = [⟨.openFirst, .error what⟩]) ∨ Left c.trace) ∧
        (code ≠ 1 → ⟨.stop, .ok ()⟩ ∈ c.trace ∧
          code = if 2 ^ 64 ∣ (batches (heard c.trace)).length then 3 else 0) := by
  have hcounted := kept_counted.run options turns
  have hbeaten := kept_beaten.run options turns
  have hinit : (Counted [] { locals := {} } ∧ Beaten { locals := {} }) ∧
      ({ locals := {} } : Config Answer Locals).trace = [] := ⟨⟨⟨[], rfl, rfl⟩, rfl⟩, rfl⟩
  have hstatistics : ∀ {c : Config Answer Locals}, Counted [] c →
      c.locals.statistics = totals (heard c.trace) := by
    rintro c ⟨done, hheard, hdone⟩
    rw [hheard, List.append_nil, hdone]
  obtain ⟨result, c, hrun, ⟨⟨h, hbeats⟩, hended⟩ | ⟨rfl, ⟨h, hbeats⟩, hended⟩⟩ :=
    ((hcounted.and hbeaten).and (ended_run options turns)).exitCode w hinit
  · refine ⟨result, c, hrun, hstatistics h, hbeats, fun code hcode => ?_⟩
    obtain ⟨⟨hstop, hvalue⟩, hleft⟩ := hended code hcode
    refine ⟨.inr hleft, fun _ => ⟨hstop, ?_⟩⟩
    rw [hvalue, hstatistics h]
    simp only [totals, ofNat_eq_zero_iff]
  · refine ⟨some 1, c, hrun, hstatistics h, hbeats, fun code hcode => ⟨hended, fun hne => ?_⟩⟩
    exact absurd (Option.mem_some_iff.1 hcode).symm hne

end PrismSdk.Lidar.Capture
