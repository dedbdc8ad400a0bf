import PrismSdk.Gnss.Transcript
import PrismSdk.Library.Effects
import PrismSdk.Telemetry

/-! The loop of `rtk_position.cpp` around `PositionReader`. It asks for what is past the
cursor of the last answer, hands every answer to the reader, and prints what the reader
makes of it. The notices of the program are left out, and its self-test is a request. -/

namespace PrismSdk.Gnss.Monitor

open Library Library.Effects
open Library.Effects.Program (locals modify throw loop)

inductive TimeSyncPortMode where
  | sensorBoardMaster | ppsNmeaOutput | rtk
  deriving DecidableEq

structure TimeSyncPortStatus where
  mode : TimeSyncPortMode := .sensorBoardMaster
  applied : Bool := false

/-- What `moduleStatus` prints. -/
structure TimeSyncRtkStatus where
  linked : Bool := false
  deviceStatusFresh : Bool := false
  controlStatusFresh : Bool := false
  controlState : UInt8 := 0
  controlGeneration : UInt32 := 0
  errorCode : Int32 := 0
  controlError : UInt8 := 0
  configurationSaved : Bool := false
  configurationApplied : Bool := false
  rtcmFrames : UInt32 := 0
  rtcmAgeMs : UInt32 := 0
  rtcmErrors : UInt32 := 0

/-- What the monitor asks for. `startTime`, `tick` and `statusTime` are the readings of the
clock before the loop, at the top of a turn and after a status; `selfTest` throws when a test
fails. -/
inductive Request where
  | selfTest
  | enumerate
  | openFront
  | timeSyncPortStatus
  | deadlineTime
  | startTime
  | tick
  | timeSyncRtkStatus
  | statusTime
  | gnssObservations (cursor session : UInt64)
  | sleepUntil (time : TimePoint)
  | interrupted
  | now

abbrev Answer : Request → Type
  | .enumerate => ℕ
  | .timeSyncPortStatus => TimeSyncPortStatus
  | .timeSyncRtkStatus => TimeSyncRtkStatus
  | .gnssObservations _ _ => GnssObservations
  | .deadlineTime | .startTime | .tick | .statusTime | .now => TimePoint
  | .interrupted => Bool
  | .selfTest | .openFront | .sleepUntil _ => Unit

variable (D : Type) [Double D]

/-- What the monitor prints for an answer. -/
inductive Report where
  | module (status : TimeSyncRtkStatus)
  | line (line : Line D)

structure Locals where
  nextStatus : TimePoint := 0
  positions : PositionReader D := {}
  out : List (Report D) := []

abbrev Action := Program Answer (Locals D)

variable {D}

def ask (r : Request) : Action D (Answer r) := Program.request r

/-- A request that does not fail. -/
def observe (r : Request) (fallback : Answer r) : Action D (Answer r) := Program.observe r fallback

def oneHundredMs : TimePoint := 100000000

/-! ### Arguments -/

/-- The value of `--seconds`. -/
def duration (text : Text) : Except String ℕ :=
  if text = [] ∨ text.length > 5 ∨ allDigits text = false then
    .error "--seconds must be an integer in 1..86400"
  else
    let seconds := decimal text
    if seconds = 0 ∨ seconds > 86400 then .error "--seconds must be an integer in 1..86400"
    else .ok seconds

/-- What the arguments ask for. -/
inductive Command where
  | selfTest
  | help
  | watch (seconds : ℕ)

/-- What `main` makes of its arguments. -/
def command : List Text → Except String Command
  | [] => .ok (.watch 30)
  | [option] =>
    if option = ascii "--self-test" then .ok .selfTest
    else if option = ascii "--help" then .ok .help
    else .error "invalid arguments; use --help"
  | [option, text] =>
    if option = ascii "--seconds" then (duration text).map .watch
    else .error "invalid arguments; use --help"
  | _ => .error "invalid arguments; use --help"

/-! ### The loop -/

def moduleStatus : Action D Unit := do
  let status ← ask .timeSyncRtkStatus
  modify fun l => { l with out := l.out ++ [.module status] }
  let now ← observe .statusTime 0
  modify fun l => { l with nextStatus := now + oneSecond }

def consume (batch : GnssObservations) : Action D Unit :=
  modify fun l =>
    { l with
      positions := (l.positions.consume batch).1
      out := l.out ++ (l.positions.consume batch).2.map .line }

/-- `if (tick >= next_status)`. -/
def statusAt (tick : TimePoint) : Action D Unit := do
  let l ← locals
  if l.nextStatus ≤ tick then moduleStatus else pure ()

/-- `positions.consume(client.gnssObservations(positions.model.cursor, positions.model.session))`. -/
def observations : Action D Unit := do
  let l ← locals
  let batch ← ask (.gnssObservations l.positions.model.cursor l.positions.model.session)
  consume batch

/-- The body of the loop. -/
def poll (deadline : TimePoint) : Action D Unit := do
  let tick ← observe .tick 0
  statusAt tick
  observations
  observe (.sleepUntil (min deadline (tick + oneHundredMs))) ()

/-- The condition of the loop. -/
def goesOn (deadline : TimePoint) : Action D Bool := do
  if ← observe .interrupted false then pure false
  else
    let now ← observe .now 0
    pure (decide (now < deadline))

/-- What is done with the arguments accepted, while the loop makes at most `turns` turns after
the first; `none` is a run still in the loop. -/
def watch (seconds turns : ℕ) : Action D (Option ℕ) := do
  let devices ← ask .enumerate
  Program.throwIf (devices ≠ 1) "connect exactly one Prism USB device"
  ask .openFront
  let port ← ask .timeSyncPortStatus
  Program.throwIf (port.mode ≠ .rtk ∨ port.applied = false)
    "select and apply RTK mode while capture is stopped; this example will not switch it"
  let start ← observe .deadlineTime 0
  let deadline := start + seconds * oneSecond
  let nextStatus ← observe .startTime 0
  modify fun l => { l with nextStatus }
  poll deadline
  let ended ← loop (goesOn deadline) (poll deadline) turns
  pure (if ended then some 0 else none)

def main (arguments : List Text) (turns : ℕ) : Action D (Option ℕ) :=
  Program.exitCode (match command arguments with
    | .error what => throw what
    | .ok .selfTest => do
      ask .selfTest
      pure (some 0)
    | .ok .help => pure (some 0)
    | .ok (.watch seconds) => watch seconds turns)

variable (D) in
/-- Where a run ends or is cut. -/
def final (arguments : List Text) (turns : ℕ) (w : World Answer) : Config Answer (Locals D) :=
  (main arguments turns w { locals := {} }).2

/-! ### Answers -/

/-- An answer that is reported. -/
inductive Told where
  | status (status : TimeSyncRtkStatus)
  | batch (batch : GnssObservations)

def told (e : Event Answer) : Option Told :=
  match e with
  | ⟨.timeSyncRtkStatus, .ok status⟩ => some (.status status)
  | ⟨.gnssObservations _ _, .ok batch⟩ => some (.batch batch)
  | _ => none

/-- The answers of a run that are reported, in order. -/
def answers (trace : List (Event Answer)) : List Told := trace.filterMap told

def Told.toBatch : Told → Option GnssObservations
  | .status _ => none
  | .batch b => some b

/-- The batches among the answers of a run. -/
def batches (trace : List (Event Answer)) : List GnssObservations :=
  (answers trace).filterMap Told.toBatch

variable (D) in
/-- What is printed for the answers. -/
def printer : System (PositionReader D) Told (List (Report D)) where
  init := {}
  step reader
    | .status status => (reader, [.module status])
    | .batch batch => ((reader.consume batch).1, (reader.consume batch).2.map .line)

/-- The cursor and the session of the last batch. -/
def place (batches : List GnssObservations) : UInt64 × UInt64 :=
  batches.getLast?.elim (0, 0) fun batch => (batch.cursor, batch.session)

@[simp] theorem answers_append (t t' : List (Event Answer)) :
    answers (t ++ t') = answers t ++ answers t' :=
  List.filterMap_append

/-- The reader is where the answers so far lead, at the cursor and in the session of the
last batch. -/
theorem place_exec (bs : List GnssObservations) :
    place bs = (((positionReader D).exec (positionReader D).init bs).model.cursor,
      ((positionReader D).exec (positionReader D).init bs).model.session) := by
  induction bs using List.reverseRecOn with
  | nil => rfl
  | append_singleton bs batch ih =>
    rw [System.exec_snoc, place, List.getLast?_concat]
    set reader := (positionReader D).exec (positionReader D).init bs
    have hsession : (reader.consume batch).1.model.session = batch.session := Model.apply_session _ _
    exact Prod.ext rfl hsession.symm

theorem printer_exec (as : List Told) : (printer D).exec (printer D).init as =
    (positionReader D).exec (positionReader D).init (as.filterMap Told.toBatch) := by
  refine (printer D).exec_filterMap (positionReader D) (R := Eq) ?_ ?_ rfl as
  · rintro s s' (status | batch) rfl h
    · rfl
    · cases h
  · rintro s s' (status | batch) b rfl h
    · cases h
    · cases h
      rfl

/-! ### What is asked for and printed -/

/-- A query is for what is past the last batch before it. -/
def Follows (before : List (Event Answer)) (e : Event Answer) : Prop :=
  ∀ cursor session, e.request = .gnssObservations cursor session →
    (cursor, session) = place (batches before)

/-- All that was answered is with the reader and printed. -/
structure Faithful (c : Config Answer (Locals D)) : Prop where
  positions : c.locals.positions = (printer D).exec (printer D).init (answers c.trace)
  out : c.locals.out = ((printer D).outputs (printer D).init (answers c.trace)).flatten
  queries : Led Follows c.trace

/-- The last answer is neither. -/
structure Owing (a : Told) (c : Config Answer (Locals D)) : Prop where
  told : ∃ before, answers c.trace = before ++ [a] ∧
    c.locals.positions = (printer D).exec (printer D).init before ∧
    c.locals.out = ((printer D).outputs (printer D).init before).flatten
  queries : Led Follows c.trace

def Request.Tells : Request → Bool
  | .timeSyncRtkStatus | .gnssObservations _ _ => true
  | _ => false

theorem told_of_quiet {e : Event Answer} (h : e.request.Tells = false) :
    told e = none ∧ ∀ before, Follows before e := by
  obtain ⟨r, outcome⟩ := e
  cases r <;> first | exact ⟨rfl, fun _ _ _ h => nomatch h⟩ | cases h

theorem Faithful.push {c : Config Answer (Locals D)} {e : Event Answer} (h : Faithful c)
    (hquiet : told e = none) (hfollows : Follows c.trace e) : Faithful (c.push e) := by
  have hanswers : answers (c.trace ++ [e]) = answers c.trace := by
    simp [answers, hquiet]
  refine ⟨?_, ?_, h.queries.snoc hfollows⟩
  · rw [Config.push_trace, hanswers]
    exact h.positions
  · rw [Config.push_trace, hanswers]
    exact h.out

theorem framed_faithful :
    Framed Request.Tells (fun l : Locals D => (l.positions, l.out)) Faithful where
  push c e he h := h.push (told_of_quiet he).1 ((told_of_quiet he).2 _)
  set c l hl h := by
    obtain ⟨hpositions, hout⟩ := Prod.mk.inj hl
    exact ⟨hpositions.trans h.positions, hout.trans h.out, h.queries⟩

theorem faithful_ask {r : Request} {tell : Answer r → Told}
    (htell : ∀ a, told ⟨r, .ok a⟩ = some (tell a)) (herror : ∀ what, told ⟨r, .error what⟩ = none) :
    Triple (fun c : Config Answer (Locals D) => Faithful c ∧ ∀ outcome, Follows c.trace ⟨r, outcome⟩)
      (ask r) (fun a => Owing (tell a)) (fun _ => Faithful) := by
  refine Triple.request ?_ ?_
  · rintro c a ⟨h, hfollows⟩
    refine ⟨⟨answers c.trace, ?_, h.positions, h.out⟩, h.queries.snoc (hfollows _)⟩
    simp [answers, htell]
  · rintro c what ⟨h, hfollows⟩
    exact h.push (herror what) (hfollows _)

/-- What is printed for an answer, and what the reader makes of it. -/
theorem faithful_of_owing {a : Told} {c : Config Answer (Locals D)} (h : Owing a c) {l : Locals D}
    (hpositions : l.positions = ((printer D).step c.locals.positions a).1)
    (hout : l.out = c.locals.out ++ ((printer D).step c.locals.positions a).2) :
    Faithful { c with locals := l } := by
  obtain ⟨⟨before, hanswers, hold, hprinted⟩, hqueries⟩ := h
  refine ⟨?_, ?_, hqueries⟩
  · show l.positions = _
    rw [hanswers, System.exec_snoc, ← hold, hpositions]
  · show l.out = _
    rw [hanswers, System.outputs_snoc, List.flatten_append, List.flatten_singleton, ← hprinted,
      ← hold, hout]

theorem faithful_moduleStatus : Keeps (Faithful (D := D)) moduleStatus := by
  have h := framed_faithful (D := D)
  have hask := faithful_ask (D := D) (r := .timeSyncRtkStatus) (fun _ => rfl) fun _ => rfl
  refine Triple.bind (hask.conseq (fun c hc => ⟨hc, fun _ _ _ he => nomatch he⟩) (fun _ _ => id)
    fun _ _ => id) fun status => Triple.bind (Q := fun _ => Faithful)
      (Triple.modify fun c hc => faithful_of_owing hc rfl rfl) fun _ =>
    Triple.bind (h.observe rfl) fun _ => h.modify fun _ => rfl

theorem faithful_observations : Keeps (Faithful (D := D)) observations := by
  refine Triple.bind (Q := fun l c => Faithful c ∧ l = c.locals) (Triple.locals fun _ hc => ⟨hc, rfl⟩)
    fun l => ?_
  have hask := faithful_ask (D := D)
    (r := .gnssObservations l.positions.model.cursor l.positions.model.session)
    (fun _ => rfl) fun _ => rfl
  refine Triple.bind (hask.conseq ?_ (fun _ _ => id) fun _ _ => id) fun batch =>
    Triple.modify fun c hc => faithful_of_owing hc rfl rfl
  rintro c ⟨hc, rfl⟩
  refine ⟨hc, fun outcome cursor session he => ?_⟩
  cases he
  rw [hc.positions, printer_exec]
  exact (place_exec _).symm

theorem faithful_poll (deadline : TimePoint) : Keeps (Faithful (D := D)) (poll deadline) :=
  have h := framed_faithful (D := D)
  Triple.bind (h.observe rfl) fun _ => Triple.bind (Triple.bind
    (Triple.locals (Q := fun _ => Faithful) fun _ => id) fun _ => Triple.ite
      (fun _ => faithful_moduleStatus) fun _ => Triple.pure fun _ => id) fun _ =>
        Triple.bind faithful_observations fun _ => h.observe rfl

theorem faithful_watch (seconds turns : ℕ) : Keeps (Faithful (D := D)) (watch seconds turns) := by
  have h := framed_faithful (D := D)
  have hthrow {bad : Prop} [Decidable bad] {what : String} :
      Keeps (Faithful (D := D)) (Program.throwIf bad what) :=
    Triple.throwIf (fun _ _ => id) fun _ _ => id
  refine Triple.bind (h.ask rfl) fun _ => Triple.bind hthrow fun _ => Triple.bind (h.ask rfl)
    fun _ => Triple.bind (h.ask rfl) fun _ => Triple.bind hthrow fun _ =>
      Triple.bind (h.observe rfl) fun start => Triple.bind (h.observe rfl) fun _ =>
        Triple.bind (h.modify fun _ => rfl) fun _ => Triple.bind (faithful_poll _) fun _ =>
          Triple.bind (Triple.loop ?_ (faithful_poll _) turns) fun _ => Triple.pure fun _ => id
  exact Triple.bind (h.observe rfl) fun _ => Triple.ite (fun _ => Triple.pure fun _ => id)
    fun _ => Triple.bind (h.observe rfl) fun _ => Triple.pure fun _ => id

/-! ### Pace -/

/-- The times from which on a status may be asked for. -/
def dues (trace : List (Event Answer)) : List TimePoint :=
  trace.filterMap fun e => match e with
    | ⟨.startTime, .ok time⟩ => some time
    | ⟨.statusTime, .ok time⟩ => some (time + oneSecond)
    | _ => none

def ticks (trace : List (Event Answer)) : List TimePoint :=
  trace.filterMap fun e => match e with
    | ⟨.tick, .ok time⟩ => some time
    | _ => none

/-- A status is not asked for before its time. -/
def Paced (before : List (Event Answer)) (e : Event Answer) : Prop :=
  e.request = .timeSyncRtkStatus →
    ∃ due ∈ (dues before).getLast?, ∃ tick ∈ (ticks before).getLast?, due ≤ tick

structure OnTime (c : Config Answer (Locals D)) : Prop where
  due : (dues c.trace).getLast? = some c.locals.nextStatus
  paced : Led Paced c.trace

def Request.Times : Request → Bool
  | .startTime | .statusTime | .timeSyncRtkStatus => true
  | _ => false

theorem paced_of_quiet {e : Event Answer} (h : e.request.Times = false)
    (before : List (Event Answer)) : Paced before e := by
  intro he
  rw [he] at h
  cases h

theorem dues_of_quiet {e : Event Answer} (h : e.request.Times = false)
    (trace : List (Event Answer)) : dues (trace ++ [e]) = dues trace := by
  obtain ⟨r, outcome⟩ := e
  cases r <;> first | (cases h; done) | simp [dues]

theorem framed_paced : Framed Request.Times (fun l : Locals D => l.nextStatus)
    fun c => Led Paced c.trace where
  push _ _ he h := h.snoc (paced_of_quiet he _)
  set _ _ _ h := h

theorem framed_onTime : Framed Request.Times (fun l : Locals D => l.nextStatus) OnTime where
  push c e he h := by
    refine ⟨?_, h.paced.snoc (paced_of_quiet he _)⟩
    rw [Config.push_trace, dues_of_quiet he]
    exact h.due
  set c l hl h := ⟨h.due.trans (congrArg some hl.symm), h.paced⟩

/-- What may happen to the pace in a part of a turn. -/
abbrev KeepsTime {α : Type} (x : Action D α) : Prop :=
  Triple OnTime x (fun _ => OnTime) fun _ c => Led Paced c.trace

theorem keepsTime_of_keeps {α : Type} {x : Action D α} (h : Keeps OnTime x) : KeepsTime x :=
  h.conseq (fun _ => id) (fun _ _ => id) fun _ _ => OnTime.paced

theorem onTime_moduleStatus : Triple
    (fun c : Config Answer (Locals D) =>
      OnTime c ∧ ∃ tick ∈ (ticks c.trace).getLast?, c.locals.nextStatus ≤ tick)
    moduleStatus (fun _ => OnTime) fun _ c => Led Paced c.trace := by
  have h := framed_onTime (D := D)
  refine Triple.bind (Q := fun _ => OnTime) (Triple.request ?_ ?_) fun status =>
    Triple.bind (keepsTime_of_keeps (h.modify fun _ => rfl)) fun _ => Triple.bind
      (Q := fun now c => (dues c.trace).getLast? = some (now + oneSecond) ∧ Led Paced c.trace)
      (Triple.observe ?_) fun now => Triple.modify fun c hc => ⟨hc.1, hc.2⟩
  · rintro c status ⟨hc, tick, htick, hle⟩
    refine ⟨?_, hc.paced.snoc fun _ => ⟨_, hc.due, tick, htick, hle⟩⟩
    simpa [dues] using hc.due
  · rintro c what ⟨hc, tick, htick, hle⟩
    exact hc.paced.snoc fun _ => ⟨_, hc.due, tick, htick, hle⟩
  · intro c now hc
    refine ⟨?_, hc.paced.snoc fun he => nomatch he⟩
    simp [dues]

theorem onTime_poll (deadline : TimePoint) : KeepsTime (D := D) (poll deadline) := by
  have h := framed_onTime (D := D)
  refine Triple.bind (Q := fun tick c => OnTime c ∧ (ticks c.trace).getLast? = some tick)
    (Triple.observe fun c tick hc => ⟨h.push _ _ rfl hc, by simp [ticks]⟩) fun tick => ?_
  have hstatus : Triple (fun c : Config Answer (Locals D) => OnTime c ∧
      (ticks c.trace).getLast? = some tick) (statusAt tick) (fun _ => OnTime)
        fun _ c => Led Paced c.trace := by
    refine Triple.bind (Q := fun l c => (OnTime c ∧ (ticks c.trace).getLast? = some tick) ∧
      l = c.locals) (Triple.locals fun _ hc => ⟨hc, rfl⟩) fun l => Triple.ite (fun hle => ?_)
        fun _ => Triple.pure fun _ hc => hc.1.1
    refine onTime_moduleStatus.conseq ?_ (fun _ _ => id) fun _ _ => id
    rintro c ⟨⟨hc, htick⟩, rfl⟩
    exact ⟨hc, tick, htick, hle⟩
  refine Triple.bind hstatus fun _ => Triple.bind (keepsTime_of_keeps ?_) fun _ =>
    keepsTime_of_keeps (h.observe rfl)
  exact Triple.bind (Triple.locals (Q := fun _ => OnTime) fun _ => id) fun _ =>
    Triple.bind (h.ask rfl) fun _ => h.modify fun _ => rfl

theorem paced_watch (seconds turns : ℕ) :
    Keeps (fun c : Config Answer (Locals D) => Led Paced c.trace) (watch seconds turns) := by
  have h := framed_paced (D := D)
  have honTime := framed_onTime (D := D)
  have hthrow {bad : Prop} [Decidable bad] {what : String} :
      Keeps (fun c : Config Answer (Locals D) => Led Paced c.trace) (Program.throwIf bad what) :=
    Triple.throwIf (fun _ _ => id) fun _ _ => id
  refine Triple.bind (h.ask rfl) fun _ => Triple.bind hthrow fun _ => Triple.bind (h.ask rfl)
    fun _ => Triple.bind (h.ask rfl) fun _ => Triple.bind hthrow fun _ =>
      Triple.bind (h.observe rfl) fun start => Triple.bind
        (Q := fun time c => (dues c.trace).getLast? = some time ∧ Led Paced c.trace)
        (Triple.observe fun c time hc => ⟨by simp [dues], hc.snoc fun he => nomatch he⟩) fun _ =>
          Triple.bind (Q := fun _ => OnTime) (Triple.modify fun c hc => ⟨hc.1, hc.2⟩) fun _ =>
            Triple.bind (onTime_poll _) fun _ => Triple.bind
              (Triple.loop (keepsTime_of_keeps ?_) (onTime_poll _) turns) fun _ =>
                Triple.pure fun _ => OnTime.paced
  exact Triple.bind (honTime.observe rfl) fun _ => Triple.ite (fun _ => Triple.pure fun _ => id)
    fun _ => Triple.bind (honTime.observe rfl) fun _ => Triple.pure fun _ => id

/-! ### Runs -/

theorem keeps_main {I : Config Answer (Locals D) → Prop} (hself : Keeps I (ask .selfTest))
    (h : ∀ seconds turns, Keeps I (watch seconds turns)) (arguments : List Text) (turns : ℕ) :
    Keeps I (main arguments turns) := by
  refine Triple.catching (F := fun _ => I) ?_ fun _ => Triple.pure fun _ => id
  cases command arguments with
  | error what => exact Triple.throw fun _ => id
  | ok asked =>
    cases asked with
    | selfTest => exact Triple.bind hself fun _ => Triple.pure fun _ => id
    | help => exact Triple.pure fun _ => id
    | watch seconds => exact h seconds turns

theorem final_of_keeps {I : Config Answer (Locals D) → Prop} (hself : Keeps I (ask .selfTest))
    (h : ∀ seconds turns, Keeps I (watch seconds turns)) (hinit : I { locals := {} })
    (arguments : List Text) (turns : ℕ) (w : World Answer) : I (final D arguments turns w) := by
  have hpost := keeps_main hself h arguments turns w _ hinit
  unfold final
  revert hpost
  match main arguments turns w { locals := {} } with
  | (.ok _, c) => exact id
  | (.error _, c) => exact id

theorem faithful_final (arguments : List Text) (turns : ℕ) (w : World Answer) :
    Faithful (final D arguments turns w) :=
  final_of_keeps (framed_faithful.ask rfl) faithful_watch ⟨rfl, rfl, Led.nil⟩ arguments turns w

/-- Whatever the device does, in every run of the monitor: what it prints are the reports of
the answers, in their order, by one reader that has all of them; every query is for what
is past the cursor, in the session, of the last batch before it; and a status is asked for
only at a tick that is at least a second past the last one. -/
theorem monitor_exact (arguments : List Text) (turns : ℕ) (w : World Answer) :
    let c := final D arguments turns w
    c.locals.out = ((printer D).outputs (printer D).init (answers c.trace)).flatten ∧
      (∀ before cursor session outcome after,
        c.trace = before ++ ⟨.gnssObservations cursor session, outcome⟩ :: after →
          (cursor, session) = place (batches before)) ∧
      ∀ before outcome after, c.trace = before ++ ⟨.timeSyncRtkStatus, outcome⟩ :: after →
        ∃ due ∈ (dues before).getLast?, ∃ tick ∈ (ticks before).getLast?, due ≤ tick := by
  intro c
  have hfaithful := faithful_final (D := D) arguments turns w
  have hpaced : Led Paced c.trace :=
    final_of_keeps (framed_paced.ask rfl) paced_watch Led.nil arguments turns w
  exact ⟨hfaithful.out,
    fun before cursor session outcome after htrace =>
      hfaithful.queries before _ after htrace cursor session rfl,
    fun before outcome after htrace => hpaced before _ after htrace rfl⟩

/-! ### Coordinates -/

/-- An answer to a query: an accepted response that does not go back behind the cursor
without a gap or another session. -/
def Serves (cursor session : UInt64) (batch : GnssObservations) : Prop :=
  (∃ f, parseGnssObservations f = .ok batch) ∧
    (batch.gap = false → session = 0 ∨ batch.session = session → cursor ≤ batch.cursor)

theorem answers_of_serves {reader : PositionReader D} {batch : GnssObservations}
    (h : Serves reader.model.cursor reader.model.session batch) : Answers reader batch := by
  refine ⟨h.1, fun hgap => ?_⟩
  unfold Model.enter
  split_ifs with hsession
  · exact UInt64.zero_le
  · refine h.2 hgap ?_
    by_cases hzero : reader.model.session = 0
    · exact .inl hzero
    · exact .inr (by_contra fun hne => hsession ⟨hzero, hne⟩)

theorem batches_snoc (trace : List (Event Answer)) (e : Event Answer) :
    batches (trace ++ [e]) = batches trace ++ ((told e).bind Told.toBatch).toList := by
  unfold batches answers
  rw [List.filterMap_append, List.filterMap_append]
  congr 1
  cases htold : told e with
  | none => simp [htold]
  | some a => cases htoBatch : a.toBatch <;> simp [htold, htoBatch]

/-- The queries that are answered, with the batches. -/
def served (trace : List (Event Answer)) : List (UInt64 × UInt64 × GnssObservations) :=
  trace.filterMap fun e => match e with
    | ⟨.gnssObservations cursor session, .ok batch⟩ => some (cursor, session, batch)
    | _ => none

/-- The queries follow the reader, so what serves them answers it. -/
theorem along_batches {trace : List (Event Answer)} (h : Led Follows trace)
    (hserves : ∀ q ∈ served trace, Serves q.1 q.2.1 q.2.2) :
    (positionReader D).Along Answers (positionReader D).init (batches trace) := by
  induction trace using List.reverseRecOn with
  | nil => trivial
  | append_singleton trace e ih =>
    rw [served, List.filterMap_append] at hserves
    have hold := ih (h.of_isPrefix (List.prefix_append _ _)) fun q hq =>
      hserves q (List.mem_append_left _ hq)
    rw [batches_snoc]
    cases htold : (told e).bind Told.toBatch with
    | none => simpa using hold
    | some b =>
      rw [Option.toList_some, System.along_snoc]
      refine ⟨hold, ?_⟩
      match e, htold with
      | ⟨.gnssObservations cursor session, .ok batch⟩, htold =>
        cases htold
        have hplace := h trace _ [] rfl cursor session rfl
        rw [place_exec (D := D)] at hplace
        obtain ⟨rfl, rfl⟩ := Prod.mk.inj hplace
        exact answers_of_serves (hserves (_, _, b) (by simp))

/-- The lines of the reader among what is printed. -/
def linesOf (out : List (Report D)) : List (Line D) :=
  out.filterMap fun
    | .module _ => none
    | .line line => some line

theorem linesOf_printer (reader : PositionReader D) (as : List Told) :
    linesOf ((printer D).outputs reader as).flatten =
      ((positionReader D).outputs reader (as.filterMap Told.toBatch)).flatten := by
  induction as generalizing reader with
  | nil => rfl
  | cons a as ih =>
    rw [System.outputs_cons, List.flatten_cons, linesOf, List.filterMap_append]
    cases a with
    | status status => exact ih reader
    | batch b =>
      rw [List.filterMap_cons_some (show Told.toBatch (.batch b) = some b from rfl),
        System.outputs_cons, List.flatten_cons, ← ih]
      congr 1
      exact (List.filterMap_map ..).trans List.filterMap_some

/-- The readings of the records that a reader has from some batches. -/
def readings (reader : PositionReader D) : List GnssObservations → List (Line D)
  | [] => []
  | batch :: bs =>
    (reader.model.heard batch).flatMap (fixesOf batch.deviceMonotonicMs) ++
      readings (reader.consume batch).1 bs

theorem fixes_outputs {reader : PositionReader D} (hbehind : reader.model.Behind)
    {bs : List GnssObservations} (h : (positionReader D).Along Answers reader bs) :
    fixes ((positionReader D).outputs reader bs).flatten = readings reader bs := by
  induction bs generalizing reader with
  | nil => rfl
  | cons batch bs ih =>
    obtain ⟨hanswers, hrest⟩ := h
    obtain ⟨hnext, hlines, -⟩ := PositionReader.consume_fixes hbehind hanswers
    rw [System.outputs_cons, List.flatten_cons, fixes_append]
    exact congrArg₂ (· ++ ·) hlines (ih hnext hrest)

theorem behind_init : (positionReader D).init.model.Behind := by
  rintro (_ | _) ⟨⟩

/-- A device that has one fix at first, and another one past it. -/
def twoPolls : World Answer := fun _ r => match r with
  | .enumerate => .ok 1
  | .timeSyncPortStatus => .ok { mode := .rtk, applied := true }
  | .timeSyncRtkStatus => .ok {}
  | .gnssObservations cursor _ =>
    .ok (if cursor = 0 then PositionReader.twoFixes[0] else PositionReader.twoFixes[1])
  | .deadlineTime | .startTime | .tick | .statusTime | .now => .ok 0
  | .interrupted => .ok false
  | .selfTest | .openFront | .sleepUntil _ => .ok ()

theorem serves_twoPolls :
    ∀ q ∈ served (final Rat [] 1 twoPolls).trace, Serves q.1 q.2.1 q.2.2 := by
  have htrace : served (final Rat [] 1 twoPolls).trace =
      [((0 : UInt64), (0 : UInt64), PositionReader.twoFixes[0]),
        ((1 : UInt64), (5 : UInt64), PositionReader.twoFixes[1])] := by
    decide +kernel
  rw [htrace]
  intro q hq
  rcases List.mem_pair.1 hq with rfl | rfl
  · exact ⟨⟨_, parse_response (by decide) (by decide)⟩, fun _ _ => by decide⟩
  · exact ⟨⟨_, parse_response (by decide) (by decide)⟩, fun _ _ => by decide⟩

/-- In every run of the monitor in which the device serves the queries: the lines with
coordinates are the readings of the records that the reader has from the batches, in their
order; and while there is no gap and one session, their sequence numbers increase, so
that no record is printed as a new measurement twice. -/
theorem monitor_coordinates (arguments : List Text) (turns : ℕ) (w : World Answer)
    (hserves : ∀ q ∈ served (final D arguments turns w).trace, Serves q.1 q.2.1 q.2.2) :
    let c := final D arguments turns w
    fixes (linesOf c.locals.out) = readings {} (batches c.trace) ∧
      ((∀ b ∈ batches c.trace, b.gap = false) →
        (∀ b ∈ batches c.trace, ∀ b' ∈ batches c.trace, b.session = b'.session) →
          ((linesOf c.locals.out).filterMap Line.fix).Pairwise (· < ·)) := by
  intro c
  have hfaithful := faithful_final (D := D) arguments turns w
  have halong := along_batches (D := D) hfaithful.queries hserves
  have hlines : linesOf c.locals.out =
      ((positionReader D).outputs (positionReader D).init (batches c.trace)).flatten := by
    rw [hfaithful.out]
    exact linesOf_printer _ _
  rw [hlines]
  refine ⟨fixes_outputs behind_init halong, fun hgap hsession => ?_⟩
  cases hbatches : batches c.trace with
  | nil => exact List.Pairwise.nil
  | cons batch bs =>
    rw [← hbatches]
    have hfirst : batch ∈ batches c.trace := by
      rw [hbatches]
      exact List.mem_cons_self
    exact (PositionReader.increasing_of_answers batch.session behind_init halong hgap
      fun b hb => hsession b hb batch hfirst).2

theorem monitor_coordinates_twoPolls :
    fixes (linesOf (final Rat [] 1 twoPolls).locals.out) =
        readings {} (batches (final Rat [] 1 twoPolls).trace) ∧
      ((∀ b ∈ batches (final Rat [] 1 twoPolls).trace, b.gap = false) →
        (∀ b ∈ batches (final Rat [] 1 twoPolls).trace,
          ∀ b' ∈ batches (final Rat [] 1 twoPolls).trace, b.session = b'.session) →
            ((linesOf (final Rat [] 1 twoPolls).locals.out).filterMap Line.fix).Pairwise (· < ·)) :=
  monitor_coordinates [] 1 twoPolls serves_twoPolls

end PrismSdk.Gnss.Monitor
