import PrismSdk.Capture.Program

/-! What a capture hands on. The assembler's results say which acknowledgements are sent and
which images are saved, in which order. In every run, the requests that do so are the ones
of that plan, each made only after the one before it has succeeded. -/

namespace PrismSdk.Capture

open Camera (Call CameraChunkResult CameraFrameSet assembler)
open Library.Effects
open Library.Effects.Program (locals modify throw throwIf loop guarded)

/-! ### Traces -/

/-- The request acknowledges a frame or saves an image. -/
def Request.Delivers : Request → Bool
  | .sendVideoAck _ => true
  | .openImage _ => true
  | .writeImage _ => true
  | .closeImage => true
  | .writeFrameRow _ => true
  | _ => false

/-- The call on the assembler that the event is a part of. -/
def callOf (e : Event Answer) : Option Call :=
  match e with
  | ⟨.ingestTimes chunk, .ok times⟩ => some (.ingest chunk times.1 times.2)
  | ⟨.metadataTime metadata, .ok now⟩ => some (.addMetadata metadata now)
  | ⟨.expireTime, .ok now⟩ => some (.expire now)
  | _ => none

/-- The calls that a run has made on its assembler. -/
def calls (trace : List (Event Answer)) : List Call := trace.filterMap callOf

def deliveries (trace : List (Event Answer)) : List (Event Answer) :=
  trace.filter fun e => e.request.Delivers

/-- The event neither delivers nor is it a part of a call. -/
def Neutral (e : Event Answer) : Prop := e.request.Delivers = false ∧ callOf e = none

/-- The request delivers, or is a reading of the clock for a call. -/
def Request.Accounts : Request → Bool
  | .ingestTimes _ => true
  | .metadataTime _ => true
  | .expireTime => true
  | r => r.Delivers

theorem neutral_of_not_accounts {e : Event Answer} (h : e.request.Accounts = false) :
    Neutral e := by
  obtain ⟨r, outcome⟩ := e
  cases r <;> first | exact ⟨rfl, rfl⟩ | cases h

@[simp] theorem calls_append (t t' : List (Event Answer)) : calls (t ++ t') = calls t ++ calls t' :=
  List.filterMap_append

@[simp] theorem deliveries_append (t t' : List (Event Answer)) :
    deliveries (t ++ t') = deliveries t ++ deliveries t' :=
  List.filter_append ..

theorem Neutral.calls {e : Event Answer} (h : Neutral e) : calls [e] = [] := by
  simp [Capture.calls, h.2]

theorem Neutral.deliveries {e : Event Answer} (h : Neutral e) : deliveries [e] = [] := by
  simp [Capture.deliveries, h.1]

theorem deliveries_of_all {t : List (Event Answer)} (h : ∀ e ∈ t, e.request.Delivers) :
    deliveries t = t :=
  List.filter_eq_self.2 h

/-- What delivers is not a part of a call. -/
theorem callOf_of_delivers {e : Event Answer} (h : e.request.Delivers) : callOf e = none := by
  obtain ⟨r, outcome⟩ := e
  cases r <;> first | rfl | cases h

theorem calls_of_all {t : List (Event Answer)} (h : ∀ e ∈ t, e.request.Delivers) :
    calls t = [] :=
  List.filterMap_eq_nil_iff.2 fun e he => callOf_of_delivers (h e he)

/-! ### The plan -/

section

variable (images : CameraFrameSet → List Request)

/-- What a set that has all its cameras is worth. -/
def finishPlan (set : CameraFrameSet) : List Request := images set ++ [.sendVideoAck set.frameId]

/-- What a result is worth: `images` are the requests that save a set. -/
def planOf (result : CameraChunkResult) : List Request :=
  result.discardedIncompleteFrameIds.map .sendVideoAck ++ (result.partialFrames.flatMap images ++
    result.completed.toList.flatMap (finishPlan images))

/-- What the results of some calls are worth, in order. -/
def plan (calls : List Call) : List Request :=
  (assembler.outputs assembler.init calls).flatMap (planOf images)

theorem plan_snoc (calls : List Call) (c : Call) :
    plan images (calls ++ [c]) =
      plan images calls ++ planOf images (assembler.step (assembler.exec assembler.init calls) c).2 := by
  rw [plan, Library.System.outputs_snoc, List.flatMap_append, List.flatMap_singleton]
  rfl

/-! ### The state of the account -/

/-- All that has been reported is handed on, up to `owed`. -/
structure Balanced (owed : List Request) (c : Config Answer Locals) : Prop where
  assembler : c.locals.assembler = assembler.exec assembler.init (calls c.trace)
  requests : (deliveries c.trace).map (·.request) ++ owed = plan images (calls c.trace)
  succeed : ∀ e ∈ deliveries c.trace, e.succeeds

/-- A request of the plan has failed. -/
def Interrupted (c : Config Answer Locals) : Prop :=
  ∃ done r what rest, deliveries c.trace = done ++ [⟨r, .error what⟩] ∧
    done.map (·.request) ++ r :: rest = plan images (calls c.trace) ∧ ∀ e ∈ done, e.succeeds

def Accounted (c : Config Answer Locals) : Prop := Balanced images [] c ∨ Interrupted images c

/-- The reading of the clock for a call is made, but not the call. -/
def Calling (call : Call) (c : Config Answer Locals) : Prop :=
  ∃ before, calls c.trace = before ++ [call] ∧
    c.locals.assembler = assembler.exec assembler.init before ∧
    (deliveries c.trace).map (·.request) = plan images before ∧ ∀ e ∈ deliveries c.trace, e.succeeds

end

/-! ### Frames -/

section

variable {τ : Type} {loud : Request → Bool} {view : Locals → τ} {I : Config Answer Locals → Prop}
  {sample : ImuSample → Action Unit}

theorem keeps_readFrame (h : Framed loud view I) (hr : loud (.readFrame 200) = false) :
    Keeps I readFrame := by
  refine Triple.catching (F := fun _ => I) (Triple.bind (h.ask hr) fun _ =>
    Triple.pure fun _ => id) fun what => ?_
  exact Triple.ite (fun _ => Triple.pure fun _ => id) fun _ => Triple.throw fun _ => id

theorem triple_handleFrame (h : Framed loud view I) {frame : Frame}
    {E : Config Answer Locals → Prop} (hr : loud (.handleFrame frame) = false)
    (hle : ∀ c, I c → E c) (hsample : ∀ s, Triple I (sample s) (fun _ => I) (fun _ => E)) :
    Triple I (handleFrame sample frame) (fun _ => I) (fun _ => E) := by
  refine Triple.bind ((h.ask hr).conseq (fun _ => id) (fun _ _ => id) fun _ => hle) fun handled =>
    Triple.bind (Triple.forM fun s _ => hsample s) fun _ => ?_
  cases handled.returned with
  | ok taken => exact Triple.pure fun _ => id
  | error what => exact Triple.throw hle

end

/-! ### Parts of the account -/

theorem asked_deliveries {β : Type} {kind : Request → Option β}
    (h : ∀ r b, kind r = some b → r.Delivers) (trace : List (Event Answer)) :
    asked kind trace = ((deliveries trace).map (·.request)).filterMap kind := by
  rw [List.filterMap_map, deliveries, List.filterMap_filter]
  refine List.filterMap_congr fun e _ => ?_
  by_cases hd : e.request.Delivers
  · rw [if_pos hd]
    rfl
  · rw [if_neg hd]
    exact Option.eq_none_iff_forall_ne_some.2 fun b hb => hd (h _ b hb)

/-- The requests that deliver are a beginning of the plan. -/
theorem Accounted.requests_isPrefix {images : CameraFrameSet → List Request}
    {c : Config Answer Locals} (h : Accounted images c) :
    (deliveries c.trace).map (·.request) <+: plan images (calls c.trace) := by
  rcases h with h | ⟨done, r, what, rest, hdone, hplan, -⟩
  · exact ⟨[], h.requests⟩
  · rw [hdone, ← hplan]
    exact ⟨rest, by simp⟩

/-- All but the last have succeeded. -/
theorem Accounted.succeeds_before {images : CameraFrameSet → List Request}
    {c : Config Answer Locals} (h : Accounted images c) {before after : List (Event Answer)}
    {e : Event Answer} (heq : deliveries c.trace = before ++ e :: after) :
    ∀ e ∈ before, e.succeeds := by
  intro e' he'
  rcases h with h | ⟨done, r, what, rest, hdone, -, hsucceed⟩
  · exact h.succeed e' (heq ▸ List.mem_append_left _ he')
  · refine hsucceed e' ?_
    have hinit : done = (before ++ e :: after).dropLast := by
      rw [← heq, hdone, List.dropLast_concat]
    rw [hinit, List.dropLast_append_of_ne_nil (by simp)]
    exact List.mem_append_left _ he'

theorem Accounted.asked {images : CameraFrameSet → List Request} {c : Config Answer Locals}
    {β : Type} {kind : Request → Option β} (h : Accounted images c)
    (hkind : ∀ r b, kind r = some b → r.Delivers) :
    asked kind c.trace <+: (plan images (calls c.trace)).filterMap kind ∧
      ((∀ e ∈ deliveries c.trace, e.succeeds) →
        Library.Effects.asked kind c.trace = (plan images (calls c.trace)).filterMap kind) := by
  rw [asked_deliveries hkind]
  refine ⟨List.IsPrefix.filterMap _ h.requests_isPrefix, fun hall => ?_⟩
  rcases h with h | ⟨done, r, what, rest, hdone, hplan, -⟩
  · rw [← h.requests, List.append_nil]
  · rw [hdone] at hall
    cases hall ⟨r, .error what⟩ (by simp)

/-- A condition on the account. -/
abbrev Blind (I : Config Answer Locals → Prop) : Prop :=
  Framed Request.Accounts (fun l => l.assembler) I

variable {images : CameraFrameSet → List Request}

theorem Balanced.push {owed : List Request} {c : Config Answer Locals} {e : Event Answer}
    (h : Balanced images owed c) (he : Neutral e) : Balanced images owed (c.push e) := by
  refine ⟨?_, ?_, ?_⟩ <;>
    simp only [Config.push_trace, Config.push_locals, calls_append, deliveries_append, he.calls,
      he.deliveries, List.append_nil]
  · exact h.assembler
  · exact h.requests
  · exact h.succeed

theorem blind_balanced (owed : List Request) : Blind (Balanced images owed) where
  push _ _ he h := h.push (neutral_of_not_accounts he)
  set _ _ hl h := ⟨hl.trans h.assembler, h.requests, h.succeed⟩

theorem blind_interrupted : Blind (Interrupted images) where
  push c e he h := by
    have hneutral := neutral_of_not_accounts he
    unfold Interrupted at h ⊢
    simpa only [Config.push_trace, calls_append, deliveries_append, hneutral.calls,
      hneutral.deliveries, List.append_nil] using h
  set c l hl h := h

theorem blind_accounted : Blind (Accounted images) where
  push c e he := Or.imp ((blind_balanced []).push c e he) (blind_interrupted.push c e he)
  set c l hl := Or.imp ((blind_balanced []).set c l hl) (blind_interrupted.set c l hl)

/-! ### Calls -/

theorem balanced_call (call : Call) : Triple (Calling images call) (Capture.call call)
    (fun result c => Balanced images (planOf images result) c ∧
      ∃ s, result = (assembler.step s call).2) (fun _ => Accounted images) := by
  refine Triple.bind (Q := fun l c => Calling images call c ∧ c.locals.assembler = l.assembler)
    (Triple.locals fun c h => ⟨h, rfl⟩) fun l => ?_
  refine Triple.bind (Q := fun _ => Balanced images (planOf images (assembler.step l.assembler call).2))
    (Triple.modify ?_) fun _ => Triple.pure fun _ h => ⟨h, _, rfl⟩
  rintro c ⟨⟨before, hcalls, hassembler, hrequests, hsucceed⟩, hl⟩
  refine ⟨?_, ?_, hsucceed⟩
  · change _ = assembler.exec assembler.init (calls c.trace)
    rw [hcalls, Library.System.exec_snoc, ← hassembler, hl]
  · change _ ++ _ = plan images (calls c.trace)
    rw [hcalls, plan_snoc, ← hassembler, hl, ← hrequests]

/-- A reading of the clock, for a call. -/
theorem calling_of_reading {r : Request} {fallback : Answer r} {f : Answer r → Call}
    (hcall : ∀ a, callOf ⟨r, .ok a⟩ = some (f a)) (hr : r.Delivers = false)
    {E : String → Config Answer Locals → Prop} :
    Triple (Balanced images []) (observe r fallback) (fun a => Calling images (f a)) E := by
  refine Triple.observe fun c a h => ?_
  have hrequests := h.requests
  rw [List.append_nil] at hrequests
  refine ⟨calls c.trace, by simp [calls, hcall], h.assembler, ?_, ?_⟩
  · simpa [deliveries, hr] using hrequests
  · simpa [deliveries, hr] using h.succeed

theorem balanced_expire : Triple (Balanced images []) expire
    (fun result => Balanced images (planOf images result)) (fun _ => Accounted images) :=
  Triple.bind (calling_of_reading (r := .expireTime) (f := fun now => .expire now)
    (fun _ => rfl) rfl) fun _ =>
      (balanced_call _).conseq (fun _ => id) (fun _ _ => And.left) fun _ _ => id

theorem balanced_ingest (chunk : VideoChunkView) : Triple (Balanced images []) (ingest chunk)
    (fun result => Balanced images (planOf images result)) (fun _ => Accounted images) :=
  Triple.bind (calling_of_reading (r := .ingestTimes chunk)
    (f := fun times => .ingest chunk times.1 times.2) (fun _ => rfl) rfl) fun _ =>
      (balanced_call _).conseq (fun _ => id) (fun _ _ => And.left) fun _ _ => id

/-- `addMetadata` reports nothing but a completed set. -/
theorem balanced_addMetadata (metadata : VideoMeta) :
    Triple (Balanced images []) (addMetadata metadata)
      (fun set => Balanced images (set.toList.flatMap (finishPlan images)))
      (fun _ => Accounted images) := by
  refine Triple.bind (calling_of_reading (r := .metadataTime metadata)
    (f := fun now => .addMetadata metadata now) (fun _ => rfl) rfl) fun now =>
      Triple.bind (balanced_call _) fun result => Triple.pure ?_
  rintro c ⟨h, s, rfl⟩
  have hplan : planOf images (assembler.step s (.addMetadata metadata now)).2 =
      (assembler.step s (.addMetadata metadata now)).2.completed.toList.flatMap
        (finishPlan images) := List.nil_append _
  rwa [← hplan]

/-! ### Deliveries -/

/-- Requests of the plan, made in order. -/
theorem balanced_of_performs {x : Action Unit} {rs : List Request}
    (hx : Performs (·.assembler) x rs) (hdelivers : ∀ r ∈ rs, r.Delivers) :
    Triple (Balanced images rs) x (fun _ => Balanced images [])
      (fun _ => Accounted images) := by
  intro w c h
  obtain ⟨hassembler, done, htrace, hdone⟩ := hx w c
  have hplan := h.requests
  match hrun : x w c with
  | (.ok a, c') =>
    rw [hrun] at hassembler htrace hdone
    obtain ⟨_, hrequests, hsucceed⟩ := hdone
    have hall : ∀ e ∈ done, e.request.Delivers := fun e he =>
      hdelivers _ (hrequests ▸ List.mem_map_of_mem he)
    refine ⟨?_, ?_, ?_⟩ <;> rw [htrace]
    · rw [calls_append, calls_of_all hall, List.append_nil]
      exact hassembler.trans h.assembler
    · rw [calls_append, calls_of_all hall, List.append_nil, deliveries_append,
        deliveries_of_all hall, List.map_append, hrequests, List.append_nil]
      exact hplan
    · rw [deliveries_append, deliveries_of_all hall]
      exact fun e he => (List.mem_append.1 he).elim (h.succeed e) (hsucceed e)
  | (.error what, c') =>
    rw [hrun] at htrace hdone
    cases hdone with
    | @cut done r _ rest hrequests hsucceed =>
      have hall : ∀ e ∈ done ++ [⟨r, .error what⟩], e.request.Delivers := by
        intro e he
        refine hdelivers _ (hrequests ▸ ?_)
        rcases List.mem_append.1 he with he | he
        · exact List.mem_append_left _ (List.mem_map_of_mem he)
        · rw [List.mem_singleton.1 he]
          exact List.mem_append_right _ List.mem_cons_self
      refine .inr ⟨deliveries c.trace ++ done, r, what, rest, ?_, ?_, ?_⟩
      · rw [htrace, deliveries_append, deliveries_of_all hall, List.append_assoc]
      · rw [htrace, calls_append, calls_of_all hall, List.append_nil, ← hplan, ← hrequests]
        simp only [List.map_append, List.append_assoc]
      · exact fun e he => (List.mem_append.1 he).elim (h.succeed e) (hsucceed e)

/-- `save` makes the requests that `images` tells. -/
structure Saves (save : CameraFrameSet → Action Unit) (images : CameraFrameSet → List Request) :
    Prop where
  performs : ∀ set, Performs (·.assembler) (save set) (images set)
  delivers : ∀ set, ∀ r ∈ images set, r.Delivers

section

variable {save : CameraFrameSet → Action Unit} {sample : ImuSample → Action Unit}

theorem performs_acknowledge (frameId : UInt32) :
    Performs (·.assembler) (acknowledge frameId) [.sendVideoAck frameId] :=
  Performs.bind (Performs.request _) fun _ => Performs.modify fun _ => rfl

theorem performs_count {x : Action Unit} {rs : List Request} {f : Locals → Locals}
    (hx : Performs (·.assembler) x rs) (hf : ∀ l, (f l).assembler = l.assembler) :
    Performs (·.assembler) (do x; modify f) rs := by
  simpa using Performs.bind hx fun _ => Performs.modify (A := Answer) hf

theorem performs_after {x : Action Unit} {rs : List Request} {f : Locals → Locals}
    (hx : Performs (·.assembler) x rs) (hf : ∀ l, (f l).assembler = l.assembler) :
    Performs (·.assembler) (do modify f; x) rs :=
  Performs.bind (Performs.modify (A := Answer) hf) fun _ => hx

theorem Saves.finish (h : Saves save images) (set : CameraFrameSet) :
    Performs (·.assembler) (finish save set) (finishPlan images set) :=
  Performs.bind (h.performs set) fun _ =>
    performs_after (performs_acknowledge set.frameId) fun _ => rfl

theorem Saves.consume (h : Saves save images) (result : CameraChunkResult) :
    Performs (·.assembler) (consume save result) (planOf images result) := by
  rw [planOf, List.map_eq_flatMap]
  exact Performs.bind (Performs.forM fun id _ => performs_acknowledge id) fun _ =>
    Performs.bind (Performs.forM fun set _ => performs_count (h.performs set) fun _ => rfl) fun _ =>
      Performs.forM fun set _ => h.finish set

theorem Saves.delivers_finishPlan (h : Saves save images) (set : CameraFrameSet) :
    ∀ r ∈ finishPlan images set, r.Delivers := by
  intro r hr
  rcases List.mem_append.1 hr with hr | hr
  · exact h.delivers set r hr
  · rw [List.mem_singleton.1 hr]
    rfl

theorem Saves.delivers_planOf (h : Saves save images) (result : CameraChunkResult) :
    ∀ r ∈ planOf images result, r.Delivers := by
  intro r hr
  simp only [planOf, List.mem_append, List.mem_map, List.mem_flatMap] at hr
  rcases hr with ⟨id, -, rfl⟩ | ⟨set, -, hr⟩ | ⟨set, -, hr⟩
  · rfl
  · exact h.delivers set r hr
  · exact h.delivers_finishPlan set r hr

theorem Saves.balanced_consume (h : Saves save images) (result : CameraChunkResult) :
    Triple (Balanced images (planOf images result)) (Capture.consume save result)
      (fun _ => Balanced images []) (fun _ => Accounted images) :=
  balanced_of_performs (h.consume result) (h.delivers_planOf result)

theorem Saves.balanced_finish (h : Saves save images) (completed : Option CameraFrameSet) :
    Triple (Balanced images (completed.toList.flatMap (finishPlan images)))
      (completed.toList.forM (Capture.finish save)) (fun _ => Balanced images [])
      (fun _ => Accounted images) := by
  refine balanced_of_performs (Performs.forM fun set _ => h.finish set) fun r hr => ?_
  obtain ⟨set, -, hr⟩ := List.mem_flatMap.1 hr
  exact h.delivers_finishPlan set r hr

/-! ### The loop -/

/-- What neither delivers nor calls keeps the account. -/
theorem Keeps.balanced {α : Type} {x : Action α} (h : ∀ I, Blind I → Keeps I x) :
    Triple (Balanced images []) x (fun _ => Balanced images []) (fun _ => Accounted images) :=
  (h _ (blind_balanced [])).conseq (fun _ => id) (fun _ _ => id) fun _ _ => .inl

theorem Saves.balanced_dispatch (h : Saves save images) (frame : Frame) :
    Triple (Balanced images []) (dispatch save frame) (fun _ => Balanced images [])
      (fun _ => Accounted images) := by
  refine Triple.ite (fun _ => ?_) fun _ => Triple.ite (fun _ => ?_) fun _ =>
    Triple.ite (fun _ => ?_) fun _ => Triple.pure fun _ => id
  · exact Triple.bind (Keeps.balanced fun I hI => hI.ask rfl) fun chunk =>
      Triple.bind (balanced_ingest chunk) fun result => h.balanced_consume result
  · exact Triple.bind (Keeps.balanced fun I hI => hI.ask rfl) fun metadata =>
      Triple.bind (balanced_addMetadata metadata) fun set => h.balanced_finish set
  · exact Keeps.balanced fun I hI => hI.modify fun _ => rfl

theorem Saves.balanced_turn (h : Saves save images)
    (hsample : ∀ I, Blind I → ∀ s, Keeps I (sample s)) :
    Triple (Balanced images []) (turn save sample) (fun _ => Balanced images [])
      (fun _ => Accounted images) := by
  refine Triple.bind balanced_expire fun result => Triple.bind (h.balanced_consume result) fun _ =>
    Triple.bind (Keeps.balanced fun I hI => keeps_readFrame hI rfl) fun frame? => ?_
  cases frame? with
  | none => exact Triple.pure fun _ => id
  | some frame =>
    refine Triple.bind (Keeps.balanced fun I hI => triple_handleFrame hI rfl (fun _ => id) (hsample I hI)) fun taken =>
      Triple.ite (fun _ => Triple.pure fun _ => id) fun _ => h.balanced_dispatch frame

end

end PrismSdk.Capture
