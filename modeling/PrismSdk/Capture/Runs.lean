import PrismSdk.Capture.Ledger

/-! The runs of the two capture programs. What a program does before and after its loop is
not noticed by a condition on what it hands on, so that a condition that the turns keep
holds wherever a run ends or is cut. -/

namespace PrismSdk.Capture

open Camera (Call CameraChunkResult CameraFrameSet)
open Library.Effects
open Library.Effects.Program (modify throwIf)

/-! ### Around the loop -/

/-- The requests that are made outside the loop, and in its condition. -/
def Request.Outer : Request → Bool
  | .readPassword | .openFirst | .openNetwork _ | .createDirectory | .openFrames | .openSamples
  | .writeFramesHeader | .writeSamplesHeader | .deviceInfo | .networkCameraMaxFps | .startVideo _
  | .imuStart _ _ | .imuActive | .imuStop | .stopVideo | .now | .interrupted | .closeFrames
  | .closeSamples => true
  | _ => false

/-- What surrounds the loop is not noticed: `I` holds between the turns, and `E` where an
exception leaves a program. -/
structure Around {τ : Type} (loud : Request → Bool) (view : Locals → τ)
    (I E : Config Answer Locals → Prop) : Prop where
  inner : Framed loud view I
  ending : Framed loud view E
  le : ∀ c, I c → E c
  quiet : ∀ r, r.Outer → loud r = false
  armed : ∀ l b, view { l with armed := b } = view l

variable {τ : Type} {loud : Request → Bool} {view : Locals → τ}
  {I E : Config Answer Locals → Prop}

namespace Around

variable {α β : Type} {Q : β → Config Answer Locals → Prop}

theorem self (h : Around loud view I E) : Around loud view I I :=
  ⟨h.inner, h.inner, fun _ => id, h.quiet, h.armed⟩

theorem bind (h : Around loud view I E) {x : Action α} {f : α → Action β} (hx : Keeps I x)
    (hf : ∀ a, Triple I (f a) Q (fun _ => E)) : Triple I (x >>= f) Q (fun _ => E) :=
  Triple.bind (hx.conseq (fun _ => id) (fun _ _ => id) fun _ => h.le) hf

theorem ask (h : Around loud view I E) {r : Request} {f : Answer r → Action β} (hr : r.Outer)
    (hf : ∀ a, Triple I (f a) Q (fun _ => E)) : Triple I (ask r >>= f) Q (fun _ => E) :=
  h.bind (h.inner.ask (h.quiet r hr)) hf

theorem observe (h : Around loud view I E) {r : Request} {fallback : Answer r}
    {f : Answer r → Action β} (hr : r.Outer) (hf : ∀ a, Triple I (f a) Q (fun _ => E)) :
    Triple I (observe r fallback >>= f) Q (fun _ => E) :=
  h.bind (h.inner.observe (h.quiet r hr)) hf

theorem throwIf (h : Around loud view I E) {bad : Prop} [Decidable bad] {what : String}
    {f : Unit → Action β} (hf : ∀ a, Triple I (f a) Q (fun _ => E)) :
    Triple I (Program.throwIf bad what >>= f) Q (fun _ => E) :=
  h.bind (Triple.throwIf (fun _ _ => id) fun _ _ => id) hf

theorem arm (h : Around loud view I E) : Keeps I arm := h.inner.modify fun l => h.armed l true

theorem stop (h : Around loud view I E) : Keeps I CaptureGuard.stop :=
  Triple.bind (Triple.locals (Q := fun _ => I) fun _ => id) fun _ =>
    Triple.ite (fun _ => Triple.bind (h.self.observe rfl fun _ =>
      Triple.ite (fun _ => h.inner.ask (h.quiet _ rfl)) fun _ => h.inner.ask (h.quiet _ rfl))
        fun _ => h.inner.modify fun l => h.armed l false) fun _ => Triple.pure fun _ => id

end Around

/-- The destructor throws nothing, and leaves the local variables alone. -/
theorem triple_destructor (h : Framed loud view I) (hquiet : ∀ r, r.Outer → loud r = false)
    (holds : Locals → Prop) {E' : String → Config Answer Locals → Prop} :
    Triple (fun c => I c ∧ holds c.locals) CaptureGuard.destructor
      (fun _ c => I c ∧ holds c.locals) E' := by
  have hpush : ∀ (r : Request), r.Outer → ∀ c outcome, I c ∧ holds c.locals →
      I (c.push ⟨r, outcome⟩) ∧ holds (c.push ⟨r, outcome⟩).locals := fun r hr c outcome hc =>
    ⟨h.push c _ (hquiet r hr) hc.1, hc.2⟩
  have hask : ∀ r : Request, r.Outer → Keeps (fun c => I c ∧ holds c.locals) (Capture.ask r) := fun r hr =>
    Triple.request (fun c a => hpush r hr c (.ok a)) fun c what => hpush r hr c (.error what)
  refine Triple.bind (Triple.locals (Q := fun _ c => I c ∧ holds c.locals) fun _ => id) fun _ =>
    Triple.ite (fun _ => Triple.catching (F := fun _ c => I c ∧ holds c.locals) ?_
      fun _ => Triple.pure fun _ => id) fun _ => Triple.pure fun _ => id
  exact Triple.bind (Triple.observe fun c a => hpush .imuActive rfl c (.ok a)) fun _ =>
    Triple.ite (fun _ => hask _ rfl) fun _ => hask _ rfl

/-- A run that is still in its loop, or ends with a code. -/
def Ends (code : Locals → ℕ → Prop) (I : Config Answer Locals → Prop) (result : Option ℕ)
    (c : Config Answer Locals) : Prop := I c ∧ ∀ n ∈ result, code c.locals n

namespace Around

variable {code : Locals → ℕ → Prop}

theorem guarded (h : Around loud view I E) {x : Action (Option ℕ)}
    (hx : Triple I x (Ends code I) (fun _ => E)) :
    Triple I (x.guarded CaptureGuard.destructor) (Ends code I) (fun _ => E) := by
  refine Triple.guarded hx (fun _ => id)
    (fun n => triple_destructor h.inner h.quiet fun l => ∀ m ∈ some n, code l m) fun _ => ?_
  exact (triple_destructor h.ending h.quiet fun _ => True).conseq (fun _ hc => ⟨hc, trivial⟩)
    (fun _ _ => And.left) fun _ _ => id

/-- The loop, and what comes after it. -/
theorem loop (h : Around loud view I E) {condition : Action Bool} {body : Action Unit}
    {rest : Action (Option ℕ)} (hcondition : Keeps I condition)
    (hbody : Triple I body (fun _ => I) (fun _ => E))
    (hrest : Triple I rest (Ends code I) (fun _ => E)) (turns : ℕ) :
    Triple I (do
        let ended ← Program.loop condition body turns
        if ended then rest else pure none)
      (Ends code I) (fun _ => E) :=
  Triple.bind (Triple.loop (hcondition.conseq (fun _ => id) (fun _ _ => id) fun _ => h.le)
    hbody turns) fun _ => Triple.ite (fun _ => hrest) fun _ => Triple.pure fun _ hc => ⟨hc, by simp⟩

end Around

namespace Usb

/-- The code at the end, for the number of sensors of some device. -/
def EndCode (l : Locals) (code : ℕ) : Prop :=
  ∃ device, code = if received device l ≠ 0 then 0 else 3

theorem runCapture_of_turn (h : Around loud view I E)
    (hturn : Triple I (turn count ImuStatistics.ingest) (fun _ => I) (fun _ => E))
    (options : Options) (turns : ℕ) :
    Triple I (runCapture options turns) (Ends EndCode I) (fun _ => E) := by
  refine h.ask rfl fun _ => h.ask rfl fun device => h.guarded ?_
  refine h.ask rfl fun _ => h.bind h.arm fun _ => h.throwIf fun _ => h.ask rfl fun _ =>
    h.observe rfl fun start => h.loop ?_ hturn ?_ turns
  · exact h.self.observe rfl fun _ => Triple.pure fun _ => id
  · refine h.bind h.stop fun _ => h.observe rfl fun _ =>
      Triple.bind (Q := fun l c => I c ∧ c.locals = l) (Triple.locals fun c hc => ⟨hc, rfl⟩) fun l =>
        Triple.pure ?_
    rintro c ⟨hc, rfl⟩
    exact ⟨hc, fun n hn => ⟨device, (Option.mem_some_iff.1 hn).symm⟩⟩

end Usb

namespace Network

theorem keeps_openCapture (h : Around loud view I E) (options : Options) :
    Keeps I (openCapture options) :=
  h.self.ask rfl fun _ => h.self.throwIf fun _ => h.self.ask rfl fun _ => h.self.ask rfl fun _ =>
    h.self.throwIf fun _ => h.self.ask rfl fun _ => h.self.ask rfl fun _ => h.self.ask rfl fun _ =>
    h.self.ask rfl fun _ => h.self.ask rfl fun _ => h.self.throwIf fun _ => h.self.ask rfl fun _ =>
    Triple.pure fun _ => id

def EndCode (l : Locals) (code : ℕ) : Prop :=
  code = if imageCount l = 0 ∨ imuCountReceived l = 0 then 3 else 0

theorem runCapture_of_turn (h : Around loud view I E)
    (hturn : Triple I (turn saveImages onSample) (fun _ => I) (fun _ => E))
    (options : Options) (turns : ℕ) :
    Triple I (runCapture options turns) (Ends EndCode I) (fun _ => E) := by
  refine h.bind (keeps_openCapture h options) fun device => h.guarded ?_
  refine h.bind h.arm fun _ => h.ask rfl fun _ => h.throwIf fun _ =>
    h.ask rfl fun _ => h.observe rfl fun start => h.loop ?_ hturn ?_ turns
  · exact h.self.observe rfl fun interrupted => Triple.ite (fun _ => Triple.pure fun _ => id)
      fun _ => h.self.observe rfl fun _ => Triple.pure fun _ => id
  · refine h.bind h.stop fun _ => h.ask rfl fun _ => h.ask rfl fun _ => h.observe rfl fun _ =>
      Triple.bind (Q := fun l c => I c ∧ c.locals = l) (Triple.locals fun c hc => ⟨hc, rfl⟩) fun l =>
        Triple.pure ?_
    rintro c ⟨hc, rfl⟩
    exact ⟨hc, by simp [EndCode]⟩

end Network

/-! ### Turns -/

/-- The requests of a turn, apart from those of `acknowledge`, `save` and `handleFrame`. -/
def Request.InTurn : Request → Bool
  | .expireTime | .ingestTimes _ | .metadataTime _ | .readFrame _ | .parseVideoChunkView _
  | .parseVideoMeta _ => true
  | _ => false

/-- What a turn counts and assembles on its own. -/
structure SameBesides (l l' : Locals) : Prop where
  images : l'.images = l.images
  acknowledged : l'.acknowledged = l.acknowledged
  statistics : l'.statistics = l.statistics
  armed : l'.armed = l.armed

/-- A condition that the parts of a turn keep, or leave with `E` by an exception. -/
structure Inside {τ : Type} (loud : Request → Bool) (view : Locals → τ)
    (I E : Config Answer Locals → Prop) (save : CameraFrameSet → Action Unit)
    (sample : ImuSample → Action Unit) : Prop where
  framed : Framed loud view I
  le : ∀ c, I c → E c
  quiet : ∀ r, r.InTurn → loud r = false
  besides : ∀ l l', SameBesides l l' → view l' = view l
  acknowledge : ∀ id, Triple I (acknowledge id) (fun _ => I) (fun _ => E)
  save : ∀ set, Triple I (save set) (fun _ => I) (fun _ => E)
  handleFrame : ∀ frame, Triple I (handleFrame sample frame) (fun _ => I) (fun _ => E)

namespace Inside

variable {save : CameraFrameSet → Action Unit} {sample : ImuSample → Action Unit}

theorem modify (h : Inside loud view I E save sample) {f : Locals → Locals}
    (hf : ∀ l, SameBesides l (f l)) : Triple I (.modify f) (fun _ => I) (fun _ => E) :=
  Triple.modify fun c => h.framed.set c _ (h.besides _ _ (hf c.locals))

theorem ask (h : Inside loud view I E save sample) {r : Request} (hr : r.InTurn) :
    Triple I (ask r) (fun _ => I) (fun _ => E) :=
  (h.framed.ask (h.quiet r hr)).conseq (fun _ => id) (fun _ _ => id) fun _ => h.le

theorem observe (h : Inside loud view I E save sample) {r : Request} {fallback : Answer r}
    (hr : r.InTurn) : Triple I (observe r fallback) (fun _ => I) (fun _ => E) :=
  Triple.observe fun c _ => h.framed.push c _ (h.quiet r hr)

theorem call (h : Inside loud view I E save sample) (c : Call) :
    Triple I (call c) (fun _ => I) (fun _ => E) :=
  Triple.bind (Triple.locals (Q := fun _ => I) fun _ => id) fun _ =>
    Triple.bind (h.modify fun _ => ⟨rfl, rfl, rfl, rfl⟩) fun _ => Triple.pure fun _ => id

theorem finish (h : Inside loud view I E save sample) (set : CameraFrameSet) :
    Triple I (finish save set) (fun _ => I) (fun _ => E) :=
  Triple.bind (h.save set) fun _ =>
    Triple.bind (h.modify fun _ => ⟨rfl, rfl, rfl, rfl⟩) fun _ => h.acknowledge _

theorem consume (h : Inside loud view I E save sample) (result : CameraChunkResult) :
    Triple I (consume save result) (fun _ => I) (fun _ => E) :=
  Triple.bind (Triple.forM fun id _ => h.acknowledge id) fun _ =>
    Triple.bind (Triple.forM fun set _ => Triple.bind (h.save set) fun _ =>
      h.modify fun _ => ⟨rfl, rfl, rfl, rfl⟩) fun _ => Triple.forM fun set _ => h.finish set

theorem dispatch (h : Inside loud view I E save sample) (frame : Frame) :
    Triple I (dispatch save frame) (fun _ => I) (fun _ => E) := by
  refine Triple.ite (fun _ => ?_) fun _ => Triple.ite (fun _ => ?_) fun _ =>
    Triple.ite (fun _ => ?_) fun _ => Triple.pure fun _ => id
  · exact Triple.bind (h.ask rfl) fun chunk => Triple.bind (Triple.bind (h.observe rfl) fun _ =>
      h.call _) fun result => h.consume result
  · exact Triple.bind (h.ask rfl) fun metadata => Triple.bind (Triple.bind (h.observe rfl) fun _ =>
      Triple.bind (h.call _) fun _ => Triple.pure fun _ => id) fun _ =>
        Triple.forM fun set _ => h.finish set
  · exact h.modify fun _ => ⟨rfl, rfl, rfl, rfl⟩

theorem turn (h : Inside loud view I E save sample) :
    Triple I (turn save sample) (fun _ => I) (fun _ => E) := by
  have hread := (keeps_readFrame h.framed (h.quiet _ rfl)).conseq (fun _ => id) (fun _ _ => id)
    fun _ => h.le
  refine Triple.bind (Triple.bind (h.observe rfl) fun _ => h.call _) fun result =>
    Triple.bind (h.consume result) fun _ => Triple.bind hread fun frame? => ?_
  cases frame? with
  | none => exact Triple.pure fun _ => id
  | some frame =>
    exact Triple.bind (h.handleFrame frame) fun taken =>
      Triple.ite (fun _ => Triple.pure fun _ => id) fun _ => h.dispatch frame

end Inside

/-! ### The account -/

theorem around_account (images : CameraFrameSet → List Request) :
    Around Request.Accounts (fun l => l.assembler) (Balanced images []) (Accounted images) where
  inner := blind_balanced []
  ending := blind_accounted
  le _ := .inl
  quiet r hr := by cases r <;> first | rfl | cases hr
  armed _ _ := rfl

theorem balanced_init (images : CameraFrameSet → List Request) :
    Balanced images [] { locals := {} } where
  assembler := rfl
  requests := rfl
  succeed := by simp [deliveries]

theorem keeps_statistics (h : Framed loud view I)
    (hview : ∀ l s, view { l with statistics := s } = view l) (s : ImuSample) :
    Keeps I (ImuStatistics.ingest s) := by
  unfold ImuStatistics.ingest
  split_ifs
  · exact h.modify fun l => hview l _
  · exact Triple.throw fun _ => id

namespace Usb

theorem saves : Saves count fun _ => [] where
  performs set := by
    have hnil : ([] : List Request) = (List.finRange 4).flatMap fun _ => [] := rfl
    rw [hnil]
    refine Performs.forM fun i _ => ?_
    split_ifs
    · exact Performs.modify fun _ => rfl
    · exact Performs.pure ()
  delivers _ r hr := by cases hr

theorem accounts (options : Options) (turns : ℕ) :
    Triple (Balanced (fun _ => []) []) (runCapture options turns)
      (Ends EndCode (Balanced (fun _ => []) [])) (fun _ => Accounted (fun _ => [])) :=
  runCapture_of_turn (around_account _)
    (saves.balanced_turn fun _ h => keeps_statistics h fun _ _ => rfl) options turns

end Usb

namespace Network

/-- The requests that save the image of a camera. -/
def imagePlan (set : CameraFrameSet) (i : Fin 4) : List Request :=
  if set.jpeg i = [] then []
  else [.openImage (imageName i set.frameId), .writeImage (set.jpeg i), .closeImage,
    .writeFrameRow (frameRow i set)]

def imagesPlan (set : CameraFrameSet) : List Request := (List.finRange 4).flatMap (imagePlan set)

theorem saves : Saves saveImages imagesPlan where
  performs set := by
    refine Performs.forM fun i _ => ?_
    unfold imagePlan
    split_ifs
    · exact Performs.pure ()
    · exact Performs.bind (Performs.request _) fun _ => Performs.bind (Performs.request _) fun _ =>
        Performs.bind (Performs.request _) fun _ => Performs.bind (Performs.request _) fun _ =>
          Performs.modify fun _ => rfl
  delivers set r hr := by
    obtain ⟨i, -, hr⟩ := List.mem_flatMap.1 hr
    unfold imagePlan at hr
    split_ifs at hr
    · cases hr
    · simp only [List.mem_cons, List.not_mem_nil, or_false] at hr
      rcases hr with rfl | rfl | rfl | rfl <;> rfl

theorem accounts (options : Options) (turns : ℕ) :
    Triple (Balanced imagesPlan []) (runCapture options turns)
      (Ends EndCode (Balanced imagesPlan [])) (fun _ => Accounted imagesPlan) :=
  runCapture_of_turn (around_account _) (saves.balanced_turn fun _ h s =>
    Triple.bind (keeps_statistics h (fun _ _ => rfl) s) fun _ => h.ask rfl) options turns

end Network

end PrismSdk.Capture
