import PrismSdk.Camera.Invariant

/-! Acknowledgements. The caller acknowledges every reported frame once, and the
sender's window gets one credit back. A report is not repeated while the settled
history remembers it, a tracked frame is reported before it is forgotten, and a
newer frame retires the older ones that hold something. -/

namespace PrismSdk.Camera

open Std (ExtTreeMap ExtTreeSet)
open Library.RecentMemory
open Library.Serial (distance)

/-- The frame a call is about. -/
def Call.frameId : Call → Option UInt32
  | .ingest chunk _ _ => some chunk.frameId
  | .addMetadata metadata _ => some metadata.hostFrameId
  | .expire _ => none
  | .reset => none

/-- The clock readings a call makes. -/
def Call.readings : Call → List TimePoint
  | .ingest _ entered appended => [entered, appended]
  | .addMetadata _ now => [now]
  | .expire _ => []
  | .reset => []

/-- No call of the run is a reset. -/
def NoReset (calls : List Call) : Prop := ∀ call ∈ calls, call ≠ .reset

instance (calls : List Call) : Decidable (NoReset calls) :=
  inferInstanceAs (Decidable (∀ _ ∈ _, _))

/-- The distance of a frame ID from the start of a window is less than `2 ^ 31`. -/
def InWindow (base f : UInt32) : Prop := 2 * distance base.toBitVec f.toBitVec < 2 ^ 32

instance (base f : UInt32) : Decidable (InWindow base f) := inferInstanceAs (Decidable (_ < _))

/-- All frame IDs of the run lie in one window. -/
def RunInWindow (base : UInt32) (calls : List Call) : Prop :=
  ∀ call ∈ calls, ∀ f ∈ call.frameId, InWindow base f

instance (base : UInt32) (calls : List Call) : Decidable (RunInWindow base calls) :=
  have (call : Call) : Decidable (∀ f ∈ call.frameId, InWindow base f) :=
    Option.decidableForallMem _
  inferInstanceAs (Decidable (∀ _ ∈ _, _))

/-- The frame IDs a run reports, in order. -/
def reports (s : Assembler) (calls : List Call) : List UInt32 :=
  (assembler.outputs s calls).flatMap (·.reported)

theorem reports_cons (s : Assembler) (call : Call) (calls : List Call) :
    reports s (call :: calls) =
      (assembler.step s call).2.reported ++ reports (assembler.step s call).1 calls := by
  simp [reports]

/-- On the IDs of a window, newer is farther from its start. -/
theorem frameIdIsNewer_iff {base f g : UInt32} (hf : InWindow base f) (hg : InWindow base g) :
    frameIdIsNewer f g = true ↔
      distance base.toBitVec g.toBitVec < distance base.toBitVec f.toBitVec := by
  rw [frameIdIsNewer, decide_eq_true_eq, Library.Serial.newer_iff hf hg]

namespace Assembler

/-! ### No report twice -/

theorem settles_run {s : Assembler} (h : s.SettledInv) {calls : List Call} (hr : NoReset calls) :
    Settles s (reports s calls) (assembler.exec s calls) := by
  induction calls generalizing s with
  | nil => exact Settles.refl h rfl
  | cons call calls ih =>
    have hstep := step_settles h (hr call List.mem_cons_self)
    rw [reports_cons]
    exact hstep.trans (ih hstep.inv fun c hc => hr c (List.mem_cons_of_mem _ hc))

/-- Frame `f` is behind the newest frame and nothing of it is left. -/
structure Gone (s : Assembler) (f : UInt32) : Prop where
  newer : ∃ newest, s.newestFrameId = some newest ∧ frameIdIsNewer newest f = true
  slot : s.slot f = {}

theorem gone_of_untracked {s : Assembler} (h : s.Inv) {f newest : UInt32}
    (hn : s.newestFrameId = some newest) (hnew : frameIdIsNewer newest f = true)
    (hf : f ∉ s.startedAt) : s.Gone f := by
  have hstarted : (s.slot f).started = none := ExtTreeMap.getElem?_eq_none hf
  have htracked := (h.slot f).tracked hstarted
  have himage : ∀ camera, (s.slot f).image camera = none := by
    intro camera
    by_contra hc
    have := h.newest f (Or.inr ⟨camera, hc⟩)
    rw [hn] at this
    obtain rfl := Option.some.inj this
    rw [frameIdIsNewer_self] at hnew
    cases hnew
  exact ⟨⟨newest, hn, hnew⟩, Slot.ext hstarted htracked.1 htracked.2 (funext himage)⟩

/-- A frame that is gone is turned away, whatever arrives for it. -/
theorem Gone.not_admits {s : Assembler} {base f : UInt32} (h : s.Gone f) (hf : InWindow base f)
    (hn : ∀ newest ∈ s.newestFrameId, InWindow base newest) (call : Call) : ¬ s.Admits call f := by
  obtain ⟨newest, hnewest, hnew⟩ := h.newer
  have hlt := (frameIdIsNewer_iff (hn newest hnewest) hf).1 hnew
  have hold : frameIdIsNewer f newest = false := by
    rw [Bool.eq_false_iff, Ne, frameIdIsNewer_iff hf (hn newest hnewest)]
    omega
  have hne : f ≠ newest := by
    rintro rfl
    omega
  cases call with
  | ingest chunk entered appended =>
    rintro ⟨rfl, hlate, -⟩
    simp [isLate, hnewest, hne, hold] at hlate
  | addMetadata metadata now =>
    rintro ⟨rfl, hlate⟩
    simp [metadataIsLate, hnewest, hne, hold] at hlate
  | expire now => exact id
  | reset => exact id

/-- A frame that is gone stays gone, and is not reported. -/
theorem Gone.step {s : Assembler} (hs : s.Inv) {base f : UInt32} (h : s.Gone f)
    (hf : InWindow base f) (hn : ∀ newest ∈ s.newestFrameId, InWindow base newest) {call : Call}
    (hcall : ∀ g ∈ call.frameId, InWindow base g) (hr : call ≠ .reset) :
    (assembler.step s call).1.Gone f ∧ f ∉ (assembler.step s call).2.reported ∧
      ∀ newest ∈ (assembler.step s call).1.newestFrameId, InWindow base newest := by
  obtain ⟨newest, hnewest, hnew⟩ := h.newer
  have hna := h.not_admits hf hn call
  have hwindow : ∀ newest ∈ (assembler.step s call).1.newestFrameId, InWindow base newest := by
    rw [step_newest]
    cases call with
    | ingest chunk entered appended =>
      dsimp only
      split_ifs
      · exact hn
      · rintro _ ⟨⟩
        exact hcall _ rfl
    | addMetadata => exact hn
    | expire => exact hn
    | reset => exact absurd rfl hr
  have hslot : (assembler.step s call).1.slot f = {} ∧ f ∉ (assembler.step s call).2.reported := by
    have hm := step_move hs.history call f
    generalize hrep : decide (f ∈ (assembler.step s call).2.reported) = rep at hm
    generalize (assembler.step s call).1.slot f = t' at hm ⊢
    generalize (assembler.step s call).2.delivered.filter _ = sets at hm
    cases hm with
    | keep => exact ⟨h.slot, of_decide_eq_false hrep⟩
    | discarded _ _ _ hsome => exact absurd h.slot hsome
    | ingested _ _ _ _ _ _ _ hadmits => exact absurd hadmits hna
    | described _ _ _ _ hadmits => exact absurd hadmits hna
    | finished _ _ _ _ hadmits => exact absurd hadmits hna
    | evicted => exact ⟨by rw [h.slot], of_decide_eq_false hrep⟩
    | cleared hc => exact absurd hc hr
  refine ⟨⟨?_, hslot.1⟩, hslot.2, hwindow⟩
  rw [step_newest] at hwindow ⊢
  cases call with
  | ingest chunk entered appended =>
    dsimp only at hwindow ⊢
    split_ifs at hwindow ⊢ with hlate
    · exact h.newer
    · -- the chunk is not late, so its frame is the newest or newer than it
      refine ⟨chunk.frameId, rfl, ?_⟩
      simp only [isLate, hnewest, Option.any_some, Bool.and_eq_true, bne_iff_ne,
        Bool.not_eq_true', not_and, Bool.not_eq_false] at hlate
      by_cases he : chunk.frameId = newest
      · rw [he]; exact hnew
      · have h₁ := (frameIdIsNewer_iff (hcall _ rfl) (hn _ hnewest)).1 (hlate he)
        have h₂ := (frameIdIsNewer_iff (hn _ hnewest) hf).1 hnew
        exact (frameIdIsNewer_iff (hcall _ rfl) hf).2 (by omega)
  | addMetadata => exact h.newer
  | expire => exact h.newer
  | reset => exact absurd rfl hr

theorem Gone.run {s : Assembler} (hs : s.Inv) {base f : UInt32} (h : s.Gone f)
    (hf : InWindow base f) (hn : ∀ newest ∈ s.newestFrameId, InWindow base newest)
    {calls : List Call} (hcalls : RunInWindow base calls) (hr : NoReset calls) :
    f ∉ reports s calls := by
  induction calls generalizing s with
  | nil => simp [reports]
  | cons call calls ih =>
    obtain ⟨hgone, hrep, hn'⟩ := h.step hs hf hn (hcalls call List.mem_cons_self)
      (hr call List.mem_cons_self)
    rw [reports_cons, List.mem_append, not_or]
    exact ⟨hrep, ih (Inv.step hs call) hgone hn' (fun c hc => hcalls c (List.mem_cons_of_mem _ hc))
      (fun c hc => hr c (List.mem_cons_of_mem _ hc))⟩

/-- The newest frame of a run in a window is in the window. -/
theorem newest_inWindow {base : UInt32} {calls : List Call} (hcalls : RunInWindow base calls) :
    ∀ newest ∈ (assembler.exec assembler.init calls).newestFrameId, InWindow base newest := by
  induction calls using List.reverseRecOn with
  | nil => rintro _ ⟨⟩
  | append_singleton calls call ih =>
    have ih := ih fun c hc => hcalls c (List.mem_append_left _ hc)
    have hlast := hcalls call (by simp)
    rw [Library.System.exec_snoc, step_newest]
    cases call with
    | ingest chunk entered appended =>
      dsimp only
      split_ifs
      · exact ih
      · rintro _ ⟨⟩
        exact hlast _ rfl
    | addMetadata => exact ih
    | expire => exact ih
    | reset => rintro _ ⟨⟩

end Assembler

/-- A frame is not reported again among the next 64 reports, whatever arrives for
it. In a window of frame IDs, a frame behind the newest one that is not tracked
any more is never reported again. -/
theorem reports_not_repeated (calls : List Call) (hr : NoReset calls) :
    (∀ i j f, i < j → j ≤ i + 64 → (reports assembler.init calls)[i]? = some f →
      (reports assembler.init calls)[j]? ≠ some f) ∧
    ∀ base, RunInWindow base calls → ∀ pre post, calls = pre ++ post →
      ∀ f newest, InWindow base f →
        (assembler.exec assembler.init pre).newestFrameId = some newest →
        frameIdIsNewer newest f = true →
        f ∉ (assembler.exec assembler.init pre).startedAt →
        f ∉ reports (assembler.exec assembler.init pre) post := by
  constructor
  · intro i j f hij hj hi
    exact (Assembler.settles_run Assembler.inv_init.history hr).fresh.ne_of_close _ hij hj hi
  · rintro base hw pre post rfl f newest hf hnewest hnew htracked
    have hs := Assembler.inv_exec pre
    refine (Assembler.gone_of_untracked hs hnewest hnew htracked).run hs hf
      (Assembler.newest_inWindow fun c hc => hw c (List.mem_append_left _ hc))
      (fun c hc => hw c (List.mem_append_right _ hc)) (fun c hc => hr c (List.mem_append_right _ hc))

/-- Frame 1 completes, and frame 2 moves the stream on. -/
def movedOn : List Call :=
  [.addMetadata (soloMeta 1 0) 0, .ingest (wholeChunk 1 0 [7]) 1 1, .ingest (wholeChunk 2 0 [8]) 2 2]

set_option maxRecDepth 20000 in
theorem movedOn_not_repeated :
    (reports assembler.init movedOn)[1]? ≠ some 1 ∧
      1 ∉ reports (assembler.exec assembler.init movedOn)
        [.ingest (wholeChunk 1 0 [7]) 3 3, .addMetadata (soloMeta 1 0) 3, .expire (2 * oneSecond)] :=
  ⟨(reports_not_repeated movedOn (by decide +kernel)).1 0 1 1 (by decide) (by decide)
      (by decide +kernel),
    (reports_not_repeated (movedOn ++ [.ingest (wholeChunk 1 0 [7]) 3 3,
        .addMetadata (soloMeta 1 0) 3, .expire (2 * oneSecond)]) (by decide +kernel)).2 1
      (by decide +kernel) movedOn _ rfl 1 2 (by decide +kernel) (by decide +kernel)
      (by decide +kernel) (by decide +kernel)⟩

/-- Frame 1 is described twice, and 64 other frames expire between. -/
def described65 : List Call :=
  [.addMetadata { hostFrameId := 1 } 0, .expire oneSecond] ++ flood oneSecond ++
    [.expire (2 * oneSecond), .addMetadata { hostFrameId := 1 } (2 * oneSecond),
      .expire (3 * oneSecond)]

set_option maxRecDepth 20000 in
/-- The settled history has 64 places, so frame 1 is reported twice. -/
theorem described65_repeats :
    NoReset described65 ∧ RunInWindow 1 described65 ∧
      (reports assembler.init described65).count 1 = 2 := by
  decide +kernel

end PrismSdk.Camera
