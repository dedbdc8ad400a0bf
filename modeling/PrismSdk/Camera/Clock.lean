import PrismSdk.Camera.Reports

/-! The clock of a tracked frame. It is read when the frame is admitted and again with
every chunk that is appended to an image, and by nothing else. -/

namespace PrismSdk.Camera

open Std (ExtTreeMap)

namespace Assembler

/-- The call is a contiguous chunk of frame `f`, one that is appended to its image: the
reading of the clock that goes with it. -/
def appendedAt (f : UInt32) (s : Assembler) (call : Call) : Option TimePoint :=
  match call with
  | .ingest chunk _ appended =>
    if h : InvalidChunk chunk then none
    else if s.Admits call f ∧ (s.slot f).isInvalid (chunkCamera chunk h) = false ∧
        (s.slot f).Continues chunk then some appended
    else none
  | _ => none

variable {s : Assembler} {call : Call} {f : UInt32}

theorem mem_startedAt : f ∈ s.startedAt ↔ (s.slot f).started ≠ none := by
  rw [ExtTreeMap.mem_iff_isSome_getElem?, Option.isSome_iff_ne_none]
  rfl

theorem appendedAt_of_not_admits (h : ¬ s.Admits call f) : appendedAt f s call = none := by
  cases call with
  | ingest chunk entered appended =>
    simp only [appendedAt]
    split_ifs with hi hc
    · rfl
    · exact absurd hc.1 h
    · rfl
  | addMetadata metadata now => rfl
  | expire now => rfl
  | reset => rfl

theorem appendedAt_mem_readings {t : TimePoint} (h : appendedAt f s call = some t) :
    t ∈ call.readings := by
  cases call with
  | ingest chunk entered appended =>
    simp only [appendedAt] at h
    split_ifs at h
    rw [← Option.some.inj h]
    simp [Call.readings]
  | addMetadata metadata now => cases h
  | expire now => cases h
  | reset => cases h

/-- The clock of the frame after an admitted chunk, while the frame is tracked. -/
theorem Ingested.started_eq {chunk : VideoChunkView} {entered appended : TimePoint} {t' : Slot}
    {done : Option CameraFrameSet} (h : s.Admits (.ingest chunk entered appended) f)
    (hmove : Slot.Ingested chunk entered appended (s.slot f) t' done) (ht : t'.started ≠ none) :
    t'.started = (appendedAt f s (.ingest chunk entered appended)).or
      ((s.slot f).started.or (some entered)) := by
  have henter : ((s.slot f).enter entered).started = (s.slot f).started.or (some entered) := by
    cases hs : (s.slot f).started <;> simp [Slot.enter, hs]
  cases hmove with
  | invalid hi =>
    rw [Slot.reject_started, henter, appendedAt, dif_pos hi, Option.none_or]
  | ignored hi hrejected =>
    rw [henter, appendedAt, dif_neg hi, if_neg (by simp [hrejected]), Option.none_or]
  | discontinuous hi _ hc =>
    rw [Slot.reject_started, henter, appendedAt, dif_neg hi, if_neg (by simp [hc]),
      Option.none_or]
  | extended hi hrejected hc => rw [appendedAt, dif_neg hi, if_pos ⟨h, hrejected, hc⟩]; rfl
  | repeated hi hrejected hc =>
    rw [Slot.reject_started, appendedAt, dif_neg hi, if_pos ⟨h, hrejected, hc⟩]; rfl
  | stored hi hrejected hc => rw [appendedAt, dif_neg hi, if_pos ⟨h, hrejected, hc⟩]; rfl
  | finished => exact absurd rfl ht

/-- The clock of a frame that is tracked after a call. -/
theorem step_started (h : s.SettledInv) (ht : ((assembler.step s call).1.slot f).started ≠ none) :
    ((assembler.step s call).1.slot f).started =
      (appendedAt f s call).or ((s.slot f).started.or
        (if s.Admits call f then call.readings.head? else none)) := by
  obtain ⟨sets, rep, hm⟩ := exists_move h call f
  generalize (assembler.step s call).1.slot f = t' at hm ht ⊢
  cases hm with
  | keep hna => simp [appendedAt_of_not_admits hna, hna]
  | evicted hna => simp [appendedAt_of_not_admits hna, hna]
  | ingested chunk entered appended _ _ hcall _ hadmits hmove =>
    subst hcall
    rw [if_pos hadmits]
    exact Ingested.started_eq hadmits hmove ht
  | described metadata now hcall _ hadmits =>
    subst hcall
    rw [if_pos hadmits]
    cases hs : (s.slot f).started <;>
      simp [Slot.described, Slot.enter, appendedAt, hs, Call.readings]
  | discarded => exact absurd rfl ht
  | finished => exact absurd rfl ht
  | cleared => exact absurd rfl ht

/-- The clock of a frame is the one it had, or a reading of the call. -/
theorem started_or_reading (h : s.SettledInv) {t : TimePoint}
    (ht : ((assembler.step s call).1.slot f).started = some t) :
    (s.slot f).started = some t ∨ t ∈ call.readings := by
  have hstarted := step_started h (ht ▸ Option.some_ne_none t)
  rw [ht] at hstarted
  rcases Option.or_eq_some_iff.1 hstarted.symm with happended | ⟨-, hother⟩
  · exact .inr (appendedAt_mem_readings happended)
  · rcases Option.or_eq_some_iff.1 hother with hold | ⟨-, hentered⟩
    · exact .inl hold
    · split_ifs at hentered
      exact .inr (List.mem_of_head? hentered)

end Assembler

end PrismSdk.Camera
