import PrismSdk.Camera.Clock

/-! Expiry by the clock. The clock of a tracked frame is read when the frame is admitted
and again with every chunk that is appended, so that `expire` retires exactly the frames
that have made no progress for a second. -/

namespace PrismSdk.Camera

open Std (ExtTreeMap ExtTreeSet)
open Library

/-- The times of a call: its readings of the clock, or the time it is given. -/
def Call.times : Call → List TimePoint
  | .expire now => [now]
  | call => call.readings

theorem Call.readings_subset_times (call : Call) : call.readings ⊆ call.times := by
  cases call with
  | expire now => exact List.nil_subset _
  | ingest chunk entered appended => exact List.Subset.refl _
  | addMetadata metadata now => exact List.Subset.refl _
  | reset => exact List.Subset.refl _

namespace Assembler

/-- The times of the contiguous chunks of frame `f` in the run from `s`. -/
def contiguous (f : UInt32) (s : Assembler) (calls : List Call) : List TimePoint :=
  assembler.gather (appendedAt f) s calls

/-- Frame `f` is tracked after the calls, and `t` is the time of its last contiguous chunk
since it was admitted, or without one, of its admission. -/
def LastProgress (calls : List Call) (f : UInt32) (t : TimePoint) : Prop :=
  ∃ before c after, calls = before ++ c :: after ∧
    f ∉ (assembler.exec assembler.init before).startedAt ∧
    (assembler.exec assembler.init before).Admits c f ∧
    assembler.Along (fun s call => f ∈ (assembler.step s call).1.startedAt)
      (assembler.exec assembler.init before) (c :: after) ∧
    (assembler.last (appendedAt f) (assembler.exec assembler.init before) (c :: after)).or
      c.readings.head? = some t

variable {s : Assembler} {call : Call} {f : UInt32}

theorem Admits.entered (h : s.Admits call f) : ∃ t, call.readings.head? = some t := by
  cases call with
  | ingest chunk entered appended => exact ⟨entered, rfl⟩
  | addMetadata metadata now => exact ⟨now, rfl⟩
  | expire now => exact h.elim
  | reset => exact h.elim

/-- The clock of a frame that is tracked from its admission on. -/
theorem exec_started (h : s.Inv) {after : List Call} (hun : f ∉ s.startedAt)
    (hadmits : s.Admits call f)
    (htracked : assembler.Along (fun s call => f ∈ (assembler.step s call).1.startedAt) s
      (call :: after)) :
    ((assembler.exec s (call :: after)).slot f).started =
      (assembler.last (appendedAt f) s (call :: after)).or call.readings.head? := by
  induction after using List.reverseRecOn with
  | nil =>
    have hmem : f ∈ (assembler.step s call).1.startedAt := htracked.1
    rw [mem_startedAt, not_not] at hun
    rw [System.exec_cons, System.exec_nil, step_started h.history (mem_startedAt.1 hmem), hun,
      if_pos hadmits, Option.none_or]
    rfl
  | append_singleton after d ih =>
    rw [← List.cons_append, System.along_snoc] at htracked
    obtain ⟨t, ht⟩ := hadmits.entered
    have hold : ((assembler.exec s (call :: after)).slot f).started =
        some ((assembler.last (appendedAt f) s (call :: after)).getD t) := by
      rw [ih htracked.1, ht, Option.or_some]
    rw [← List.cons_append, System.exec_snoc,
      step_started (h.exec _).history (mem_startedAt.1 htracked.2), hold, System.last_snoc,
      Option.some_or, Option.or_assoc, ← hold, ih htracked.1]

/-- A tracked frame was admitted, and tracked since. -/
theorem exists_admission (calls : List Call) (f : UInt32) :
    f ∈ (assembler.exec assembler.init calls).startedAt →
      ∃ before c after, calls = before ++ c :: after ∧
        f ∉ (assembler.exec assembler.init before).startedAt ∧
        (assembler.exec assembler.init before).Admits c f ∧
        assembler.Along (fun s call => f ∈ (assembler.step s call).1.startedAt)
          (assembler.exec assembler.init before) (c :: after) := by
  induction calls using List.reverseRecOn with
  | nil => exact fun h => absurd h ExtTreeMap.not_mem_empty
  | append_singleton calls call ih =>
    intro ht
    rw [System.exec_snoc] at ht
    by_cases hold : f ∈ (assembler.exec assembler.init calls).startedAt
    · obtain ⟨before, c, after, rfl, hun, hadmits, htracked⟩ := ih hold
      refine ⟨before, c, after ++ [call], by simp, hun, hadmits, ?_⟩
      rw [← List.cons_append, System.along_snoc, ← System.exec_append]
      exact ⟨htracked, ht⟩
    · refine ⟨calls, call, [], rfl, hold, ?_, ht, trivial⟩
      by_contra hna
      have hstarted := step_started (inv_exec calls).history (mem_startedAt.1 ht)
      rw [mem_startedAt, not_not] at hold
      rw [appendedAt_of_not_admits hna, hold, if_neg hna] at hstarted
      exact mem_startedAt.1 ht hstarted

/-- What `started_at_` means: the last progress of every tracked frame. -/
theorem started_iff (calls : List Call) (f : UInt32) (t : TimePoint) :
    ((assembler.exec assembler.init calls).slot f).started = some t ↔ LastProgress calls f t := by
  constructor
  · intro ht
    have hmem : f ∈ (assembler.exec assembler.init calls).startedAt :=
      mem_startedAt.2 (ht ▸ Option.some_ne_none t)
    obtain ⟨before, c, after, rfl, hun, hadmits, htracked⟩ := exists_admission calls f hmem
    refine ⟨before, c, after, rfl, hun, hadmits, htracked, ?_⟩
    rw [← exec_started (inv_exec before) hun hadmits htracked, ← System.exec_append, ht]
  · rintro ⟨before, c, after, rfl, hun, hadmits, htracked, ht⟩
    rw [System.exec_append, exec_started (inv_exec before) hun hadmits htracked, ht]

/-! ### Expiry -/

theorem expire_slot (now : TimePoint) (g : UInt32) :
    (s.expire now).1.slot g = if g ∈ s.expiredIds now then {} else s.slot g :=
  s.discardFrames_slot (s.expiredIds now) {} _ g

/-- A tracked frame is not settled, so that every expired one is reported. -/
theorem expire_reports (h : s.Inv) (now : TimePoint) :
    (∀ g, g ∈ (s.expire now).2.discardedIncompleteFrameIds ↔ g ∈ s.expiredIds now) ∧
      (s.expire now).2.discardedIncompleteFrameIds.Nodup := by
  obtain ⟨rs, hrs, -, hsub, hall⟩ := discardFrames_settles (s.expiredIds now) {}
    "incomplete frame expired; other streams continue" h.history (s.expiredIds_nodup now)
  have hids : (s.expire now).2.discardedIncompleteFrameIds = rs := hrs
  rw [hids]
  refine ⟨fun g => ⟨fun hg => hsub.subset hg, fun hg => hall g hg fun hsettled => ?_⟩,
    (s.expiredIds_nodup now).sublist hsub⟩
  obtain ⟨t, ht, -⟩ := s.mem_expiredIds.1 hg
  rw [h.settled g ((h.history.mem_iff g).1 hsettled)] at ht
  cases ht

theorem expire_again (s : Assembler) (now : TimePoint) :
    (s.expire now).1.expire now = ((s.expire now).1, {}) := by
  have hnone : (s.expire now).1.expiredIds now = [] := by
    refine List.eq_nil_iff_forall_not_mem.2 fun g hg => ?_
    obtain ⟨t, ht, hlong⟩ := mem_expiredIds _ |>.1 hg
    rw [expire_slot] at ht
    split_ifs at ht with hexpired
    exact hexpired (s.mem_expiredIds.2 ⟨t, ht, hlong⟩)
  change (s.expire now).1.discardFrames ((s.expire now).1.expiredIds now) {} _ = _
  rw [hnone]
  rfl

/-- No call sets a clock back behind its own readings. -/
theorem started_ge (h : s.Inv) {a : TimePoint} (hs : ∀ t ∈ (s.slot f).started, a ≤ t)
    {calls : List Call} (hcalls : ∀ call ∈ calls, ∀ t ∈ call.readings, a ≤ t) :
    ∀ t ∈ ((assembler.exec s calls).slot f).started, a ≤ t := by
  induction calls generalizing s with
  | nil => exact hs
  | cons call calls ih =>
    obtain ⟨hcall, hcalls⟩ := List.forall_mem_cons.1 hcalls
    refine ih (h.step call) (fun t ht => ?_) hcalls
    exact (started_or_reading h.history ht).elim (hs t) (hcall t)

/-- A frame with a contiguous chunk at `a` is not behind `a` afterwards. -/
theorem started_ge_of_contiguous {calls : List Call} {a : TimePoint}
    (hclock : (calls.flatMap Call.times).Pairwise (· ≤ ·))
    (ha : a ∈ contiguous f assembler.init calls) :
    ∀ t ∈ ((assembler.exec assembler.init calls).slot f).started, a ≤ t := by
  obtain ⟨before, c, after, rfl, hc⟩ := assembler.mem_gather ha
  rw [System.exec_append, System.exec_cons]
  refine started_ge ((inv_exec before).step c) (fun t ht => ?_) fun call hcall t ht => ?_
  · have hstarted := step_started (inv_exec before).history (ht ▸ Option.some_ne_none t)
    rw [Option.mem_def.1 ht, hc, Option.some_or] at hstarted
    exact (Option.some.inj hstarted).ge
  · rw [List.flatMap_append, List.flatMap_cons, List.pairwise_append] at hclock
    have hlater := (List.pairwise_append.1 hclock.2.1).2.2
    exact hlater a (c.readings_subset_times (appendedAt_mem_readings hc)) t
      (List.mem_flatMap.2 ⟨call, hcall, call.readings_subset_times ht⟩)

/-- Between two contiguous chunks less than a second apart a frame is not expired. -/
theorem not_mem_expiredIds {pre post : List Call} {now a b : TimePoint}
    (hclock : ((pre ++ .expire now :: post).flatMap Call.times).Pairwise (· ≤ ·))
    (ha : a ∈ contiguous f assembler.init pre)
    (hb : b ∈ contiguous f (assembler.exec assembler.init (pre ++ [.expire now])) post)
    (hnear : b - a < oneSecond) : f ∉ (assembler.exec assembler.init pre).expiredIds now := by
  rw [mem_expiredIds]
  rintro ⟨t, ht, hlong⟩
  rw [List.flatMap_append, List.flatMap_cons, List.pairwise_append] at hclock
  have hat : a ≤ t := started_ge_of_contiguous hclock.1 ha t ht
  have hnow : now ≤ b := by
    obtain ⟨before, c, after, rfl, hc⟩ := assembler.mem_gather hb
    refine (List.pairwise_append.1 hclock.2.1).2.2 now (List.mem_singleton_self now) b ?_
    exact List.mem_flatMap.2 ⟨c, by simp,
      c.readings_subset_times (appendedAt_mem_readings hc)⟩
  exact absurd hlong (not_le.2 ((sub_le_sub hnow hat).trans_lt hnear))

end Assembler

open Assembler

/-- In every reachable state `expire` reports, each once, the frames whose last contiguous
chunk since their admission, or without one their admission, is a second old; it empties
their slots and leaves the others; and a second expiry at the same time does nothing. On a
clock that does not go back, no expiry between two successive contiguous chunks of a frame
retires it, while they are less than a second apart. -/
theorem expire_precise (calls : List Call)
    (hclock : (calls.flatMap Call.times).Pairwise (· ≤ ·)) :
    (∀ f t, (assembler.exec assembler.init calls).startedAt[f]? = some t ↔
        LastProgress calls f t) ∧
      (∀ now,
        (∀ f, f ∈ ((assembler.exec assembler.init calls).expire now).2.discardedIncompleteFrameIds ↔
          ∃ t, LastProgress calls f t ∧ now - t ≥ oneSecond) ∧
        ((assembler.exec assembler.init calls).expire now).2.discardedIncompleteFrameIds.Nodup ∧
        (∀ f, ((assembler.exec assembler.init calls).expire now).1.slot f =
          if f ∈ ((assembler.exec assembler.init calls).expire now).2.discardedIncompleteFrameIds
          then {} else (assembler.exec assembler.init calls).slot f) ∧
        ((assembler.exec assembler.init calls).expire now).1.expire now =
          (((assembler.exec assembler.init calls).expire now).1, {})) ∧
      ∀ f pre now post, calls = pre ++ .expire now :: post →
        ∀ a ∈ (contiguous f assembler.init pre).getLast?,
        ∀ b ∈ (contiguous f (assembler.exec assembler.init (pre ++ [.expire now])) post).head?,
        b - a < oneSecond →
        f ∉ ((assembler.exec assembler.init pre).expire now).2.discardedIncompleteFrameIds := by
  have hreports := fun (calls : List Call) now => expire_reports (inv_exec calls) now
  refine ⟨started_iff calls, fun now => ⟨fun f => ?_, (hreports calls now).2, fun f => ?_,
    expire_again _ now⟩, ?_⟩
  · rw [(hreports calls now).1, mem_expiredIds]
    simp only [started_iff]
  · simp only [(hreports calls now).1]
    exact expire_slot now f
  · rintro f pre now post rfl a ha b hb hnear
    rw [(hreports pre now).1]
    exact not_mem_expiredIds hclock (List.mem_of_getLast? ha) (List.mem_of_head? hb) hnear

/-- Three pieces of one image, 0.6 seconds apart, with an expiry before the last. -/
def slowFrame : List Call :=
  [.ingest (piece 1 0 0 4 [1]) 0 0, .ingest (piece 1 0 1 4 [2]) 600000000 600000000,
    .expire 1100000000, .ingest (piece 1 0 2 4 [3]) 1200000000 1200000000]

theorem expire_precise_slowFrame :
    1 ∉ ((assembler.exec assembler.init (slowFrame.take 2)).expire
      1100000000).2.discardedIncompleteFrameIds :=
  (expire_precise slowFrame (by decide)).2.2 1 (slowFrame.take 2) 1100000000 (slowFrame.drop 3) rfl
    600000000 (by decide +kernel) 1200000000 (by decide +kernel) (by decide)

end PrismSdk.Camera
