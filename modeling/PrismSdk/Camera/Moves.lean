import PrismSdk.Camera.Settle

/-! One call seen from one frame. Whatever the call is, the slot of a frame
makes one of the moves listed here, and the move says which sets of the frame
the call delivers and whether it reports the frame. Invariants and facts about
runs are proved by cases on the move. -/

namespace PrismSdk.Camera

open Std (ExtTreeMap ExtTreeSet)
open Library.RecentMemory

namespace Slot

/-- Metadata is stored, and the frame's clock is started unless it runs. -/
def described (t : Slot) (metadata : VideoMeta) (now : TimePoint) : Slot :=
  { t.enter now with metadata := some metadata }

end Slot

namespace Assembler

variable (s : Assembler)

/-- The frames a chunk of frame `f` retires, in the order of the sweep. -/
def retired (f : UInt32) : List UInt32 :=
  match s.newestFrameId with
  | some newest => if frameIdIsNewer f newest then (s.incompleteOlderThan f).toList else []
  | none => []

/-- The chunk of frame `f` is late: another frame is the newest, and `f` is not
newer than that. -/
def isLate (f : UInt32) : Bool :=
  s.newestFrameId.any (fun newest => f != newest && !frameIdIsNewer f newest)

/-- The call starts or continues the tracking of `f`: it is not turned away for
its frame ID. -/
def Admits (s : Assembler) (call : Call) (f : UInt32) : Prop :=
  match call with
  | .ingest chunk _ _ =>
    chunk.frameId = f ∧ s.isLate f = false ∧
      (s.discardFrames (s.retired f) {}).1.frameIsSettled f = false
  | .addMetadata metadata _ => metadata.hostFrameId = f ∧ s.metadataIsLate f = false
  | .expire _ => False
  | .reset => False

instance (call : Call) (f : UInt32) : Decidable (s.Admits call f) :=
  match call with
  | .ingest _ _ _ => inferInstanceAs (Decidable (_ ∧ _ ∧ _))
  | .addMetadata _ _ => inferInstanceAs (Decidable (_ ∧ _))
  | .expire _ => inferInstanceAs (Decidable False)
  | .reset => inferInstanceAs (Decidable False)

theorem frameIdIsNewer_self (f : UInt32) : frameIdIsNewer f f = false := by
  simp [frameIdIsNewer, Library.Serial.not_newer_self]

theorem advance_of_late {f : UInt32} (h : s.isLate f = true) : s.advance f = none := by
  unfold isLate at h
  unfold advance
  cases hn : s.newestFrameId with
  | none => simp [hn] at h
  | some newest =>
    obtain ⟨hne, hold⟩ : f ≠ newest ∧ frameIdIsNewer f newest = false := by simpa [hn] using h
    simp [hne, hold]

/-- Unless it is late, the chunk retires the frames of `retired` and its frame is
the newest afterwards. -/
theorem advance_of_not_late {f : UInt32} (h : s.isLate f = false) :
    s.advance f = some
      ({ (s.discardFrames (s.retired f) {}).1 with newestFrameId := some f },
        (s.discardFrames (s.retired f) {}).2) := by
  unfold isLate at h
  unfold advance retired discardFramesOlderThan
  cases hn : s.newestFrameId with
  | none => rfl
  | some newest =>
    by_cases hnew : frameIdIsNewer f newest = true
    · simp [hnew]
    · have heq : f = newest := by
        by_contra hne
        simp [hn, hne, hnew] at h
      subst heq
      simp only [frameIdIsNewer_self, Bool.false_eq_true, if_false, ne_eq, not_true_eq_false,
        Option.some.injEq, Prod.mk.injEq]
      refine ⟨?_, rfl⟩
      rw [← hn]
      rfl

theorem mem_incompleteOlderThan (f g : UInt32) :
    g ∈ s.incompleteOlderThan f ↔ frameIdIsNewer f g = true ∧ (s.slot g).Held := by
  have hpending : (∃ k ∈ s.pendingImages, k.2 = g) ↔ ∃ camera, (s.slot g).image camera ≠ none := by
    constructor
    · rintro ⟨⟨camera, _⟩, hk, rfl⟩
      exact ⟨camera, by simpa [slot] using hk⟩
    · rintro ⟨camera, hc⟩
      exact ⟨(camera, g), by simpa [slot] using hc, rfl⟩
  unfold incompleteOlderThan Slot.Held
  rw [ExtTreeSet.mem_ofList, List.contains_iff_mem, List.mem_filter,
    and_comm, List.mem_append, List.mem_append, List.mem_map, or_assoc, ← hpending]
  simp [slot]

theorem retired_nodup (f : UInt32) : (s.retired f).Nodup := by
  unfold retired
  split
  · split_ifs
    · exact (ExtTreeSet.distinct_toList).imp (fun h he => h (by rw [he]; simp))
    · exact List.nodup_nil
  · exact List.nodup_nil

theorem mem_retired {f g : UInt32} :
    g ∈ s.retired f ↔ frameIdIsNewer f g = true ∧ (s.slot g).Held ∧
      ∃ newest, s.newestFrameId = some newest ∧ frameIdIsNewer f newest = true := by
  unfold retired
  cases hn : s.newestFrameId with
  | none => simp
  | some newest =>
    by_cases h : frameIdIsNewer f newest = true
    · simp [h, mem_incompleteOlderThan]
    · simp [h]

theorem not_mem_retired_self (f : UInt32) : f ∉ s.retired f := by
  rw [mem_retired, frameIdIsNewer_self]
  simp

/-! ### Ingest -/

/-- The state after the sweep of older frames. -/
def swept (f : UInt32) : Assembler :=
  { (s.discardFrames (s.retired f) {}).1 with newestFrameId := some f }

theorem swept_slot (f g : UInt32) :
    (s.swept f).slot g = if g ∈ s.retired f then {} else s.slot g :=
  s.discardFrames_slot (s.retired f) {} _ g

theorem ingest_of_late {chunk : VideoChunkView} (h : s.isLate chunk.frameId = true)
    (entered appended : TimePoint) : s.ingest chunk entered appended = (s, {}) := by
  unfold ingest
  rw [advance_of_late s h]

theorem ingest_of_not_late {chunk : VideoChunkView} (h : s.isLate chunk.frameId = false)
    (entered appended : TimePoint) :
    s.ingest chunk entered appended =
      (((s.swept chunk.frameId).ingestFrame chunk entered appended).1,
        { (s.discardFrames (s.retired chunk.frameId) {}).2 with
          completed := ((s.swept chunk.frameId).ingestFrame chunk entered appended).2 }) := by
  unfold ingest
  rw [advance_of_not_late s h]
  rfl

/-- An admitted chunk makes a move on the slot of its frame. -/
theorem ingested_ingest {chunk : VideoChunkView} {entered appended : TimePoint}
    (h : s.Admits (.ingest chunk entered appended) chunk.frameId) :
    Slot.Ingested chunk entered appended (s.slot chunk.frameId)
      ((s.ingest chunk entered appended).1.slot chunk.frameId)
      (s.ingest chunk entered appended).2.completed := by
  obtain ⟨-, hlate, hun⟩ := h
  have hslot : (s.swept chunk.frameId).slot chunk.frameId = s.slot chunk.frameId := by
    rw [swept_slot, if_neg (s.not_mem_retired_self chunk.frameId)]
  rw [ingest_of_not_late s hlate, ← hslot]
  exact (s.swept chunk.frameId).ingested_ingestFrame chunk entered appended hun

theorem completed_frameId {t : Slot} {f : UInt32} {set : CameraFrameSet}
    (h : t.completed f = some set) : set.frameId = f := by
  obtain ⟨_, _, -, -, -, rfl⟩ := Slot.completed_eq_some.1 h
  rfl

theorem surviving_frameId {t : Slot} {f : UInt32} {set : CameraFrameSet}
    (h : t.surviving f = some set) : set.frameId = f := by
  obtain ⟨_, -, -, rfl⟩ := Slot.surviving_eq_some.1 h
  rfl

theorem ingested_frameId {chunk : VideoChunkView} {entered appended : TimePoint} {t t' : Slot}
    {done : Option CameraFrameSet} (h : Slot.Ingested chunk entered appended t t' done) :
    ∀ set ∈ done, set.frameId = chunk.frameId := by
  cases h with
  | finished _ _ _ _ _ _ set hn =>
    rintro _ ⟨⟩
    exact completed_frameId hn
  | _ => simp

/-- Sets of frame `g` among the partial sets of a sweep. -/
theorem filter_surviving {ids : List UInt32} (hn : ids.Nodup) (g : UInt32) :
    (ids.flatMap (fun f => ((s.slot f).surviving f).toList)).filter (fun set => set.frameId = g) =
      if g ∈ ids then ((s.slot g).surviving g).toList else [] := by
  have hself : ∀ f, ((s.slot f).surviving f).toList.filter (fun set => set.frameId = g) =
      if f = g then ((s.slot f).surviving f).toList else [] := by
    intro f
    cases h : (s.slot f).surviving f with
    | none => simp
    | some set => by_cases hf : f = g <;> simp [surviving_frameId h, hf]
  induction ids with
  | nil => rfl
  | cons f ids ih =>
    rw [List.nodup_cons] at hn
    rw [List.flatMap_cons, List.filter_append, hself, ih hn.2]
    by_cases hf : f = g
    · subst hf
      simp [hn.1]
    · simp [hf, Ne.symm hf]

/-! ### Metadata and expiry -/

theorem trimMetadata_getElem? (fuel : ℕ) (m : ExtTreeMap UInt32 VideoMeta) (g : UInt32) :
    (trimMetadata fuel m)[g]? = m[g]? ∨ (trimMetadata fuel m)[g]? = none := by
  induction fuel generalizing m with
  | zero => exact Or.inl rfl
  | succ fuel ih =>
    unfold trimMetadata
    split_ifs
    · cases m.keys.head? with
      | none => exact Or.inl rfl
      | some first =>
        rcases ih (m.erase first) with h | h
        · dsimp only
          rw [h, ExtTreeMap.getElem?_erase]
          split_ifs
          · exact Or.inr rfl
          · exact Or.inl rfl
        · exact Or.inr h
    · exact Or.inl rfl

theorem trimMetadata_of_le {fuel : ℕ} {m : ExtTreeMap UInt32 VideoMeta} (h : m.size ≤ 16) :
    trimMetadata fuel m = m := by
  cases fuel with
  | zero => rfl
  | succ fuel => rw [trimMetadata, if_neg (by omega)]

/-- Every turn of the loop drops an entry, so the bound is reached. -/
theorem size_trimMetadata_le (fuel : ℕ) (m : ExtTreeMap UInt32 VideoMeta) (h : m.size ≤ 16 + fuel) :
    (trimMetadata fuel m).size ≤ 16 := by
  induction fuel generalizing m with
  | zero => exact h
  | succ fuel ih =>
    unfold trimMetadata
    split_ifs with hs
    · cases hk : m.keys.head? with
      | none =>
        rw [List.head?_eq_none_iff] at hk
        have := ExtTreeMap.length_keys (t := m)
        simp [hk] at this
        omega
      | some first =>
        refine ih _ ?_
        have hmem : first ∈ m := ExtTreeMap.mem_keys.1 (List.mem_of_mem_head? hk)
        rw [ExtTreeMap.size_erase, if_pos (ExtTreeMap.contains_iff_mem.2 hmem)]
        omega
    · omega

/-- The IDs `expire` discards. -/
def expiredIds (now : TimePoint) : List UInt32 :=
  (s.startedAt.toList.filter (fun frame => now - frame.2 ≥ oneSecond)).map Prod.fst

theorem mem_expiredIds {now : TimePoint} {g : UInt32} :
    g ∈ s.expiredIds now ↔ ∃ t, (s.slot g).started = some t ∧ now - t ≥ oneSecond := by
  simp only [expiredIds, List.mem_map, List.mem_filter, Prod.exists, slot,
    ExtTreeMap.mem_toList_iff_getElem?_eq_some, decide_eq_true_eq]
  constructor
  · rintro ⟨_, t, ⟨h, ht⟩, rfl⟩
    exact ⟨t, h, ht⟩
  · rintro ⟨t, h, ht⟩
    exact ⟨g, t, ⟨h, ht⟩, rfl⟩

theorem expiredIds_nodup (now : TimePoint) : (s.expiredIds now).Nodup := by
  have hkeys : (s.startedAt.toList.map Prod.fst).Nodup := by
    rw [ExtTreeMap.map_fst_toList_eq_keys]
    exact ExtTreeMap.distinct_keys.imp (fun h he => h (by rw [he]; simp))
  exact hkeys.sublist (List.filter_sublist.map _)

/-! ### Moves -/

/-- One call seen from frame `g`: the slot it leaves, the sets of `g` it delivers,
and whether it reports `g`. -/
inductive Move (s : Assembler) (call : Call) (g : UInt32) :
    Slot → List CameraFrameSet → Bool → Prop where
  | keep (h : ¬ s.Admits call g) (hcall : call ≠ .reset) : Move s call g (s.slot g) [] false
  | discarded (rep : Bool) (h : ¬ s.Admits call g) (hcall : call ≠ .reset)
    (hsome : s.slot g ≠ {}) (hrep : g ∉ s.settledFrameIds → rep = true) :
    Move s call g {} ((s.slot g).surviving g).toList rep
  | ingested (chunk : VideoChunkView) (entered appended : TimePoint) (t : Slot)
    (done : Option CameraFrameSet) (hcall : call = .ingest chunk entered appended)
    (hg : chunk.frameId = g) (h : s.Admits call g)
    (hmove : Slot.Ingested chunk entered appended (s.slot g) t done) :
    Move s call g t done.toList done.isSome
  | described (metadata : VideoMeta) (now : TimePoint) (hcall : call = .addMetadata metadata now)
    (hg : metadata.hostFrameId = g) (h : s.Admits call g)
    (hn : ((s.slot g).described metadata now).completed g = none) (stored : Option VideoMeta)
    (hstored : stored = some metadata ∨ stored = none) :
    Move s call g { (s.slot g).described metadata now with metadata := stored } [] false
  | finished (metadata : VideoMeta) (now : TimePoint) (hcall : call = .addMetadata metadata now)
    (hg : metadata.hostFrameId = g) (h : s.Admits call g) (set : CameraFrameSet)
    (hn : ((s.slot g).described metadata now).completed g = some set) :
    Move s call g ((s.slot g).described metadata now).taken [set] true
  | evicted (h : ¬ s.Admits call g) (hcall : call ≠ .reset) :
    Move s call g { s.slot g with metadata := none } [] false
  | cleared (hcall : call = .reset) : Move s call g {} [] false

/-- The set an admitted chunk completes is its frame's. -/
theorem ingestFrame_frameId (chunk : VideoChunkView) (entered appended : TimePoint) :
    ∀ set ∈ (s.ingestFrame chunk entered appended).2, set.frameId = chunk.frameId := by
  by_cases hun : s.frameIsSettled chunk.frameId = true
  · unfold ingestFrame
    simp [hun]
  · exact ingested_frameId (s.ingested_ingestFrame chunk entered appended
      (Bool.eq_false_of_not_eq_true hun))

/-- The frame of an admitted chunk, after the older frames are retired. -/
theorem move_ingest_self {s : Assembler} (chunk : VideoChunkView) (entered appended : TimePoint)
    (hlate : s.isLate chunk.frameId = false) {rs : List UInt32} (hnot : chunk.frameId ∉ rs) :
    Move s (.ingest chunk entered appended) chunk.frameId
      (((s.swept chunk.frameId).ingestFrame chunk entered appended).1.slot chunk.frameId)
      (((s.swept chunk.frameId).ingestFrame chunk entered appended).2.toList.filter
        (fun set => set.frameId = chunk.frameId))
      (decide (chunk.frameId ∈ rs ++
        (((s.swept chunk.frameId).ingestFrame chunk entered appended).2.map (·.frameId)).toList)) := by
  have hid := (s.swept chunk.frameId).ingestFrame_frameId chunk entered appended
  have hslot : (s.swept chunk.frameId).slot chunk.frameId = s.slot chunk.frameId := by
    rw [swept_slot, if_neg (s.not_mem_retired_self chunk.frameId)]
  by_cases hun : (s.swept chunk.frameId).frameIsSettled chunk.frameId = true
  · have hframe : (s.swept chunk.frameId).ingestFrame chunk entered appended =
        (s.swept chunk.frameId, none) := by
      unfold ingestFrame
      rw [if_pos hun]
    rw [hframe]
    simp only [hnot, hslot, Option.map_none, Option.toList_none, List.append_nil, List.filter_nil,
      decide_false]
    refine .keep (fun h => ?_) (by simp)
    have hfalse : (s.swept chunk.frameId).frameIsSettled chunk.frameId = false := h.2.2
    rw [hun] at hfalse
    cases hfalse
  · have hmove := (s.swept chunk.frameId).ingested_ingestFrame chunk entered appended
      (Bool.eq_false_of_not_eq_true hun)
    rw [hslot] at hmove
    have hadmits : s.Admits (.ingest chunk entered appended) chunk.frameId :=
      ⟨rfl, hlate, Bool.eq_false_of_not_eq_true hun⟩
    have hingested := Move.ingested chunk entered appended _ _ rfl rfl hadmits hmove
    convert hingested using 1
    · cases hd : ((s.swept chunk.frameId).ingestFrame chunk entered appended).2 with
      | none => rfl
      | some set => simp [hid set hd]
    · cases hd : ((s.swept chunk.frameId).ingestFrame chunk entered appended).2 with
      | none => simp [hnot]
      | some set => simp [hid set hd]

theorem move_ingest {s : Assembler} (hs : s.SettledInv) (chunk : VideoChunkView)
    (entered appended : TimePoint) (g : UInt32) :
    Move s (.ingest chunk entered appended) g ((s.ingest chunk entered appended).1.slot g)
      ((s.ingest chunk entered appended).2.delivered.filter (fun set => set.frameId = g))
      (decide (g ∈ (s.ingest chunk entered appended).2.reported)) := by
  by_cases hlate : s.isLate chunk.frameId = true
  · rw [ingest_of_late s hlate]
    simp only [CameraChunkResult.delivered, CameraChunkResult.reported]
    refine .keep ?_ (by simp)
    rintro ⟨rfl, h, -⟩
    rw [h] at hlate
    cases hlate
  have hnl : s.isLate chunk.frameId = false := Bool.eq_false_of_not_eq_true hlate
  rw [ingest_of_not_late s hnl]
  obtain ⟨rs, hrs, hset, hsub, hall⟩ :=
    discardFrames_settles (s.retired chunk.frameId) {} "next frame arrived before completion" hs
      (s.retired_nodup chunk.frameId)
  have hpartial := s.discardFrames_partialFrames (s.retired chunk.frameId) {}
    "next frame arrived before completion" (s.retired_nodup chunk.frameId)
  have hstep := (s.swept chunk.frameId).frameStep_ingestFrame chunk entered appended
  have hdone_id := (s.swept chunk.frameId).ingestFrame_frameId chunk entered appended
  simp only [CameraChunkResult.delivered, CameraChunkResult.reported, hpartial, hrs,
    List.filter_append, List.nil_append, filter_surviving s (s.retired_nodup chunk.frameId)]
  by_cases hg : chunk.frameId = g
  · subst hg
    have hnot := s.not_mem_retired_self chunk.frameId
    rw [if_neg hnot, List.nil_append]
    exact move_ingest_self chunk entered appended hnl fun h => hnot (hsub.subset h)
  · have hfil : (((s.swept chunk.frameId).ingestFrame chunk entered appended).2.toList).filter
        (fun set => set.frameId = g) = [] := by
      rw [List.filter_eq_nil_iff]
      intro set hmem
      simp [hdone_id set (by simpa using hmem), hg]
    have hrep : g ∈ rs ++ (((s.swept chunk.frameId).ingestFrame chunk entered appended).2.map
        (·.frameId)).toList ↔ g ∈ rs := by
      simp only [List.mem_append, Option.mem_toList, Option.map_eq_some_iff,
        or_iff_left_iff_imp]
      rintro ⟨set, hmem, rfl⟩
      exact absurd (hdone_id set hmem).symm hg
    have hadmits : ¬ s.Admits (.ingest chunk entered appended) g := fun h => hg h.1
    rw [hstep.other g (Ne.symm hg), swept_slot, hfil, List.append_nil]
    simp only [hrep]
    split_ifs with hm
    · refine .discarded _ hadmits (by simp) ?_ (fun h => by simpa using hall g hm h)
      exact Slot.Held.ne_empty (s.mem_retired.1 hm).2.1
    · have : g ∉ rs := fun h => hm (hsub.subset h)
      simpa [this] using Move.keep hadmits (by simp)

theorem move_expire {s : Assembler} (hs : s.SettledInv) (now : TimePoint) (g : UInt32) :
    Move s (.expire now) g ((s.expire now).1.slot g)
      ((s.expire now).2.delivered.filter (fun set => set.frameId = g))
      (decide (g ∈ (s.expire now).2.reported)) := by
  obtain ⟨rs, hrs, hset, hsub, hall⟩ :=
    discardFrames_settles (s.expiredIds now) {} "incomplete frame expired; other streams continue"
      hs (s.expiredIds_nodup now)
  have hslot := s.discardFrames_slot (s.expiredIds now) {}
    "incomplete frame expired; other streams continue" g
  have hpartial := s.discardFrames_partialFrames (s.expiredIds now) {}
    "incomplete frame expired; other streams continue" (s.expiredIds_nodup now)
  have hcompleted := s.discardFrames_completed (s.expiredIds now) {}
    "incomplete frame expired; other streams continue"
  have hadmits : ¬ s.Admits (.expire now) g := id
  change Move s (.expire now) g ((s.discardFrames (s.expiredIds now) {} _).1.slot g)
    ((s.discardFrames (s.expiredIds now) {} _).2.delivered.filter (fun set => set.frameId = g))
    (decide (g ∈ (s.discardFrames (s.expiredIds now) {} _).2.reported))
  simp only [CameraChunkResult.delivered, CameraChunkResult.reported, hslot, hpartial, hrs,
    hcompleted, Option.map_none, Option.toList_none, List.append_nil, List.nil_append,
    filter_surviving s (s.expiredIds_nodup now)]
  split_ifs with hm
  · refine .discarded _ hadmits (by simp) ?_ (fun h => by simpa using hall g hm h)
    obtain ⟨t, ht, -⟩ := s.mem_expiredIds.1 hm
    intro he
    rw [he] at ht
    cases ht
  · have : g ∉ rs := fun h => hm (hsub.subset h)
    simpa [this] using Move.keep hadmits (by simp)

/-- The state with the metadata stored, before its frame is checked for completion and the
map is trimmed. -/
def withMetadata (metadata : VideoMeta) (now : TimePoint) : Assembler :=
  { s with
    startedAt := s.startedAt.insertIfNew metadata.hostFrameId now
    metadataByFrame := s.metadataByFrame.insert metadata.hostFrameId metadata }

theorem slot_withMetadata (metadata : VideoMeta) (now : TimePoint) (g : UInt32) :
    (s.withMetadata metadata now).slot g =
      if g = metadata.hostFrameId then (s.slot g).described metadata now else s.slot g := by
  unfold withMetadata
  split_ifs with hg
  · subst hg; ext <;> grind [slot, Slot.described, Slot.enter]
  · ext <;> grind [slot]

theorem frameStep_withMetadata (metadata : VideoMeta) (now : TimePoint) :
    FrameStep s metadata.hostFrameId (s.withMetadata metadata now) none :=
  ⟨fun g hg => by rw [slot_withMetadata, if_neg hg], rfl, rfl⟩

theorem addMetadata_eq {metadata : VideoMeta} (h : s.metadataIsLate metadata.hostFrameId = false)
    (now : TimePoint) :
    s.addMetadata metadata now =
      let s₂ := ((s.withMetadata metadata now).takeCompletedFrame metadata.hostFrameId).1
      ({ s₂ with metadataByFrame := trimMetadata s₂.metadataByFrame.size s₂.metadataByFrame },
        ((s.withMetadata metadata now).takeCompletedFrame metadata.hostFrameId).2) := by
  unfold addMetadata
  rw [if_neg (by simp [h])]
  rfl

/-- `addMetadata` once its guard is passed: the slot is described, and either
completes or loses entries to the metadata cap. -/
theorem addMetadata_spec {metadata : VideoMeta} (h : s.metadataIsLate metadata.hostFrameId = false)
    (now : TimePoint) :
    (s.addMetadata metadata now).2 =
        ((s.slot metadata.hostFrameId).described metadata now).completed metadata.hostFrameId ∧
      (∀ g, ∃ stored,
        (stored = (if g = metadata.hostFrameId then some metadata else (s.slot g).metadata) ∨
          stored = none) ∧
        (s.addMetadata metadata now).1.slot g =
          if g = metadata.hostFrameId then
            if (s.addMetadata metadata now).2.isSome then
              ((s.slot g).described metadata now).taken
            else { (s.slot g).described metadata now with metadata := stored }
          else { s.slot g with metadata := stored }) ∧
      (s.addMetadata metadata now).1.newestFrameId = s.newestFrameId ∧
      (s.addMetadata metadata now).1.settled =
        if (s.addMetadata metadata now).2.isSome then
          (s.settleFrame metadata.hostFrameId).1.settled
        else s.settled := by
  have hstep := (s.frameStep_withMetadata metadata now).trans
    ((s.withMetadata metadata now).frameStep_takeCompletedFrame metadata.hostFrameId)
  obtain ⟨hdone, hself⟩ :=
    (s.withMetadata metadata now).slot_takeCompletedFrame metadata.hostFrameId
  rw [slot_withMetadata, if_pos rfl] at hdone hself
  rw [s.addMetadata_eq h]
  dsimp only
  generalize (s.withMetadata metadata now).takeCompletedFrame metadata.hostFrameId = next at *
  refine ⟨hdone, fun g => ?_, hstep.newest, hstep.settled⟩
  -- the trimming changes nothing but metadata, and only to nothing
  set trimmed := trimMetadata next.1.metadataByFrame.size next.1.metadataByFrame
  have hstored : trimmed[g]? = (next.1.slot g).metadata ∨ trimmed[g]? = none :=
    trimMetadata_getElem? _ _ g
  have hslot : slot { next.1 with metadataByFrame := trimmed } g =
      { next.1.slot g with metadata := trimmed[g]? } := rfl
  refine ⟨trimmed[g]?, ?_, ?_⟩
  · obtain rfl | hg := eq_or_ne g metadata.hostFrameId
    · rw [hself] at hstored
      rw [if_pos rfl]
      split_ifs at hstored
      · exact Or.inr (hstored.elim id id)
      · exact hstored
    · rwa [if_neg hg, ← hstep.other g hg]
  · obtain rfl | hg := eq_or_ne g metadata.hostFrameId
    · rw [hself] at hstored
      rw [hslot, hself, if_pos rfl, hdone]
      split_ifs at hstored ⊢
      · rw [hstored.elim id id]
      · rfl
    · rw [hslot, hstep.other g hg, if_neg hg]

/-- With room in the map, metadata that does not complete its frame is kept. -/
theorem addMetadata_of_room {metadata : VideoMeta}
    (h : s.metadataIsLate metadata.hostFrameId = false) (now : TimePoint)
    (hroom : s.metadataByFrame.size ≤ 15)
    (hnone : ((s.slot metadata.hostFrameId).described metadata now).completed
      metadata.hostFrameId = none) :
    (s.addMetadata metadata now).1.slot metadata.hostFrameId =
      (s.slot metadata.hostFrameId).described metadata now := by
  have hslot₁ : (s.withMetadata metadata now).slot metadata.hostFrameId =
      (s.slot metadata.hostFrameId).described metadata now := by
    rw [slot_withMetadata, if_pos rfl]
  have hsize : (s.withMetadata metadata now).metadataByFrame.size ≤ 16 :=
    ExtTreeMap.size_insert_le.trans (Nat.succ_le_succ hroom)
  have hadd : (s.addMetadata metadata now).1 = s.withMetadata metadata now := by
    rw [s.addMetadata_eq h]
    dsimp only
    rw [takeCompletedFrame_of_none _ (by rw [hslot₁]; exact hnone)]
    dsimp only
    rw [trimMetadata_of_le hsize]
  rw [hadd, hslot₁]

theorem move_addMetadata (metadata : VideoMeta) (now : TimePoint) (g : UInt32) :
    Move s (.addMetadata metadata now) g ((s.addMetadata metadata now).1.slot g)
      ((s.addMetadata metadata now).2.toList.filter (fun set => set.frameId = g))
      (decide (g ∈ ((s.addMetadata metadata now).2.map (·.frameId)).toList)) := by
  by_cases hlate : s.metadataIsLate metadata.hostFrameId = true
  · have hadd : s.addMetadata metadata now = (s, none) := by
      unfold addMetadata
      rw [if_pos hlate]
    rw [hadd]
    refine .keep ?_ (by simp)
    rintro ⟨rfl, h⟩
    rw [h] at hlate
    cases hlate
  have hnl := Bool.eq_false_of_not_eq_true hlate
  obtain ⟨hdone, hslot, -, -⟩ := s.addMetadata_spec hnl now
  obtain ⟨stored, hstored, hslot⟩ := hslot g
  by_cases hg : metadata.hostFrameId = g
  · subst hg
    have hadmits : s.Admits (.addMetadata metadata now) metadata.hostFrameId := ⟨rfl, hnl⟩
    rw [hslot, if_pos rfl, hdone]
    rw [if_pos rfl] at hstored
    cases hd : ((s.slot metadata.hostFrameId).described metadata now).completed
        metadata.hostFrameId with
    | none => simpa using Move.described metadata now rfl rfl hadmits hd stored hstored
    | some set => simpa [completed_frameId hd] using
        Move.finished metadata now rfl rfl hadmits set hd
  · have hadmits : ¬ s.Admits (.addMetadata metadata now) g := fun h => hg h.1
    have hnone : ∀ set ∈ (s.addMetadata metadata now).2, set.frameId ≠ g := by
      intro set hmem
      rw [hdone] at hmem
      rw [completed_frameId hmem]
      exact hg
    have hfil : (s.addMetadata metadata now).2.toList.filter (fun set => set.frameId = g) = [] := by
      rw [List.filter_eq_nil_iff]
      intro set hmem
      simpa using hnone set (by simpa using hmem)
    have hrep : g ∉ ((s.addMetadata metadata now).2.map (·.frameId)).toList := by
      simp only [Option.mem_toList, Option.map_eq_some_iff, not_exists, not_and]
      exact hnone
    rw [hslot, if_neg (Ne.symm hg), hfil, decide_eq_false hrep]
    rw [if_neg (Ne.symm hg)] at hstored
    rcases hstored with rfl | rfl
    · exact .keep hadmits (by simp)
    · exact .evicted hadmits (by simp)

/-- Every call makes one of the moves on every frame. -/
theorem step_move {s : Assembler} (hs : s.SettledInv) (call : Call) (g : UInt32) :
    Move s call g ((assembler.step s call).1.slot g)
      ((assembler.step s call).2.delivered.filter (fun set => set.frameId = g))
      (decide (g ∈ (assembler.step s call).2.reported)) := by
  cases call with
  | ingest chunk entered appended => exact move_ingest hs chunk entered appended g
  | addMetadata metadata now => exact s.move_addMetadata metadata now g
  | expire now => exact move_expire hs now g
  | reset =>
    have hslot : (reset s).slot g = {} := by
      ext <;> simp [reset, slot]
    show Move s .reset g ((reset s).slot g) [] false
    rw [hslot]
    exact .cleared rfl

/-- The move of a call, for facts about the slot alone. -/
theorem exists_move {s : Assembler} (hs : s.SettledInv) (call : Call) (g : UInt32) :
    ∃ sets rep, Move s call g ((assembler.step s call).1.slot g) sets rep :=
  ⟨_, _, step_move hs call g⟩

end Assembler

end PrismSdk.Camera
