import PrismSdk.Camera.Walks

/-! The same run with other frame IDs. Two states are twins when they differ by `k` and by
the order of groups in the settled history; in a serial run twins stay twins, and their
results differ by `k` alone. -/

namespace PrismSdk.Camera

open Std (ExtTreeMap ExtTreeSet)
open Library.RecentMemory

namespace Assembler

/-- State `s'` is state `s` with `k` added to the IDs, but for the order of the groups in
the settled history. -/
structure Twin (k j : UInt32) (groups : List (List UInt32)) (s s' : Assembler) : Prop where
  slot : ∀ f, s'.slot (f + k) = (s.slot f).shift k j
  newest : s'.newestFrameId = s.newestFrameId.map (· + k)
  settled : s.SettledInv
  settled' : s'.SettledInv
  order : Regrouped (· + k) (fun group => group ∈ groups ∧ ∀ f ∈ group, s.slot f = {})
    (· ∉ s.settledFrameOrder) s.settledFrameOrder s'.settledFrameOrder

variable {k j : UInt32} {groups : List (List UInt32)} {s s' : Assembler}

theorem Twin.isLate (h : Twin k j groups s s') (f : UInt32) : s'.isLate (f + k) = s.isLate f := by
  unfold Assembler.isLate
  rw [h.newest]
  cases s.newestFrameId with
  | none => rw [Option.map_none, Option.any_none, Option.any_none]
  | some newest =>
    have hne : (f + k != newest + k) = (f != newest) := by
      rw [Bool.eq_iff_iff, bne_iff_ne, bne_iff_ne, (add_injective k).ne_iff]
    simp only [Option.map_some, Option.any_some, frameIdIsNewer_add, hne]

theorem Twin.retired (h : Twin k j groups s s') (f : UInt32) :
    (s'.retired (f + k)).Perm ((s.retired f).map (· + k)) := by
  refine perm_map_add (s.retired_nodup f) (s'.retired_nodup (f + k)) fun g => ?_
  rw [mem_retired, mem_retired, frameIdIsNewer_add, h.slot, Slot.shift_held, h.newest]
  refine and_congr_right fun _ => and_congr_right fun _ => ?_
  cases s.newestFrameId with
  | none => simp
  | some newest => simp [frameIdIsNewer_add]

theorem Twin.expiredIds (h : Twin k j groups s s') (now : TimePoint) :
    (s'.expiredIds now).Perm ((s.expiredIds now).map (· + k)) := by
  refine perm_map_add (s.expiredIds_nodup now) (s'.expiredIds_nodup now) fun g => ?_
  rw [mem_expiredIds, mem_expiredIds, h.slot]
  rfl

/-! ### Sweeps -/

/-- A frame that is tracked is in no group, so that twins know it alike. -/
theorem Twin.mem_order_of_tracked (h : Twin k j groups s s') {f : UInt32} (hf : s.slot f ≠ {}) :
    f + k ∈ s'.settledFrameOrder ↔ f ∈ s.settledFrameOrder :=
  h.order.mem_iff (add_injective k) fun _ hg hmem => absurd (hg.2 f hmem) hf

/-- Twin frames are unknown to twins. -/
theorem Twin.unknown (h : Twin k j groups s s') {ids ids' : List UInt32}
    (hperm : ids'.Perm (ids.map (· + k))) (hne : ∀ f ∈ ids, s.slot f ≠ {}) :
    (s'.unknown ids').Perm ((s.unknown ids).map (· + k)) := by
  refine (hperm.filter _).trans (List.Perm.of_eq ?_)
  rw [List.filter_map]
  refine congrArg _ (List.filter_congr fun f hf => decide_eq_decide.2 ?_)
  exact not_congr (h.mem_order_of_tracked (hne f hf))

/-- If the known frames are recent enough for the one twin, they are for the other. -/
theorem Twin.keepsKnown (h : Twin k j groups s s') {ids ids' : List UInt32}
    (hperm : ids'.Perm (ids.map (· + k))) (hne : ∀ f ∈ ids, s.slot f ≠ {})
    (hknown : s.KeepsKnown ids) : s'.KeepsKnown ids' := by
  have hlen := (h.unknown hperm hne).length_eq
  rw [List.length_map] at hlen
  -- the last parts of the two histories are regrouped too
  have hlast : Regrouped (· + k) _ (fun _ => True)
      (s.settledFrameOrder.rtake (kSettledFrameHistory - (s.unknown ids).length))
      (s'.settledFrameOrder.rtake (kSettledFrameHistory - (s.unknown ids).length)) :=
    (h.order.mono (fun _ hg => hg) fun _ _ _ _ _ => trivial).rtake h.settled.nodup
      fun _ _ _ => trivial
  intro f' hf' hf
  obtain ⟨f, hfids, rfl⟩ := List.mem_map.1 (hperm.subset hf')
  rw [hlen, hlast.mem_iff (add_injective k) fun _ hg hmem => absurd (hg.2 f hmem) (hne f hfids)]
  exact hknown f hfids ((h.mem_order_of_tracked (hne f hfids)).1 hf)

/-- Twins settle twin frames in a sweep. -/
theorem Twin.entering (h : Twin k j groups s s') {ids ids' : List UInt32} (hn : ids.Nodup)
    (hsorted : ids'.Pairwise (· < ·)) (hperm : ids'.Perm (ids.map (· + k)))
    (hne : ∀ f ∈ ids, s.slot f ≠ {}) (hknown : ¬ KeepsOrder k ids → s.KeepsKnown ids)
    {xs xs' : List UInt32} (hxs : xs = news kSettledFrameHistory s.settledFrameOrder ids)
    (hxs' : xs' = news kSettledFrameHistory s'.settledFrameOrder ids') :
    xs'.Perm (xs.map (· + k)) ∧
      Regrouped (· + k)
        (fun group => group ∈ withGroup k groups xs ∧ ∀ f ∈ group, f ∈ ids ∨ s.slot f = {})
        (· ∉ pushAll kSettledFrameHistory s.settledFrameOrder xs)
        (pushAll kSettledFrameHistory s.settledFrameOrder xs)
        (pushAll kSettledFrameHistory s'.settledFrameOrder xs') := by
  have hout : ∀ group, group ∈ groups ∧ (∀ f ∈ group, s.slot f = {}) → ∀ f ∈ group, f ∉ ids :=
    fun group hg f hf hmem => hne f hmem (hg.2 f hf)
  have hsub : xs.Sublist ids := hxs ▸ news_sublist _ _
  by_cases hkeeps : KeepsOrder k ids
  · obtain ⟨hmap, hreg⟩ := h.order.news (add_injective k) h.settled.length_le h.settled.nodup hout
    rw [← eq_map_of_keepsOrder hperm hsorted hkeeps, ← hxs, ← hxs'] at hmap hreg
    refine ⟨hmap ▸ List.Perm.refl _, hreg.mono (fun group hg => ?_) fun _ _ _ _ hx => hx⟩
    exact ⟨subset_withGroup xs hg.1, fun f hf => Or.inr (hg.2 f hf)⟩
  · have hn' : ids'.Nodup := hperm.nodup_iff.2 (hn.map (add_injective k))
    have hfilter : xs = s.unknown ids := hxs.trans (news_eq_filter hn (hknown hkeeps))
    have hfilter' : xs' = s'.unknown ids' :=
      hxs'.trans (news_eq_filter hn' (h.keepsKnown hperm hne (hknown hkeeps)))
    have hperm' : xs'.Perm (xs.map (· + k)) := by
      rw [hfilter, hfilter']
      exact h.unknown hperm hne
    refine ⟨hperm', h.order.pushAll h.settled.length_le ?_ (fun group hg f hf hfx =>
      hout group hg f hf (hsub.subset hfx)) (fun group hg => ⟨subset_withGroup xs hg.1,
        fun f hf => Or.inr (hg.2 f hf)⟩) ?_⟩
    · refine List.nodup_append.2 ⟨h.settled.nodup, hn.sublist hsub, fun f hf g hg he => ?_⟩
      rw [hfilter] at hg
      exact of_decide_eq_true (List.mem_filter.1 hg).2 (he ▸ hf)
    · by_cases hkeeps' : KeepsOrder k xs
      · rw [eq_map_of_keepsOrder hperm' (hsorted.sublist (hxs' ▸ news_sublist _ _)) hkeeps']
        exact Regrouped.of_map xs
      · refine Regrouped.of_perm ⟨?_, fun f hf => Or.inl (hsub.subset hf)⟩ hperm'
        rw [withGroup, if_neg hkeeps']
        exact List.mem_cons_self

/-- The results of two sweeps that settle twin frames. -/
theorem Twin.shifted_sweep (h : Twin k j groups s s') (hs : s.Inv) (hs' : s'.Inv)
    {ids ids' : List UInt32} (hn : ids.Nodup) (hn' : ids'.Nodup) (reason : String)
    (hperm : (news kSettledFrameHistory s'.settledFrameOrder ids').Perm
      ((news kSettledFrameHistory s.settledFrameOrder ids).map (· + k))) :
    CameraChunkResult.Shifted k j (s.discardFrames ids {} reason).2
      (s'.discardFrames ids' {} reason).2 := by
  have hresult := discardFrames_lists hs hn reason
  have hresult' := discardFrames_lists hs' hn' reason
  generalize news kSettledFrameHistory s.settledFrameOrder ids = xs at *
  generalize news kSettledFrameHistory s'.settledFrameOrder ids' = xs' at *
  have hdescribes : ∀ f ∈ xs, (s.discardFrames ids {} reason).2.describes f =
      (s.slot f).metadata.isSome :=
    fun f hf => describes_of_mem (by rw [hresult]) hf
  refine ⟨?_, ?_, ?_, ?_⟩
  · rw [hresult, hresult']
    rfl
  · rw [hresult, hresult']
    exact hperm
  · rw [hresult, hresult']
    refine (hperm.map _).trans (List.Perm.of_eq ?_)
    rw [List.map_map, List.map_map]
    exact List.map_congr_left fun f _ => report_shift (h.slot f) reason
  · rw [hresult']
    refine (hperm.flatMap_right _).trans (List.Perm.of_eq ?_)
    rw [List.flatMap_map, show (s.discardFrames ids {} reason).2.partialFrames =
      xs.flatMap (fun f => ((s.slot f).surviving f).toList) by rw [hresult], List.map_flatMap]
    refine List.flatMap_congr fun f hf => ?_
    rw [h.slot, Slot.shift_surviving]
    cases hset : (s.slot f).surviving f with
    | none => rfl
    | some set =>
      rw [Option.toList_some, List.map_singleton, surviving_frameId hset, hdescribes f hf]
      rfl

/-- Twins sweep twin frames. -/
theorem Twin.sweep (h : Twin k j groups s s') (hs : s.Inv) (hs' : s'.Inv)
    {ids ids' : List UInt32} (hn : ids.Nodup) (hsorted : ids'.Pairwise (· < ·))
    (hperm : ids'.Perm (ids.map (· + k))) (hne : ∀ f ∈ ids, s.slot f ≠ {})
    (hknown : ¬ KeepsOrder k ids → s.KeepsKnown ids) (reason : String) :
    Twin k j (withGroup k groups (Library.RecentMemory.news kSettledFrameHistory
        s.settledFrameOrder ids))
        (s.discardFrames ids {} reason).1 (s'.discardFrames ids' {} reason).1 ∧
      CameraChunkResult.Shifted k j (s.discardFrames ids {} reason).2
        (s'.discardFrames ids' {} reason).2 := by
  have hn' : ids'.Nodup := hperm.nodup_iff.2 (hn.map (add_injective k))
  obtain ⟨-, hset⟩ := discardFrames_news h.settled ids {} reason
  obtain ⟨-, hset'⟩ := discardFrames_news h.settled' ids' {} reason
  have hshifted := h.shifted_sweep hs hs' hn hn' reason
  generalize hxs : news kSettledFrameHistory s.settledFrameOrder ids = xs at *
  generalize hxs' : news kSettledFrameHistory s'.settledFrameOrder ids' = xs' at *
  obtain ⟨hxperm, hreg⟩ := h.entering hn hsorted hperm hne hknown hxs.symm hxs'.symm
  rw [← hset.order, ← hset'.order] at hreg
  refine ⟨⟨fun f => ?_, ?_, hset.inv, hset'.inv, hreg.mono (fun group hg => ⟨hg.1, fun f hf => ?_⟩)
    fun _ _ _ _ hx => hx⟩, ?_⟩
  · have hmem : f + k ∈ ids' ↔ f ∈ ids := by
      rw [hperm.mem_iff, List.mem_map_of_injective (add_injective k)]
    rw [discardFrames_slot, discardFrames_slot, h.slot]
    by_cases hf : f ∈ ids
    · rw [if_pos hf, if_pos (hmem.2 hf)]
      rfl
    · rw [if_neg hf, if_neg (mt hmem.1 hf)]
  · rw [discardFrames_newest, discardFrames_newest, h.newest]
  · rw [discardFrames_slot]
    split_ifs with hmem
    · rfl
    · exact (hg.2 f hf).resolve_left hmem
  · exact hshifted hxperm

/-! ### The frame of the call -/

/-- Once the history holds all of a group of `f` or nothing of it, a group that is still
of use is known, and `f` with it. -/
theorem Twin.prune (h : Twin k j groups s s') {f : UInt32}
    (hwhole : ∀ group ∈ groups, f ∈ group → Whole s.settledFrameOrder group) :
    Regrouped (· + k)
      (fun group => (group ∈ groups ∧ ∀ g ∈ group, s.slot g = {}) ∧
        (f ∈ group → ∀ g ∈ group, g ∈ s.settledFrameOrder))
      (· ∉ s.settledFrameOrder) s.settledFrameOrder s'.settledFrameOrder := by
  refine h.order.prune (List.Subset.refl _) fun group hg => ?_
  by_cases hf : f ∈ group
  · rcases hwhole group hg.1 hf with hall | hnone
    · exact Or.inl ⟨hg, fun _ => hall⟩
    · exact Or.inr hnone
  · exact Or.inl ⟨hg, fun hmem => absurd hmem hf⟩

theorem Twin.mem_order (h : Twin k j groups s s') {f : UInt32}
    (hwhole : ∀ group ∈ groups, f ∈ group → Whole s.settledFrameOrder group) :
    f + k ∈ s'.settledFrameOrder ↔ f ∈ s.settledFrameOrder :=
  (h.prune hwhole).mem_iff (add_injective k) fun _ hg hf g hmem hgone =>
    hgone (hg.2 hf g hmem)

theorem Twin.frameIsSettled (h : Twin k j groups s s') {f : UInt32}
    (hwhole : ∀ group ∈ groups, f ∈ group → Whole s.settledFrameOrder group) :
    s'.frameIsSettled (f + k) = s.frameIsSettled f := by
  rw [Bool.eq_iff_iff, h.settled.frameIsSettled, h.settled'.frameIsSettled, h.mem_order hwhole]

/-- Twins make the same step on a frame. -/
theorem Twin.frameStep (h : Twin k j groups s s') {f : UInt32} {t t' : Assembler}
    {done done' : Option CameraFrameSet} (hstep : FrameStep s f t done)
    (hstep' : FrameStep s' (f + k) t' done') (hslot : t'.slot (f + k) = (t.slot f).shift k j)
    (hdone : done' = done.map (·.shift k j true))
    (hwhole : ∀ group ∈ groups, f ∈ group → Whole s.settledFrameOrder group)
    (hf : f ∉ s.settledFrameOrder) : Twin k j groups t t' := by
  have hset := settledInv_frameStep h.settled hstep fun _ => hf
  have hset' := settledInv_frameStep h.settled' hstep' fun _ => mt (h.mem_order hwhole).1 hf
  have hmap : (done'.map fun _ => f + k).toList = (done.map fun _ => f).toList.map (· + k) := by
    rw [hdone]
    cases done <;> rfl
  have honly : ∀ g ∈ (done.map fun _ => f).toList, g = f := by
    cases done <;> simp
  have hout : ∀ group, ((group ∈ groups ∧ ∀ g ∈ group, s.slot g = {}) ∧
      (f ∈ group → ∀ g ∈ group, g ∈ s.settledFrameOrder)) → ∀ g ∈ group, g ≠ f := by
    rintro group ⟨-, hall⟩ g hg rfl
    exact hf (hall hg g hg)
  refine ⟨fun g => ?_, ?_, hset.inv, hset'.inv, ?_⟩
  · by_cases hg : g = f
    · rw [hg, hslot]
    · rw [hstep.other g hg, hstep'.other _ fun he => hg (add_injective k he), h.slot]
  · rw [hstep.newest, hstep'.newest, h.newest]
  · rw [hset.order, hset'.order, hmap]
    refine (h.prune hwhole).pushAll h.settled.length_le ?_ (fun group hgroup g hg hmem => ?_)
      (fun group hgroup => ⟨hgroup.1.1, fun g hg => ?_⟩) (Regrouped.of_map _)
    · refine List.nodup_append.2 ⟨h.settled.nodup, ?_, fun g hg g' hg' he => ?_⟩
      · cases done <;> simp
      · rw [honly g' hg'] at he
        exact hf (he ▸ hg)
    · exact hout group hgroup g hg (honly g hmem)
    · rw [hstep.other g (hout group hgroup g hg)]
      exact hgroup.1.2 g hg

/-- A chunk of a frame whose ID is not late. -/
theorem Twin.ingestFrame (h : Twin k j groups s s') (chunk : VideoChunkView)
    (entered appended : TimePoint)
    (hwhole : ∀ group ∈ groups, chunk.frameId ∈ group → Whole s.settledFrameOrder group) :
    Twin k j groups (s.ingestFrame chunk entered appended).1
        (s'.ingestFrame (chunk.shift k) entered appended).1 ∧
      (s'.ingestFrame (chunk.shift k) entered appended).2 =
        (s.ingestFrame chunk entered appended).2.map (·.shift k j true) := by
  have hiff : s'.frameIsSettled (chunk.shift k).frameId = s.frameIsSettled chunk.frameId :=
    h.frameIsSettled hwhole
  cases hs : s.frameIsSettled chunk.frameId with
  | true =>
    rw [ingestFrame_of_settled hs, ingestFrame_of_settled (hiff.trans hs)]
    exact ⟨h, rfl⟩
  | false =>
    have hmove := (s.ingested_ingestFrame chunk entered appended hs).shift (k := k) (j := j)
    have hmove' := s'.ingested_ingestFrame (chunk.shift k) entered appended (hiff.trans hs)
    rw [show s'.slot (chunk.shift k).frameId = (s.slot chunk.frameId).shift k j from
      h.slot chunk.frameId] at hmove'
    obtain ⟨hslot, hdone⟩ := hmove'.unique hmove
    refine ⟨h.frameStep (s.frameStep_ingestFrame chunk entered appended)
      (s'.frameStep_ingestFrame (chunk.shift k) entered appended) hslot hdone hwhole ?_, hdone⟩
    rw [← h.settled.frameIsSettled, hs]
    exact Bool.false_ne_true

theorem Twin.ingest (h : Twin k j groups s s') (hs : s.Inv) (hs' : s'.Inv)
    (chunk : VideoChunkView) (entered appended : TimePoint)
    (hstep : s.SerialStep k groups (.ingest chunk entered appended)) :
    Twin k j (s.regroup k groups (.ingest chunk entered appended))
        (s.ingest chunk entered appended).1 (s'.ingest (chunk.shift k) entered appended).1 ∧
      CameraChunkResult.Shifted k j (s.ingest chunk entered appended).2
        (s'.ingest (chunk.shift k) entered appended).2 := by
  have hlate : s'.isLate (chunk.shift k).frameId = s.isLate chunk.frameId := h.isLate _
  cases hl : s.isLate chunk.frameId with
  | true =>
    have hdue : s.due (.ingest chunk entered appended) = [] := retired_of_late hl
    rw [regroup_of_due_nil (by simp) hdue, ingest_of_late s hl,
      ingest_of_late s' (hlate.trans hl)]
    exact ⟨h, rfl, List.Perm.refl _, List.Perm.refl _, List.Perm.refl _⟩
  | false =>
    obtain ⟨hsweep, hresult⟩ := h.sweep hs hs' (s.retired_nodup chunk.frameId)
      (s'.retired_sorted (chunk.frameId + k)) (h.retired chunk.frameId)
      (fun g hg => Slot.Held.ne_empty (s.mem_retired.1 hg).2.1) hstep.known
      "next frame arrived before completion"
    have hswept : Twin k j (s.regroup k groups (.ingest chunk entered appended))
        (s.swept chunk.frameId) (s'.swept (chunk.shift k).frameId) :=
      ⟨hsweep.slot, rfl, hsweep.settled.congr rfl, hsweep.settled'.congr rfl, hsweep.order⟩
    have horder : (s.swept chunk.frameId).settledFrameOrder =
        s.consulted (.ingest chunk entered appended) :=
      (discardFrames_news h.settled (s.retired chunk.frameId) {} _).2.order
    have hnamed : chunk.frameId ∈ s.named (.ingest chunk entered appended) := by
      simp [named, hl]
    have hwhole : ∀ group ∈ s.regroup k groups (.ingest chunk entered appended),
        chunk.frameId ∈ group → Whole (s.swept chunk.frameId).settledFrameOrder group := by
      intro group hgroup hf
      rw [regroup, if_neg (by simp), withGroup] at hgroup
      rw [horder]
      split_ifs at hgroup
      · exact hstep.whole _ hnamed group hgroup hf
      · rcases List.mem_cons.1 hgroup with rfl | hgroup
        · exact absurd ((news_sublist _ _).subset hf) (s.not_mem_retired_self chunk.frameId)
        · exact hstep.whole _ hnamed group hgroup hf
    obtain ⟨htwin, hdone⟩ := hswept.ingestFrame chunk entered appended hwhole
    rw [ingest_of_not_late s hl, ingest_of_not_late s' (hlate.trans hl)]
    exact ⟨htwin, hdone, hresult.discarded, hresult.diagnostics, hresult.partials⟩

theorem Twin.expire (h : Twin k j groups s s') (hs : s.Inv) (hs' : s'.Inv) (now : TimePoint)
    (hstep : s.SerialStep k groups (.expire now)) :
    Twin k j (s.regroup k groups (.expire now)) (s.expire now).1 (s'.expire now).1 ∧
      CameraChunkResult.Shifted k j (s.expire now).2 (s'.expire now).2 := by
  refine h.sweep hs hs' (s.expiredIds_nodup now) (s'.expiredIds_sorted now) (h.expiredIds now)
    (fun g hg he => ?_) hstep.known "incomplete frame expired; other streams continue"
  obtain ⟨t, ht, -⟩ := s.mem_expiredIds.1 hg
  rw [he] at ht
  cases ht

/-! ### Metadata -/

theorem Twin.withMetadataMap (h : Twin k j groups s s') {m m' : ExtTreeMap UInt32 VideoMeta}
    (hm : ∀ f : UInt32, m'[f + k]? = m[f]?.map (VideoMeta.shift k j))
    (hsub : ∀ f : UInt32, m[f]? = s.metadataByFrame[f]? ∨ m[f]? = none) :
    Twin k j groups { s with metadataByFrame := m } { s' with metadataByFrame := m' } where
  slot f := Slot.ext (congrArg Slot.started (h.slot f) :) (congrArg Slot.frameSet (h.slot f) :)
    (hm f) (congrArg Slot.image (h.slot f) :)
  newest := h.newest
  settled := h.settled.congr rfl
  settled' := h.settled'.congr rfl
  order := h.order.mono (fun group hg => ⟨hg.1, fun f hf => by
    have hempty := hg.2 f hf
    have hnone : m[f]? = none :=
      (hsub f).elim (fun he => he.trans (congrArg Slot.metadata hempty)) id
    exact Slot.ext (congrArg Slot.started hempty :) (congrArg Slot.frameSet hempty :) hnone
      (congrArg Slot.image hempty :)⟩) fun _ _ _ _ hx => hx

/-- Storing metadata is a step on its frame, up to the trimming of the map. -/
theorem Twin.describe (h : Twin k j groups s s') (metadata : VideoMeta) (now : TimePoint)
    (hwhole : ∀ group ∈ groups, metadata.hostFrameId ∈ group → Whole s.settledFrameOrder group)
    (hf : metadata.hostFrameId ∉ s.settledFrameOrder) :
    Twin k j groups ((s.withMetadata metadata now).takeCompletedFrame metadata.hostFrameId).1
        ((s'.withMetadata (metadata.shift k j) now).takeCompletedFrame
          (metadata.hostFrameId + k)).1 ∧
      ((s'.withMetadata (metadata.shift k j) now).takeCompletedFrame
          (metadata.hostFrameId + k)).2 =
        ((s.withMetadata metadata now).takeCompletedFrame metadata.hostFrameId).2.map
          (·.shift k j true) := by
  have hslot : (s'.withMetadata (metadata.shift k j) now).slot (metadata.hostFrameId + k) =
      ((s.withMetadata metadata now).slot metadata.hostFrameId).shift k j := by
    rw [slot_withMetadata s metadata, if_pos rfl]
    refine ((s'.slot_withMetadata (metadata.shift k j) now _).trans (if_pos rfl)).trans ?_
    have hdescribed : ((s.slot metadata.hostFrameId).described metadata now).shift k j =
        ((s.slot metadata.hostFrameId).shift k j).described (metadata.shift k j) now := rfl
    rw [hdescribed, ← h.slot]
    rfl
  obtain ⟨hdone, hleft⟩ := (s.withMetadata metadata now).slot_takeCompletedFrame
    metadata.hostFrameId
  obtain ⟨hdone', hleft'⟩ := (s'.withMetadata (metadata.shift k j) now).slot_takeCompletedFrame
    (metadata.hostFrameId + k)
  rw [hslot, Slot.shift_completed, ← hdone] at hdone'
  rw [hslot, Slot.shift_completed, Option.isSome_map] at hleft'
  refine ⟨h.frameStep ((s.frameStep_withMetadata metadata now).trans
    ((s.withMetadata metadata now).frameStep_takeCompletedFrame _))
    ((s'.frameStep_withMetadata (metadata.shift k j) now).trans
      ((s'.withMetadata (metadata.shift k j) now).frameStep_takeCompletedFrame _)) ?_ hdone'
    hwhole hf, hdone'⟩
  refine hleft'.trans ?_
  rw [hleft]
  split_ifs <;> rfl

theorem Twin.addMetadata (h : Twin k j groups s s') (hs : s.Inv) (metadata : VideoMeta)
    (now : TimePoint) (hstep : s.SerialStep k groups (.addMetadata metadata now)) :
    Twin k j groups (s.addMetadata metadata now).1 (s'.addMetadata (metadata.shift k j) now).1 ∧
      (s'.addMetadata (metadata.shift k j) now).2 =
        (s.addMetadata metadata now).2.map (·.shift k j true) := by
  set f := metadata.hostFrameId with hfdef
  have hwhole : s.isLate f = false →
      ∀ group ∈ groups, f ∈ group → Whole s.settledFrameOrder group :=
    fun hl => hstep.whole f (by simp [named, ← hfdef, hl])
  have hlate : s'.metadataIsLate (f + k) = s.metadataIsLate f := by
    have hnewest := h.isLate f
    change (s'.frameIsSettled (f + k) || s'.isLate (f + k)) = (s.frameIsSettled f || s.isLate f)
    rw [hnewest]
    cases hl : s.isLate f with
    | true => rw [Bool.or_true, Bool.or_true]
    | false => rw [h.frameIsSettled (hwhole hl)]
  cases hl : s.metadataIsLate f with
  | true =>
    have hadd : s.addMetadata metadata now = (s, none) := if_pos hl
    have hadd' : s'.addMetadata (metadata.shift k j) now = (s', none) := if_pos (hlate.trans hl)
    rw [hadd, hadd']
    exact ⟨h, rfl⟩
  | false =>
    obtain ⟨hsettled, hnl⟩ : s.frameIsSettled f = false ∧ s.isLate f = false := by
      simpa [metadataIsLate, Assembler.isLate] using hl
    have hf : f ∉ s.settledFrameOrder := by
      rw [← h.settled.frameIsSettled, hsettled]
      exact Bool.false_ne_true
    obtain ⟨htwin, hdone⟩ := h.describe metadata now (hwhole hnl) hf
    obtain ⟨hsize, hfirst⟩ := size_described hs metadata now (hstep.evicts hl) rfl
    rw [s.addMetadata_eq hl, s'.addMetadata_eq (hlate.trans hl)]
    exact ⟨htwin.withMetadataMap
      (trimMetadata_shift (fun g => congrArg Slot.metadata (htwin.slot g)) hsize hfirst)
      fun g => trimMetadata_getElem? _ _ g, hdone⟩

/-! ### Runs -/

theorem twin_init (k j : UInt32) : Twin k j [] assembler.init assembler.init where
  slot f := by
    have hempty : ∀ g, assembler.init.slot g = {} := by
      intro g
      ext <;> simp [assembler, Assembler.slot]
    rw [hempty, hempty]
    rfl
  newest := rfl
  settled := inv_init.history
  settled' := inv_init.history
  order := Regrouped.nil

/-- Twins make twin calls. -/
theorem Twin.step (h : Twin k j groups s s') (hs : s.Inv) (hs' : s'.Inv) (call : Call)
    (hstep : s.SerialStep k groups call) :
    Twin k j (s.regroup k groups call) (assembler.step s call).1
        (assembler.step s' (call.shift k j)).1 ∧
      CameraChunkResult.Shifted k j (assembler.step s call).2
        (assembler.step s' (call.shift k j)).2 := by
  cases call with
  | ingest chunk entered appended => exact h.ingest hs hs' chunk entered appended hstep
  | expire now => exact h.expire hs hs' now hstep
  | addMetadata metadata now =>
    obtain ⟨htwin, hdone⟩ := h.addMetadata hs metadata now hstep
    rw [regroup_of_due_nil (by simp) rfl]
    exact ⟨htwin, hdone, List.Perm.refl _, List.Perm.refl _, List.Perm.refl _⟩
  | reset =>
    exact ⟨twin_init k j, rfl, List.Perm.refl _, List.Perm.refl _, List.Perm.refl _⟩

theorem Twin.run (h : Twin k j groups s s') (hs : s.Inv) (hs' : s'.Inv) {calls : List Call}
    (hrun : SerialRun k groups s calls) :
    List.Forall₂ (CameraChunkResult.Shifted k j) (assembler.outputs s calls)
      (assembler.outputs s' (calls.map (·.shift k j))) := by
  induction calls generalizing groups s s' with
  | nil => exact List.Forall₂.nil
  | cons call calls ih =>
    obtain ⟨htwin, hresult⟩ := h.step hs hs' call hrun.1
    exact List.Forall₂.cons hresult (ih htwin (hs.step call) (hs'.step (call.shift k j)) hrun.2)

end Assembler

/-- Adding `k` to the frame IDs of a run adds `k` to those of its results, where the run
does not see the order of the IDs. -/
theorem outputs_shift (k j : UInt32) (calls : List Call)
    (h : Assembler.SerialRun k [] assembler.init calls) :
    List.Forall₂ (CameraChunkResult.Shifted k j) (assembler.outputs assembler.init calls)
      (assembler.outputs assembler.init (calls.map (·.shift k j))) :=
  (Assembler.twin_init k j).run Assembler.inv_init Assembler.inv_init h

instance (k j : UInt32) (r r' : CameraChunkResult) :
    Decidable (CameraChunkResult.Shifted k j r r') :=
  decidable_of_iff
    (r'.completed = r.completed.map (·.shift k j true) ∧
      r'.discardedIncompleteFrameIds.Perm (r.discardedIncompleteFrameIds.map (· + k)) ∧
      r'.discardedDiagnostics.Perm (r.discardedDiagnostics.map (·.shift k)) ∧
      r'.partialFrames.Perm
        (r.partialFrames.map fun set => set.shift k j (r.describes set.frameId)))
    ⟨fun h => ⟨h.1, h.2.1, h.2.2.1, h.2.2.2⟩,
      fun h => ⟨h.completed, h.discarded, h.diagnostics, h.partials⟩⟩

/-- Frames on both sides of the wrap are described and expire. -/
def crossing : List Call :=
  [.addMetadata (soloMeta 0xffffffff 0) 0, .addMetadata (soloMeta 0 0) 0, .expire oneSecond,
    .addMetadata (soloMeta 1 0) oneSecond, .ingest (wholeChunk 1 0 [3]) oneSecond oneSecond]

theorem crossing_shift :
    List.Forall₂ (CameraChunkResult.Shifted 1 1) (assembler.outputs assembler.init crossing)
      (assembler.outputs assembler.init (crossing.map (·.shift 1 1))) :=
  outputs_shift 1 1 crossing (by decide +kernel)

/-- The metadata of 17 frames across the wrap comes before the image of the second. -/
def crowded : List Call :=
  .addMetadata (soloMeta 0xffffffff 0) 0 ::
    (List.range 16).map (fun n => .addMetadata (soloMeta (UInt32.ofNat n) 0) 0) ++
    [.ingest (wholeChunk 0 0 [3]) 1 1]

/-- Two frames across the wrap expire together, and 63 others after them. -/
def outnumbered : List Call :=
  [.addMetadata (soloMeta 0xffffffff 0) 0, .addMetadata (soloMeta 0 0) 0, .expire oneSecond] ++
    (List.range 63).flatMap (fun n =>
      [.addMetadata (soloMeta (UInt32.ofNat (n + 1)) 0) 0, .expire oneSecond]) ++
    [.addMetadata (soloMeta 0 0) 0, .expire oneSecond]

set_option maxRecDepth 20000 in
/-- Both runs see that 0 is the least number: in the first, frame 0 loses its metadata and
does not complete; in the second, it is forgotten first and is reported again. -/
theorem order_seen :
    (RunInWindow 0xffffffff crowded ∧
      ¬ List.Forall₂ (CameraChunkResult.Shifted 1 1) (assembler.outputs assembler.init crowded)
        (assembler.outputs assembler.init (crowded.map (·.shift 1 1)))) ∧
    RunInWindow 0xffffffff outnumbered ∧
      ¬ List.Forall₂ (CameraChunkResult.Shifted 1 1)
        (assembler.outputs assembler.init outnumbered)
        (assembler.outputs assembler.init (outnumbered.map (·.shift 1 1))) := by
  decide +kernel

end PrismSdk.Camera
