import PrismSdk.Camera.Shift

/-! The order of the walks. The maps are walked in the order of the IDs as numbers, which
an addition of `k` can change: then other metadata is evicted, and frames that one call
discards enter the settled history in another order. A run that sees neither is serial. -/

namespace PrismSdk.Camera

open Std (ExtTreeMap ExtTreeSet)
open Library.RecentMemory

/-- The IDs ascend, as numbers, also with `k` added. -/
def KeepsOrder (k : UInt32) (ids : List UInt32) : Prop := (ids.map (· + k)).Pairwise (· < ·)

instance (k : UInt32) (ids : List UInt32) : Decidable (KeepsOrder k ids) :=
  inferInstanceAs (Decidable (List.Pairwise _ _))

/-- Frames that were settled in an order that `k` changes are a group. -/
def withGroup (k : UInt32) (groups : List (List UInt32)) (ids : List UInt32) :
    List (List UInt32) :=
  if KeepsOrder k ids then groups else ids :: groups

/-- The first ID is the least, as a number, also with `k` added. -/
def KeepsFirst (k : UInt32) (ids : List UInt32) : Prop :=
  ∀ first ∈ ids.head?, ∀ f ∈ ids, first + k ≤ f + k

instance (k : UInt32) (ids : List UInt32) : Decidable (KeepsFirst k ids) :=
  have (first : UInt32) : Decidable (∀ f ∈ ids, first + k ≤ f + k) := List.decidableBAll _ _
  Option.decidableForallMem _

/-- The memory holds all of the group or nothing of it. -/
def Whole (memory group : List UInt32) : Prop :=
  (∀ f ∈ group, f ∈ memory) ∨ ∀ f ∈ group, f ∉ memory

instance (memory group : List UInt32) : Decidable (Whole memory group) :=
  have : Decidable (∀ f ∈ group, f ∈ memory) := List.decidableBAll _ _
  have : Decidable (∀ f ∈ group, f ∉ memory) := List.decidableBAll _ _
  inferInstanceAs (Decidable (_ ∨ _))

namespace Assembler

variable (s : Assembler)

/-- The frames the call discards, in the order of its walk. -/
def due : Call → List UInt32
  | .ingest chunk _ _ => s.retired chunk.frameId
  | .addMetadata _ _ => []
  | .expire now => s.expiredIds now
  | .reset => []

/-- The frame the call looks for in the settled history. -/
def named : Call → Option UInt32
  | .ingest chunk _ _ => if s.isLate chunk.frameId then none else some chunk.frameId
  | .addMetadata metadata _ =>
    if s.isLate metadata.hostFrameId then none else some metadata.hostFrameId
  | .expire _ => none
  | .reset => none

/-- The discarded frames that enter the settled history, in their order. -/
def entering (call : Call) : List UInt32 :=
  news kSettledFrameHistory s.settledFrameOrder (s.due call)

/-- The settled history after them, when the call looks for its own frame. -/
def consulted (call : Call) : List UInt32 :=
  pushAll kSettledFrameHistory s.settledFrameOrder (s.entering call)

/-- The metadata the call stores puts none out, or the one of an ID that is the least
with `k` added as well. -/
def EvictsAlike (k : UInt32) : Call → Prop
  | .addMetadata metadata now =>
    s.metadataIsLate metadata.hostFrameId = false →
      ((s.slot metadata.hostFrameId).described metadata now).completed metadata.hostFrameId = none →
      16 < (s.metadataByFrame.insert metadata.hostFrameId metadata).size →
      KeepsFirst k (s.metadataByFrame.insert metadata.hostFrameId metadata).keys
  | _ => True

instance (k : UInt32) (call : Call) : Decidable (s.EvictsAlike k call) :=
  match call with
  | .addMetadata _ _ => inferInstanceAs (Decidable (_ → _))
  | .ingest _ _ _ => inferInstanceAs (Decidable True)
  | .expire _ => inferInstanceAs (Decidable True)
  | .reset => inferInstanceAs (Decidable True)

/-- The discarded frames that the settled history does not hold. -/
def unknown (ids : List UInt32) : List UInt32 := ids.filter (· ∉ s.settledFrameOrder)

/-- The known ones of the discarded frames are recent enough to stay known while the unknown
ones enter the history. -/
def KeepsKnown (ids : List UInt32) : Prop :=
  ∀ f ∈ ids, f ∈ s.settledFrameOrder →
    f ∈ s.settledFrameOrder.rtake (kSettledFrameHistory - (s.unknown ids).length)

instance (ids : List UInt32) : Decidable (s.KeepsKnown ids) := List.decidableBAll _ _

/-- The call does not see the order of the IDs, given the groups of frames that were
settled in an order that `k` changes. -/
structure SerialStep (k : UInt32) (groups : List (List UInt32)) (call : Call) : Prop where
  evicts : s.EvictsAlike k call
  known : ¬ KeepsOrder k (s.due call) → s.KeepsKnown (s.due call)
  whole : ∀ f ∈ s.named call, ∀ group ∈ groups, f ∈ group → Whole (s.consulted call) group

instance (k : UInt32) (groups : List (List UInt32)) (call : Call) :
    Decidable (s.SerialStep k groups call) :=
  have : Decidable (∀ f ∈ s.named call, ∀ group ∈ groups, f ∈ group →
      Whole (s.consulted call) group) := Option.decidableForallMem _
  decidable_of_iff (s.EvictsAlike k call ∧
    (¬ KeepsOrder k (s.due call) → s.KeepsKnown (s.due call)) ∧
    ∀ f ∈ s.named call, ∀ group ∈ groups, f ∈ group → Whole (s.consulted call) group)
    ⟨fun h => ⟨h.1, h.2.1, h.2.2⟩, fun h => ⟨h.evicts, h.known, h.whole⟩⟩

/-- The groups after the call. -/
def regroup (k : UInt32) (groups : List (List UInt32)) (call : Call) : List (List UInt32) :=
  if call = .reset then [] else withGroup k groups (s.entering call)

/-- No call of the run sees the order of the IDs. -/
def SerialRun (k : UInt32) (groups : List (List UInt32)) (s : Assembler) : List Call → Prop
  | [] => True
  | call :: calls =>
    s.SerialStep k groups call ∧
      SerialRun k (s.regroup k groups call) (assembler.step s call).1 calls

instance decidableSerialRun (k : UInt32) :
    ∀ (groups : List (List UInt32)) (s : Assembler) (calls : List Call),
      Decidable (SerialRun k groups s calls)
  | _, _, [] => isTrue trivial
  | groups, s, call :: calls =>
    have := decidableSerialRun k (s.regroup k groups call) (assembler.step s call).1 calls
    inferInstanceAs (Decidable (s.SerialStep k groups call ∧
      SerialRun k (s.regroup k groups call) (assembler.step s call).1 calls))

/-! ### Shifted lists of IDs -/

theorem add_injective (k : UInt32) : Function.Injective (fun f : UInt32 => f + k) :=
  fun _ _ h => (UInt32.add_left_inj k).1 h

theorem perm_map_add {k : UInt32} {ids ids' : List UInt32} (hn : ids.Nodup) (hn' : ids'.Nodup)
    (h : ∀ f, f + k ∈ ids' ↔ f ∈ ids) : ids'.Perm (ids.map (· + k)) := by
  rw [List.perm_ext_iff_of_nodup hn' (hn.map (add_injective k))]
  intro g
  rw [← UInt32.sub_add_cancel g k, h, List.mem_map_of_injective (add_injective k)]

theorem retired_sorted (f : UInt32) : (s.retired f).Pairwise (· < ·) := by
  unfold retired
  split
  · split_ifs
    · exact ExtTreeSet.ordered_toList.imp fun h => Std.compare_eq_lt.1 h
    · exact List.Pairwise.nil
  · exact List.Pairwise.nil

theorem expiredIds_sorted (now : TimePoint) : (s.expiredIds now).Pairwise (· < ·) := by
  have hkeys : (s.startedAt.toList.map Prod.fst).Pairwise (· < ·) := by
    rw [ExtTreeMap.map_fst_toList_eq_keys]
    exact ExtTreeMap.ordered_keys.imp fun h => Std.compare_eq_lt.1 h
  exact hkeys.sublist (List.filter_sublist.map _)

/-- A walk whose order is kept meets the shifted IDs one by one. -/
theorem eq_map_of_keepsOrder {k : UInt32} {ids ids' : List UInt32}
    (hperm : ids'.Perm (ids.map (· + k))) (hsorted : ids'.Pairwise (· < ·))
    (h : KeepsOrder k ids) : ids' = ids.map (· + k) :=
  hperm.eq_of_pairwise (fun _ _ _ _ hab hba => absurd hba (UInt32.lt_asymm hab)) hsorted h

/-! ### Sweeps -/

attribute [ext] CameraChunkResult

variable {k j : UInt32} {groups : List (List UInt32)} {s s' : Assembler}

/-- A sweep settles, and reports, the frames that are unknown at their turn. -/
theorem discardFrames_news {s : Assembler} (h : s.SettledInv) (ids : List UInt32)
    (result : CameraChunkResult) (reason : String) :
    (s.discardFrames ids result reason).2.discardedIncompleteFrameIds =
        result.discardedIncompleteFrameIds ++
          news kSettledFrameHistory s.settledFrameOrder ids ∧
      Settles s (news kSettledFrameHistory s.settledFrameOrder ids)
        (s.discardFrames ids result reason).1 := by
  induction ids generalizing s result with
  | nil => exact ⟨(List.append_nil _).symm, Settles.refl h rfl⟩
  | cons f ids ih =>
    obtain ⟨rs, hrs, hids, hset⟩ := settles_discardFrame h f result reason
    obtain ⟨hids', hset'⟩ := ih hset.inv (s.discardFrame f result reason).2
    have hnews : news kSettledFrameHistory s.settledFrameOrder (f :: ids) =
        rs ++ news kSettledFrameHistory (s.discardFrame f result reason).1.settledFrameOrder
          ids := by
      rw [hset.order, hrs, news]
      by_cases hf : f ∈ s.settledFrameOrder
      · rw [if_pos hf, if_pos ((h.mem_iff f).2 hf)]
        rfl
      · rw [if_neg hf, if_neg (mt (h.mem_iff f).1 hf)]
        rfl
    rw [discardFrames_cons, hids', hids, hnews, List.append_assoc]
    exact ⟨rfl, hset.trans hset'⟩

/-- The lists of a sweep, in terms of the state before it. -/
theorem discardFrames_lists (h : s.Inv) {ids : List UInt32} (hn : ids.Nodup) (reason : String) :
    (s.discardFrames ids {} reason).2 =
      { discardedIncompleteFrameIds := news kSettledFrameHistory s.settledFrameOrder ids
        discardedDiagnostics :=
          (news kSettledFrameHistory s.settledFrameOrder ids).map (s.report reason)
        partialFrames := (news kSettledFrameHistory s.settledFrameOrder ids).flatMap
          (fun f => ((s.slot f).surviving f).toList) } := by
  obtain ⟨rs, hrs, hdiags, hsub⟩ := s.discardFrames_diagnostics hn {} reason
  obtain ⟨rs', hrs', -, -, hall⟩ := discardFrames_settles ids {} reason h.history hn
  obtain rfl : rs' = rs := List.append_cancel_left (hrs'.symm.trans hrs)
  obtain ⟨hnews, -⟩ := discardFrames_news h.history ids {} reason
  obtain rfl := List.append_cancel_left (hnews.symm.trans hrs)
  have hkept := s.discardFrames_partialFrames ids {} reason hn
  rw [flatMap_surviving_eq h hsub hn hall] at hkept
  exact CameraChunkResult.ext (s.discardFrames_completed ids {} reason)
    (hrs.trans (List.nil_append _)) (hdiags.trans (List.nil_append _))
    (hkept.trans (List.nil_append _))

theorem report_shift {f : UInt32} (h : s'.slot (f + k) = (s.slot f).shift k j)
    (reason : String) : s'.report reason (f + k) = (s.report reason f).shift k := by
  have hframe : s'.partialFrameSets[f + k]? = s.partialFrameSets[f]? := congrArg Slot.frameSet h
  have hmeta : s'.metadataByFrame[f + k]? = s.metadataByFrame[f]?.map (·.shift k j) :=
    congrArg Slot.metadata h
  have himage : ∀ camera, s'.pendingImages[(camera, f + k)]? = s.pendingImages[(camera, f)]? :=
    fun camera => congrFun (congrArg Slot.image h) camera
  have hreceived : s'.metadataByFrame.contains (f + k) = s.metadataByFrame.contains f := by
    rw [ExtTreeMap.contains_eq_isSome_getElem?, ExtTreeMap.contains_eq_isSome_getElem?, hmeta,
      Option.isSome_map]
  have hcameras : s'.progress (f + k) = s.progress f := by
    funext c
    unfold progress
    rw [hframe, himage]
  unfold report diagnostic
  rw [hreceived, hcameras]
  rfl

/-- A report tells whether the frame's metadata was received. -/
theorem describes_of_mem {r : CameraChunkResult} {ids : List UInt32} {reason : String}
    (hr : r.discardedDiagnostics = ids.map (s.report reason)) {f : UInt32} (hf : f ∈ ids) :
    r.describes f = (s.slot f).metadata.isSome := by
  have hreceived : ∀ g, (s.report reason g).metadataReceived = (s.slot g).metadata.isSome :=
    fun g => ExtTreeMap.contains_eq_isSome_getElem?
  unfold CameraChunkResult.describes
  rw [hr, List.any_map, Bool.eq_iff_iff, List.any_eq_true, ← hreceived]
  constructor
  · rintro ⟨g, -, hg⟩
    simp only [Function.comp_apply, Bool.and_eq_true, decide_eq_true_eq] at hg
    rw [← show g = f from hg.1]
    exact hg.2
  · intro h
    exact ⟨f, hf, by simp only [Function.comp_apply, h, Bool.and_true, decide_eq_true_eq]; rfl⟩

theorem subset_withGroup (ids : List UInt32) : groups ⊆ withGroup k groups ids := by
  unfold withGroup
  split_ifs
  · exact List.Subset.refl _
  · exact List.subset_cons_self _ _

theorem retired_of_late {f : UInt32} (h : s.isLate f = true) : s.retired f = [] := by
  unfold Assembler.isLate at h
  unfold Assembler.retired
  cases hn : s.newestFrameId with
  | none => rfl
  | some newest =>
    obtain ⟨-, hold⟩ : f ≠ newest ∧ frameIdIsNewer f newest = false := by simpa [hn] using h
    simp [hold]

theorem regroup_of_due_nil {call : Call} (hcall : call ≠ .reset) (hdue : s.due call = []) :
    s.regroup k groups call = groups := by
  rw [regroup, if_neg hcall, entering, hdue]
  exact if_pos List.Pairwise.nil

/-! ### Metadata -/

/-- The trimmed map drops its first entry when it has one too many. -/
theorem trimMetadata_of_succ {m : ExtTreeMap UInt32 VideoMeta} (h : m.size = 17) :
    ∃ first, m.keys.head? = some first ∧ trimMetadata m.size m = m.erase first := by
  have hlen : m.keys.length = 17 := ExtTreeMap.length_keys.trans h
  obtain ⟨first, rest, hkeys⟩ := List.exists_cons_of_length_eq_add_one hlen
  have hmem : first ∈ m := ExtTreeMap.mem_keys.1 (hkeys ▸ List.mem_cons_self)
  have hsize : (m.erase first).size ≤ 16 := by
    rw [ExtTreeMap.size_erase, if_pos (ExtTreeMap.contains_iff_mem.2 hmem), h]
  refine ⟨first, by rw [hkeys]; rfl, ?_⟩
  rw [h, trimMetadata, if_pos (by omega), hkeys]
  exact trimMetadata_of_le hsize

theorem head_le_of_sorted {ids : List UInt32} {first : UInt32} (h : ids.Pairwise (· < ·))
    (hfirst : ids.head? = some first) {f : UInt32} (hf : f ∈ ids) : first ≤ f := by
  obtain ⟨rest, rfl⟩ := List.head?_eq_some_iff.1 hfirst
  rcases List.mem_cons.1 hf with rfl | hf
  · exact UInt32.le_refl f
  · exact UInt32.le_of_lt (List.rel_of_pairwise_cons h hf)

/-- Twin maps drop twin entries. -/
theorem trimMetadata_shift {m m' : ExtTreeMap UInt32 VideoMeta}
    (hm : ∀ f : UInt32, m'[f + k]? = m[f]?.map (VideoMeta.shift k j)) (hsize : m.size ≤ 17)
    (hfirst : 16 < m.size → KeepsFirst k m.keys) (f : UInt32) :
    (trimMetadata m'.size m')[f + k]? =
      (trimMetadata m.size m)[f]?.map (VideoMeta.shift k j) := by
  have hmem : ∀ f, f + k ∈ m'.keys ↔ f ∈ m.keys := by
    intro f
    rw [ExtTreeMap.mem_keys, ExtTreeMap.mem_keys, ← ExtTreeMap.isSome_getElem?_iff_mem,
      ← ExtTreeMap.isSome_getElem?_iff_mem, hm, Option.isSome_map]
  have hsorted : ∀ m : ExtTreeMap UInt32 VideoMeta, m.keys.Pairwise (· < ·) :=
    fun m => ExtTreeMap.ordered_keys.imp fun h => Std.compare_eq_lt.1 h
  have hperm : m'.keys.Perm (m.keys.map (· + k)) :=
    perm_map_add ((hsorted m).imp fun h => UInt32.ne_of_lt h)
      ((hsorted m').imp fun h => UInt32.ne_of_lt h) hmem
  have hsame : m'.size = m.size := by
    rw [← ExtTreeMap.length_keys, ← ExtTreeMap.length_keys, hperm.length_eq, List.length_map]
  by_cases hle : m.size ≤ 16
  · rw [trimMetadata_of_le hle, trimMetadata_of_le (hsame.trans_le hle), hm]
  · obtain ⟨first, hhead, htrim⟩ := trimMetadata_of_succ (show m.size = 17 by omega)
    obtain ⟨first', hhead', htrim'⟩ := trimMetadata_of_succ (show m'.size = 17 by omega)
    have heq : first' = first + k := by
      have hin := (hmem first).2 (List.mem_of_mem_head? hhead)
      obtain ⟨g, hg, rfl⟩ := List.mem_map.1 (hperm.subset (List.mem_of_mem_head? hhead'))
      exact UInt32.le_antisymm (head_le_of_sorted (hsorted m') hhead' hin)
        (hfirst (by omega) first hhead g hg)
    rw [htrim, htrim', ExtTreeMap.getElem?_erase, ExtTreeMap.getElem?_erase, hm, heq]
    by_cases hf : first = f
    · rw [hf, if_pos Std.compare_self, if_pos Std.compare_self]
      rfl
    · rw [if_neg (mt Std.compare_eq_iff_eq.1 hf),
        if_neg fun he => hf (add_injective k (Std.compare_eq_iff_eq.1 he))]

theorem metadata_takeCompletedFrame_of_some {f : UInt32} {set : CameraFrameSet}
    (h : (s.slot f).completed f = some set) :
    (s.takeCompletedFrame f).1.metadataByFrame = s.metadataByFrame.erase f := by
  obtain ⟨frameSet, metadata, hp, hm, hc, -⟩ := Slot.completed_eq_some.1 h
  have hp' : s.partialFrameSets[f]? = some frameSet := hp
  have hm' : s.metadataByFrame[f]? = some metadata := hm
  unfold takeCompletedFrame settleFrame
  simp only [hp', hm', hc, if_true]
  split_ifs <;> rfl

/-- The map has at most one entry too many, and then the call's frame has not completed. -/
theorem size_described (hs : s.Inv) (metadata : VideoMeta) (now : TimePoint)
    (hevicts : ((s.slot metadata.hostFrameId).described metadata now).completed
        metadata.hostFrameId = none →
      16 < (s.metadataByFrame.insert metadata.hostFrameId metadata).size →
      KeepsFirst k (s.metadataByFrame.insert metadata.hostFrameId metadata).keys)
    {m : ExtTreeMap UInt32 VideoMeta}
    (hm : m = ((s.withMetadata metadata now).takeCompletedFrame
      metadata.hostFrameId).1.metadataByFrame) :
    m.size ≤ 17 ∧ (16 < m.size → KeepsFirst k m.keys) := by
  have hslot : (s.withMetadata metadata now).slot metadata.hostFrameId =
      (s.slot metadata.hostFrameId).described metadata now := by
    rw [slot_withMetadata, if_pos rfl]
  have hmap : (s.withMetadata metadata now).metadataByFrame =
      s.metadataByFrame.insert metadata.hostFrameId metadata := rfl
  have hroom := hs.metadata
  cases hc : ((s.withMetadata metadata now).slot metadata.hostFrameId).completed
      metadata.hostFrameId with
  | none =>
    rw [takeCompletedFrame_of_none _ hc, hmap] at hm
    rw [hslot] at hc
    rw [hm]
    exact ⟨ExtTreeMap.size_insert_le.trans (Nat.succ_le_succ hroom), hevicts hc⟩
  | some set =>
    have hle : m.size ≤ 16 := by
      rw [hm, metadata_takeCompletedFrame_of_some hc, hmap, ExtTreeMap.size_erase,
        ExtTreeMap.contains_insert_self, if_pos rfl]
      exact (Nat.sub_le_sub_right ExtTreeMap.size_insert_le 1).trans hroom
    exact ⟨hle.trans (Nat.le_succ 16), fun h => absurd hle (Nat.not_le.2 h)⟩

end Assembler

end PrismSdk.Camera
