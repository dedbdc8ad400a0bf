import PrismSdk.Camera.Steps

/-! Settling and discarding. The settled history is a memory of the last 64
reported IDs; an ID is reported exactly when it enters the memory. Discarding
a frame empties its slot, and delivers the images that were complete. -/

namespace PrismSdk.Camera

open Std (ExtTreeMap ExtTreeSet)
open Library (RecentMemory.push RecentMemory.pushAll RecentMemory.Fresh)
open Library.RecentMemory

namespace Assembler

variable (s : Assembler)

/-! ### The settled history -/

/-- The set holds the IDs of the order, each once, and no more than the history. -/
structure SettledInv (s : Assembler) : Prop where
  nodup : s.settledFrameOrder.Nodup
  mem_iff : ∀ f, f ∈ s.settledFrameIds ↔ f ∈ s.settledFrameOrder
  length_le : s.settledFrameOrder.length ≤ kSettledFrameHistory

theorem SettledInv.congr {s s' : Assembler} (h : s.SettledInv) (hs : s'.settled = s.settled) :
    s'.SettledInv := by
  simp only [settled, Prod.mk.injEq] at hs
  exact ⟨hs.2 ▸ h.nodup, fun f => by rw [hs.1, hs.2]; exact h.mem_iff f, hs.2 ▸ h.length_le⟩

theorem SettledInv.frameIsSettled {s : Assembler} (h : s.SettledInv) (f : UInt32) :
    s.frameIsSettled f = true ↔ f ∈ s.settledFrameOrder := by
  rw [Assembler.frameIsSettled, ExtTreeSet.contains_iff_mem, h.mem_iff]

/-- From `s` to `s'` exactly the IDs `ids` are settled, one after another. -/
structure Settles (s : Assembler) (ids : List UInt32) (s' : Assembler) : Prop where
  inv : s'.SettledInv
  fresh : Fresh kSettledFrameHistory s.settledFrameOrder ids
  order : s'.settledFrameOrder = pushAll kSettledFrameHistory s.settledFrameOrder ids

theorem Settles.refl {s s' : Assembler} (h : s.SettledInv) (hs : s'.settled = s.settled) :
    Settles s [] s' :=
  ⟨h.congr hs, trivial, congrArg Prod.snd hs⟩

theorem Settles.trans {s₁ s₂ s₃ : Assembler} {xs ys : List UInt32} (h₁ : Settles s₁ xs s₂)
    (h₂ : Settles s₂ ys s₃) : Settles s₁ (xs ++ ys) s₃ where
  inv := h₂.inv
  fresh := (fresh_append _ _ _ _).2 ⟨h₁.fresh, h₁.order ▸ h₂.fresh⟩
  order := by rw [h₂.order, h₁.order, pushAll_append]

theorem Settles.congr {s₁ s₂ s₃ : Assembler} {xs : List UInt32} (h : Settles s₁ xs s₂)
    (hs : s₃.settled = s₂.settled) : Settles s₁ xs s₃ where
  inv := h.inv.congr hs
  fresh := h.fresh
  order := (congrArg Prod.snd hs).trans h.order

theorem trimSettled_order (ids : ExtTreeSet UInt32) (order : List UInt32) :
    (trimSettled ids order).2 = order.rtake kSettledFrameHistory := by
  induction order generalizing ids with
  | nil => rfl
  | cons front order ih =>
    unfold trimSettled
    split_ifs with h
    · rw [ih, List.rtake, List.rtake, List.length_cons,
        show order.length + 1 - kSettledFrameHistory =
          (order.length - kSettledFrameHistory) + 1 by omega, List.drop_succ_cons]
    · rw [List.rtake, List.length_cons, Nat.sub_eq_zero_of_le (by omega), List.drop_zero]

theorem mem_trimSettled (ids : ExtTreeSet UInt32) (order : List UInt32) (hn : order.Nodup)
    (h : ∀ f, f ∈ ids ↔ f ∈ order) (f : UInt32) :
    f ∈ (trimSettled ids order).1 ↔ f ∈ (trimSettled ids order).2 := by
  induction order generalizing ids with
  | nil => exact h f
  | cons front order ih =>
    unfold trimSettled
    rw [List.nodup_cons] at hn
    split_ifs
    · refine ih _ hn.2 (fun g => ?_)
      rw [ExtTreeSet.mem_erase, h g, List.mem_cons, Ne, Std.compare_eq_iff_eq]
      constructor
      · rintro ⟨hg, rfl | hg'⟩
        · exact absurd rfl hg
        · exact hg'
      · exact fun hg => ⟨fun he => hn.1 (he ▸ hg), Or.inr hg⟩
    · exact h f

theorem settleFrame_of_settled {f : UInt32} (h : f ∈ s.settledFrameIds) :
    s.settleFrame f = (s, false) := by
  unfold settleFrame
  rw [if_pos (ExtTreeSet.contains_iff_mem.2 h)]

/-- An unsettled frame enters the history, which may forget its oldest ID. -/
theorem settleFrame_of_not_settled {s : Assembler} (h : s.SettledInv) {f : UInt32}
    (hf : f ∉ s.settledFrameIds) :
    (s.settleFrame f).2 = true ∧ Settles s [f] (s.settleFrame f).1 := by
  have hord : f ∉ s.settledFrameOrder := fun hm => hf ((h.mem_iff f).2 hm)
  have hnodup : (s.settledFrameOrder ++ [f]).Nodup :=
    List.Nodup.append h.nodup (List.nodup_singleton f) (by simpa using hord)
  have hmem : ∀ g, g ∈ s.settledFrameIds.insert f ↔ g ∈ s.settledFrameOrder ++ [f] := by
    intro g
    rw [ExtTreeSet.mem_insert, Std.compare_eq_iff_eq, h.mem_iff, List.mem_append,
      List.mem_singleton, or_comm, eq_comm]
  have horder := trimSettled_order (s.settledFrameIds.insert f) (s.settledFrameOrder ++ [f])
  unfold settleFrame
  rw [if_neg (by rw [ExtTreeSet.contains_iff_mem]; exact hf)]
  refine ⟨rfl, ⟨?_, mem_trimSettled _ _ hnodup hmem, ?_⟩, ⟨hord, trivial⟩, horder⟩
  · exact (congrArg List.Nodup horder).mpr (hnodup.sublist (List.drop_sublist _ _))
  · exact (congrArg List.length horder).trans_le (length_push_le _ _ _)

/-! ### Discarding -/

end Assembler

namespace Slot

/-- The camera's image is there and was not rejected. -/
def isComplete (t : Slot) (c : Fin 4) : Bool := !t.isInvalid c && t.isReady c

/-- The partial set a discarded frame delivers, when a camera is complete. -/
def surviving (t : Slot) (frameId : UInt32) : Option CameraFrameSet :=
  t.frameSet.bind fun frame =>
    if maskOf t.isComplete ≠ 0 then
      some (Assembler.survivingSet frameId frame (t.metadata.getD {}) t.isComplete)
    else none

theorem surviving_eq_some {t : Slot} {f : UInt32} {set : CameraFrameSet} :
    t.surviving f = some set ↔ ∃ frame, t.frameSet = some frame ∧ maskOf t.isComplete ≠ 0 ∧
      set = Assembler.survivingSet f frame (t.metadata.getD {}) t.isComplete := by
  simp only [surviving, Option.bind_eq_some_iff, Option.ite_none_right_eq_some, Option.some.injEq]
  simp only [@eq_comm _ set]

/-- The slot holds something besides its clock. -/
def Held (t : Slot) : Prop :=
  (∃ camera, t.image camera ≠ none) ∨ t.frameSet ≠ none ∨ t.metadata ≠ none

theorem Held.ne_empty {t : Slot} (h : t.Held) : t ≠ {} := by
  rintro rfl
  simp [Held] at h

end Slot

namespace Assembler

variable (s : Assembler)

theorem progress_complete (f : UInt32) (c : Fin 4) :
    decide ((s.progress f c).state = .complete) =
      (s.slot f).isComplete c := by
  unfold progress Slot.isComplete Slot.isInvalid Slot.isReady slot
  dsimp only
  split_ifs with hi hr
  · simp [hi]
  · simp [hi, hr]
  · cases s.pendingImages[(UInt8.ofNat c.val, f)]? <;> simp [hi, hr]

theorem surviving_eq (f : UInt32) (reason : String) :
    s.surviving f { s.diagnostic f with reason } = (s.slot f).surviving f := by
  have hc : (fun c => decide ((({ s.diagnostic f with reason } : CameraFrameDiagnostic).cameras
      c).state = .complete)) = (s.slot f).isComplete :=
    funext (s.progress_complete f)
  unfold Assembler.surviving Slot.surviving
  rw [hc]
  show _ = s.partialFrameSets[f]?.bind _
  cases s.partialFrameSets[f]? with
  | none => rfl
  | some frame => rfl

/-- What `discardFrame` does: the slot is emptied, what was complete is delivered,
and the ID is reported unless it is settled already. -/
theorem discardFrame_spec (f : UInt32) (result : CameraChunkResult) (reason : String) :
    (∀ g, (s.discardFrame f result reason).1.slot g = if g = f then {} else s.slot g) ∧
      (s.discardFrame f result reason).1.newestFrameId = s.newestFrameId ∧
      (s.discardFrame f result reason).1.settled = (s.settleFrame f).1.settled ∧
      (s.discardFrame f result reason).2.completed = result.completed ∧
      (s.discardFrame f result reason).2.partialFrames =
        result.partialFrames ++ ((s.slot f).surviving f).toList ∧
      (s.discardFrame f result reason).2.discardedIncompleteFrameIds =
        result.discardedIncompleteFrameIds ++ if (s.settleFrame f).2 then [f] else [] := by
  have hflag : ((s.forget f).settleFrame f).2 = (s.settleFrame f).2 := by
    unfold settleFrame forget
    split_ifs <;> rfl
  have hsettled : ((s.forget f).settleFrame f).1.settled = (s.settleFrame f).1.settled :=
    settled_settleFrame_congr (show (s.forget f).settled = s.settled from rfl) f
  have hslot : ∀ g, ((s.forget f).settleFrame f).1.slot g = if g = f then {} else s.slot g := by
    intro g
    rw [slot_settleFrame, slot_forget]
  have hnewest : ((s.forget f).settleFrame f).1.newestFrameId = s.newestFrameId :=
    newest_settleFrame _ f
  have hsurviving := s.surviving_eq f reason
  have hcamera : ¬ (0 ≤ (-1 : ℤ) ∧ (-1 : ℤ) < kCameraCount) := by decide
  unfold discardFrame
  dsimp only at hsurviving ⊢
  rw [if_neg hcamera, hsurviving, ← hflag]
  split_ifs with h
  · exact ⟨hslot, hnewest, hsettled, rfl, rfl, rfl⟩
  · exact ⟨hslot, hnewest, hsettled, rfl, rfl, by simp⟩

/-- A discarded frame is reported if and only if it was not settled. -/
theorem settles_discardFrame {s : Assembler} (h : s.SettledInv) (f : UInt32)
    (result : CameraChunkResult) (reason : String) :
    ∃ rs, (rs = if f ∈ s.settledFrameIds then [] else [f]) ∧
      (s.discardFrame f result reason).2.discardedIncompleteFrameIds =
        result.discardedIncompleteFrameIds ++ rs ∧
      Settles s rs (s.discardFrame f result reason).1 := by
  obtain ⟨-, -, hsettled, -, -, hids⟩ := s.discardFrame_spec f result reason
  refine ⟨_, rfl, ?_⟩
  rw [hids]
  by_cases hf : f ∈ s.settledFrameIds
  · rw [settleFrame_of_settled s hf] at hsettled ⊢
    simpa [hf] using Settles.refl h hsettled
  · obtain ⟨hflag, hset⟩ := settleFrame_of_not_settled h hf
    simpa [hf, hflag] using hset.congr hsettled

section DiscardFrames

variable (ids : List UInt32) (result : CameraChunkResult) (reason : String)

theorem discardFrames_cons (f : UInt32) :
    s.discardFrames (f :: ids) result reason =
      (s.discardFrame f result reason).1.discardFrames ids
        (s.discardFrame f result reason).2 reason := rfl

theorem discardFrames_slot (g : UInt32) :
    (s.discardFrames ids result reason).1.slot g = if g ∈ ids then {} else s.slot g := by
  induction ids generalizing s result with
  | nil => simp [discardFrames]
  | cons f ids ih =>
    rw [discardFrames_cons, ih, (s.discardFrame_spec f result reason).1]
    by_cases hg : g = f <;> by_cases hm : g ∈ ids <;> simp [hg, hm]

theorem discardFrames_newest :
    (s.discardFrames ids result reason).1.newestFrameId = s.newestFrameId := by
  induction ids generalizing s result with
  | nil => rfl
  | cons f ids ih =>
    rw [discardFrames_cons, ih, (s.discardFrame_spec f result reason).2.1]

theorem discardFrames_completed :
    (s.discardFrames ids result reason).2.completed = result.completed := by
  induction ids generalizing s result with
  | nil => rfl
  | cons f ids ih =>
    rw [discardFrames_cons, ih, (s.discardFrame_spec f result reason).2.2.2.1]

theorem discardFrames_partialFrames (hn : ids.Nodup) :
    (s.discardFrames ids result reason).2.partialFrames =
      result.partialFrames ++ ids.flatMap (fun f => ((s.slot f).surviving f).toList) := by
  induction ids generalizing s result with
  | nil => simp [discardFrames]
  | cons f ids ih =>
    rw [List.nodup_cons] at hn
    obtain ⟨hslot, -, -, -, hpartial, -⟩ := s.discardFrame_spec f result reason
    have hcongr : ids.flatMap (fun g =>
        (((s.discardFrame f result reason).1.slot g).surviving g).toList) =
        ids.flatMap (fun g => ((s.slot g).surviving g).toList) := by
      refine List.flatMap_congr fun g hg => ?_
      have hgf : g ≠ f := by
        rintro rfl
        exact hn.1 hg
      rw [hslot, if_neg hgf]
    rw [discardFrames_cons, ih _ _ hn.2, hpartial, hcongr, List.flatMap_cons, List.append_assoc]

/-- The reports of a sweep: a sublist of the swept IDs, with every one that was
not settled before the sweep. -/
theorem discardFrames_settles {s : Assembler} (h : s.SettledInv) (hn : ids.Nodup) :
    ∃ rs, (s.discardFrames ids result reason).2.discardedIncompleteFrameIds =
        result.discardedIncompleteFrameIds ++ rs ∧
      Settles s rs (s.discardFrames ids result reason).1 ∧ rs.Sublist ids ∧
      ∀ f ∈ ids, f ∉ s.settledFrameIds → f ∈ rs := by
  induction ids generalizing s result with
  | nil => exact ⟨[], by simp [discardFrames], Settles.refl h rfl, List.Sublist.slnil, by simp⟩
  | cons f ids ih =>
    rw [List.nodup_cons] at hn
    obtain ⟨xs, hxs, hids, hset⟩ := settles_discardFrame h f result reason
    obtain ⟨rs, hrs, hset', hsub, hall⟩ := ih (s.discardFrame f result reason).2 hset.inv hn.2
    refine ⟨xs ++ rs, ?_, hset.trans hset', ?_, ?_⟩
    · rw [discardFrames_cons, hrs, hids, List.append_assoc]
    · rw [hxs]
      split_ifs
      · exact hsub.cons f
      · exact hsub.cons_cons f
    · intro g hg hg'
      rcases List.mem_cons.1 hg with rfl | hmem
      · rw [hxs, if_neg hg']
        exact List.mem_append_left _ (List.mem_singleton_self g)
      · refine List.mem_append_right _ (hall g hmem fun hm => hg' ?_)
        -- only `f` can have entered the history before the turn of `g`
        have hgf : g ≠ f := by
          rintro rfl
          exact hn.1 hmem
        rw [hset.inv.mem_iff, hset.order] at hm
        rw [h.mem_iff]
        rcases mem_of_mem_pushAll _ hm with hm | hm
        · exact hm
        · rw [hxs] at hm
          split_ifs at hm
          · cases hm
          · exact absurd (List.mem_singleton.1 hm) hgf

end DiscardFrames

end Assembler

end PrismSdk.Camera
