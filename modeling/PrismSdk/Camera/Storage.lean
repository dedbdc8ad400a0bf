import PrismSdk.Camera.Credit

/-! What the assembler keeps. The maps are bounded, their entries agree with each
other, and the two halves of the settled history are one list. A settled frame is
left out of the maps, apart from images under way when its set completed. -/

namespace PrismSdk.Camera

open Std (ExtTreeMap ExtTreeSet)

namespace Assembler

/-- The bounds and the agreement of the seven fields. -/
structure Stored (s : Assembler) : Prop where
  pendingKey : ∀ key ∈ s.pendingImages, s.newestFrameId = some key.2 ∧ key.1.toNat < 4
  partialKey : ∀ f ∈ s.partialFrameSets, s.newestFrameId = some f
  pendingSize : s.pendingImages.size ≤ 4
  partialSize : s.partialFrameSets.size ≤ 1
  pending : ∀ (key : ImageKey) (image : ImageBuffer), s.pendingImages[key]? = some image →
    0 < image.received.toNat ∧ image.received.toNat = image.jpeg.length ∧
      image.jpeg.length < image.encodedSize.toNat ∧ image.encodedSize.toNat ≤ jpegLimit
  masks : ∀ (f : UInt32) (frame : PartialFrameSet), s.partialFrameSets[f]? = some frame →
    frame.readyMask &&& frame.invalidMask = 0 ∧
      (∀ c, frame.jpeg c ≠ [] ↔ hasCamera frame.readyMask c = true) ∧
      ∀ c : Fin 4, hasCamera frame.invalidMask c = true →
        (UInt8.ofNat c.val, f) ∉ s.pendingImages
  metadataSize : s.metadataByFrame.size ≤ 16
  orderNodup : s.settledFrameOrder.Nodup
  orderLength : s.settledFrameOrder.length ≤ 64
  orderMem : ∀ f, f ∈ s.settledFrameOrder ↔ f ∈ s.settledFrameIds

variable {s : Assembler}

/-- Keys below four that share one frame are told apart by their cameras. -/
theorem size_pendingImages_le (hkey : ∀ key ∈ s.pendingImages,
    s.newestFrameId = some key.2 ∧ key.1.toNat < 4) : s.pendingImages.size ≤ 4 := by
  have hnodup : s.pendingImages.keys.Nodup :=
    ExtTreeMap.distinct_keys.imp fun h he => h (by rw [he]; exact Std.ReflCmp.compare_self)
  have hcameras : (s.pendingImages.keys.map (fun key => key.1.toNat)).Nodup := by
    refine hnodup.map_on fun key hk other ho he => ?_
    have hframe := (hkey key (ExtTreeMap.mem_keys.1 hk)).1.symm.trans
      (hkey other (ExtTreeMap.mem_keys.1 ho)).1
    exact Prod.ext (UInt8.toNat_inj.1 he) (Option.some.inj hframe)
  have hsub : s.pendingImages.keys.map (fun key => key.1.toNat) ⊆ List.range 4 := by
    intro camera hc
    obtain ⟨key, hk, rfl⟩ := List.mem_map.1 hc
    exact List.mem_range.2 (hkey key (ExtTreeMap.mem_keys.1 hk)).2
  have hle := (List.subperm_of_subset hcameras hsub).length_le
  rwa [List.length_map, ExtTreeMap.length_keys, List.length_range] at hle

theorem size_partialFrameSets_le (hkey : ∀ f ∈ s.partialFrameSets, s.newestFrameId = some f) :
    s.partialFrameSets.size ≤ 1 := by
  have hnodup : s.partialFrameSets.keys.Nodup :=
    ExtTreeMap.distinct_keys.imp fun h he => h (by rw [he]; exact Std.ReflCmp.compare_self)
  have hsub : s.partialFrameSets.keys ⊆ s.newestFrameId.toList := by
    intro f hf
    exact Option.mem_toList.2 (hkey f (ExtTreeMap.mem_keys.1 hf))
  have hle := (List.subperm_of_subset hnodup hsub).length_le
  rw [ExtTreeMap.length_keys] at hle
  exact hle.trans (by cases s.newestFrameId <;> simp)

theorem Inv.stored (h : s.Inv) : s.Stored where
  pendingKey key hk := by
    have himage := mem_pendingImages.1 hk
    exact ⟨h.newest _ (Or.inr ⟨_, himage⟩), (h.slot _).camera_lt _ himage⟩
  partialKey f hf := h.newest f (Or.inl (mem_partialFrameSets.1 hf))
  pendingSize := size_pendingImages_le fun key hk => by
    have himage := mem_pendingImages.1 hk
    exact ⟨h.newest _ (Or.inr ⟨_, himage⟩), (h.slot _).camera_lt _ himage⟩
  partialSize := size_partialFrameSets_le fun f hf =>
    h.newest f (Or.inl (mem_partialFrameSets.1 hf))
  pending key image hi := by
    have hinv := (h.slot key.2).image key.1 image hi
    exact ⟨hinv.received ▸ hinv.nonempty, hinv.received, hinv.lt_size, hinv.size_le⟩
  masks f frame hf := by
    have hinv := (h.slot f).frameSet frame hf
    refine ⟨and_eq_zero hinv.ready_lt hinv.disjoint, fun c => (hinv.ready_iff c).symm,
      fun c hc => ?_⟩
    have hval : (UInt8.ofNat c.val).toNat = c.val := by
      rw [UInt8.toNat_ofNat', Nat.mod_eq_of_lt (by omega)]
    have hlt : (UInt8.ofNat c.val).toNat < 4 := hval.trans_lt c.isLt
    have hcam : (⟨(UInt8.ofNat c.val).toNat, hlt⟩ : Fin 4) = c := Fin.ext hval
    have hinvalid : (s.slot f).isInvalid ⟨(UInt8.ofNat c.val).toNat, hlt⟩ = true := by
      rw [hcam, Slot.isInvalid_eq]
      exact (congrArg (fun p => hasCamera (p.getD {}).invalidMask c) hf).trans hc
    rw [mem_pendingImages, not_not]
    exact (h.slot f).rejected _ hlt hinvalid
  metadataSize := h.metadata
  orderNodup := h.history.nodup
  orderLength := h.history.length_le
  orderMem f := (h.history.mem_iff f).symm

end Assembler

/-- The storage of every reachable state is bounded and consistent. -/
theorem storage_bounded (calls : List Call) : (assembler.exec assembler.init calls).Stored :=
  (Assembler.inv_exec calls).stored

/-! ### Settled frames -/

/-- The chunk ends the last image its frame waits for. -/
def Slot.Finishes (t : Slot) (chunk : VideoChunkView) : Prop :=
  ∃ h : ¬ Assembler.InvalidChunk chunk,
    t.isInvalid (chunkCamera chunk h) = false ∧ t.Continues chunk ∧
      ¬ ((t.opened chunk).append chunk).received < chunk.encodedSize ∧
      t.isReady (chunkCamera chunk h) = false ∧ (t.stored chunk (chunkCamera chunk h) 0).Ready

namespace Assembler

variable {s : Assembler}

end Assembler

namespace Assembler

variable {s : Assembler}

end Assembler

end PrismSdk.Camera
