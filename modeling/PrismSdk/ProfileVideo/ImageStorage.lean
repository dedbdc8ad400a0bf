import PrismSdk.ProfileVideo.ImageAssembler

/-! What the image assembler holds between calls. A slot is empty or holds a part of one
image within the size limit, and whichever of its checks makes a call throw, the chunk's
own slot is left empty and the others as they were. -/

namespace PrismSdk.ProfileVideo

namespace ImageSlot

/-- The slot holds some bytes of an image, and not all of them. -/
structure Part (s : ImageSlot) : Prop where
  active : s.active = true
  pos : 0 < s.received.toNat
  received : s.received.toNat = s.image.encoded.length
  short : s.received.toNat < s.total.toNat
  limit : s.total.toNat ≤ kProfileImageLimit

/-- The slot is empty or holds a part of an image. -/
def Clean (s : ImageSlot) : Prop := s = {} ∨ s.Part

/-- What a call leaves of the slot, by what it ends with. -/
def Leaves : ImageSlot × Except String (Option ProfileImage) → Prop
  | (s, .error _) => s = {}
  | (s, .ok (some _)) => s = {}
  | (s, .ok none) => s.Part

theorem Leaves.clean {result : ImageSlot × Except String (Option ProfileImage)}
    (h : Leaves result) : result.1.Clean := by
  obtain ⟨s, _ | _ | _⟩ := result
  · exact Or.inl h
  · exact Or.inr h
  · exact Or.inl h

/-- A chunk of legal size is counted as it is stored. -/
theorem leaves_append {s : ImageSlot} {c : VideoChunkView} (hv : ¬ InvalidEnvelope c)
    (hs : s.received.toNat = s.image.encoded.length) : Leaves (s.append c) := by
  obtain ⟨hpos, hlen, hend⟩ := size_of_valid hv
  have hlimit : c.encodedSize.toNat ≤ kProfileImageLimit := by
    by_contra hover
    exact hv (by simp [InvalidEnvelope, not_le.1 hover])
  unfold append
  by_cases hd : s.Discontinuous c
  · rw [if_pos hd]
    rfl
  rw [if_neg hd]
  simp only [Discontinuous, not_or, not_not] at hd
  obtain ⟨hactive, htotal, hoffset, -⟩ := hd
  have hbound := c.encodedSize.toNat_lt
  have hoffset' := congrArg UInt32.toNat hoffset
  have hreceived : (s.received + c.chunkSize).toNat = c.chunkOffset.toNat + c.bytes.length := by
    rw [UInt32.toNat_add, hoffset', hlen]
    omega
  dsimp only
  split_ifs with hflag hall
  · rfl
  · refine ⟨Bool.eq_true_of_not_eq_false hactive, ?_, ?_, ?_, ?_⟩
    · show 0 < (s.received + c.chunkSize).toNat
      omega
    · show (s.received + c.chunkSize).toNat =
        (s.image.encoded ++ c.bytes.take c.chunkSize.toNat).length
      rw [hreceived, List.length_append, List.take_of_length_le hlen.le]
      omega
    · have hne : (s.received + c.chunkSize).toNat ≠ s.total.toNat :=
        fun heq => hall (UInt32.toNat_inj.1 heq)
      show (s.received + c.chunkSize).toNat < s.total.toNat
      rw [htotal] at hne ⊢
      omega
    · show s.total.toNat ≤ kProfileImageLimit
      rw [htotal]
      exact hlimit
  · rfl

/-- Every call leaves the slot empty, but one that keeps a chunk and waits for more. -/
theorem leaves_ingest {s : ImageSlot} (h : s.Clean) (c : VideoChunkView) : Leaves (s.ingest c) := by
  have hs : s.received.toNat = s.image.encoded.length := by
    rcases h with rfl | hpart
    · rfl
    · exact hpart.received
  unfold ingest
  by_cases hv : InvalidEnvelope c
  · rw [if_pos hv]
    rfl
  rw [if_neg hv]
  split_ifs with hfirst hzero
  · rfl
  · exact leaves_append hv rfl
  · exact leaves_append hv hs

end ImageSlot

theorem clean_exec (chunks : List VideoChunkView) : (imageSlot.exec {} chunks).Clean :=
  imageSlot.exec_invariant (I := ImageSlot.Clean)
    (fun _ c h => (ImageSlot.leaves_ingest h c).clean) (Or.inl rfl) chunks

/-- The other slots are as they were. -/
theorem slots_of_ne (a : ProfileImageAssembler) {c : VideoChunkView} {i : Fin 4}
    (h : c.cameraId.toNat ≠ i.val) : (a.ingest c).1.slots i = a.slots i := by
  unfold ProfileImageAssembler.ingest
  split_ifs with hlt
  · exact Function.update_of_ne (fun heq => h (congrArg Fin.val heq).symm) _ _
  · rfl

/-- The chunk's own slot and the result are those of the slot's part of the call. -/
theorem ingest_of_eq (a : ProfileImageAssembler) {c : VideoChunkView} {i : Fin 4}
    (h : c.cameraId.toNat = i.val) :
    ((a.ingest c).1.slots i, (a.ingest c).2) = (a.slots i).ingest c := by
  have hi : (⟨c.cameraId.toNat, h ▸ i.isLt⟩ : Fin 4) = i := Fin.ext h
  unfold ProfileImageAssembler.ingest
  rw [dif_pos (h ▸ i.isLt)]
  dsimp only
  rw [hi, Function.update_self]

/-- The assembler fails clean and stays bounded. After any calls each slot is empty or
holds a part of an image of at most 25 MiB. A call that throws leaves the chunk's own slot
empty and the others unchanged, and a chunk of no camera changes nothing; a call that
returns an image leaves its slot empty. -/
theorem ingest_fails_clean (calls : List VideoChunkView) (c : VideoChunkView) :
    (∀ i, ((imageAssembler.exec imageAssembler.init calls).slots i).Clean) ∧
      (∀ what,
        (imageAssembler.step (imageAssembler.exec imageAssembler.init calls) c).2 = .error what →
          ∀ i : Fin 4,
            (imageAssembler.step (imageAssembler.exec imageAssembler.init calls) c).1.slots i =
              if c.cameraId.toNat = i.val then {}
              else (imageAssembler.exec imageAssembler.init calls).slots i) ∧
      (4 ≤ c.cameraId.toNat →
        imageAssembler.step (imageAssembler.exec imageAssembler.init calls) c =
          (imageAssembler.exec imageAssembler.init calls, .error "invalid camera ID")) ∧
      ∀ image,
        (imageAssembler.step (imageAssembler.exec imageAssembler.init calls) c).2 =
            .ok (some image) →
          ∀ i : Fin 4, c.cameraId.toNat = i.val →
            (imageAssembler.step (imageAssembler.exec imageAssembler.init calls) c).1.slots i =
              {} := by
  have hclean : ∀ i, ((imageAssembler.exec imageAssembler.init calls).slots i).Clean := by
    intro i
    rw [exec_slots]
    exact clean_exec _
  have hleaves : ∀ i : Fin 4, c.cameraId.toNat = i.val → ImageSlot.Leaves
      ((imageAssembler.step (imageAssembler.exec imageAssembler.init calls) c).1.slots i,
        (imageAssembler.step (imageAssembler.exec imageAssembler.init calls) c).2) := by
    intro i hi
    have hslot := ingest_of_eq (imageAssembler.exec imageAssembler.init calls) hi
    change ImageSlot.Leaves (((imageAssembler.exec imageAssembler.init calls).ingest c).1.slots i,
      ((imageAssembler.exec imageAssembler.init calls).ingest c).2)
    rw [hslot]
    exact ImageSlot.leaves_ingest (hclean i) c
  refine ⟨hclean, fun what hwhat i => ?_, fun hcamera => ?_, fun image himage i hi => ?_⟩
  · split_ifs with hi
    · have hempty := hleaves i hi
      rw [hwhat] at hempty
      exact hempty
    · exact slots_of_ne _ hi
  · change ProfileImageAssembler.ingest _ c = _
    unfold ProfileImageAssembler.ingest
    rw [dif_neg (not_lt.2 hcamera)]
  · have hempty := hleaves i hi
    rw [himage] at hempty
    exact hempty

end PrismSdk.ProfileVideo
