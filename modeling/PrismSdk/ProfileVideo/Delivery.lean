import PrismSdk.ProfileVideo.ImageAssembler
import PrismSdk.ProfileVideo.Extension

/-! Images on the way to the assembler. The sender cuts every image into chunks, and the
link may lose any of them and mix those of the cameras. -/

namespace PrismSdk.ProfileVideo

open Library.Reassembly (payload Contiguous ContiguousFrom)
open RiceBlock (image)
open Library (Checked)

/-! ### Cutting an image -/

/-- A chunk of an image. -/
def chunkOf (image : ProfileImage) (offset : ℕ) (piece : List UInt8) (last : Bool) :
    VideoChunkView where
  cameraId := image.camera
  format := image.format
  flags := kIndependentImage ||| (if offset = 0 then 1 else 0) ||| (if last then 2 else 0)
  width := image.width
  height := image.height
  frameId := image.frameId
  encodedSize := UInt32.ofNat image.encoded.length
  chunkOffset := UInt32.ofNat offset
  chunkSize := UInt32.ofNat piece.length
  timestampUs := image.timestampUs
  data := some piece

/-- The chunks of an image from an offset on. -/
def chunksFrom (image : ProfileImage) : ℕ → List (List UInt8) → List VideoChunkView
  | _, [] => []
  | offset, piece :: pieces =>
    chunkOf image offset piece pieces.isEmpty :: chunksFrom image (offset + piece.length) pieces

/-- An image that is sent, and how it is cut. -/
structure Sent where
  image : ProfileImage
  first : List UInt8
  rest : List (List UInt8)
  joined : (first :: rest).flatten = image.encoded
  nonempty : ∀ piece ∈ first :: rest, piece ≠ []
  limit : image.encoded.length ≤ kProfileImageLimit
  geometry : LegalGeometry { format := image.format, width := image.width, height := image.height }

/-- The chunks that are sent. -/
def Sent.chunks (s : Sent) : List VideoChunkView := chunksFrom s.image 0 (s.first :: s.rest)

section Chunks

variable (image : ProfileImage) (offset : ℕ) (piece : List UInt8) (last : Bool)

theorem isFirst_chunkOf : isFirst (chunkOf image offset piece last) = decide (offset = 0) := by
  by_cases h : offset = 0 <;> cases last <;> simp [isFirst, chunkOf, h] <;> decide

theorem isLast_chunkOf : isLast (chunkOf image offset piece last) = last := by
  by_cases h : offset = 0 <;> cases last <;> simp [isLast, chunkOf, h] <;> decide

theorem legal_flags_chunkOf : (chunkOf image offset piece last).flags &&& kIndependentImage ≠ 0 ∧
    (chunkOf image offset piece last).flags &&& ~~~7 = 0 := by
  by_cases h : offset = 0 <;> cases last <;> simp [chunkOf, h] <;> decide

@[simp] theorem bytes_chunkOf : (chunkOf image offset piece last).bytes = piece := rfl

end Chunks

@[simp] theorem payload_chunksFrom (image : ProfileImage) (offset : ℕ) (pieces : List (List UInt8)) :
    payload VideoChunkView.bytes (chunksFrom image offset pieces) = pieces.flatten := by
  induction pieces generalizing offset with
  | nil => rfl
  | cons piece pieces ih => simp [chunksFrom, ih]

/-- Every chunk is cut out of the image. -/
theorem mem_chunksFrom {image : ProfileImage} {offset : ℕ} {pieces : List (List UInt8)}
    {c : VideoChunkView} (h : c ∈ chunksFrom image offset pieces) :
    ∃ n piece last, c = chunkOf image n piece last ∧ piece ∈ pieces ∧ offset ≤ n ∧
      n + piece.length ≤ offset + pieces.flatten.length := by
  induction pieces generalizing offset with
  | nil => exact absurd h List.not_mem_nil
  | cons piece pieces ih =>
    rw [List.flatten_cons, List.length_append]
    rcases List.mem_cons.1 h with rfl | h
    · exact ⟨offset, piece, pieces.isEmpty, rfl, List.mem_cons_self, le_rfl, by omega⟩
    · obtain ⟨n, p, last, hc, hp, hle, hend⟩ := ih h
      exact ⟨n, p, last, hc, List.mem_cons_of_mem piece hp, by omega, by omega⟩

theorem contiguousFrom_chunksFrom (image : ProfileImage) {offset : ℕ} {pieces : List (List UInt8)}
    (h : offset + pieces.flatten.length < 2 ^ 32) :
    ContiguousFrom (·.chunkOffset.toNat) VideoChunkView.bytes offset
      (chunksFrom image offset pieces) := by
  induction pieces generalizing offset with
  | nil => trivial
  | cons piece pieces ih =>
    rw [List.flatten_cons, List.length_append] at h
    have hoffset : (UInt32.ofNat offset).toNat = offset := by
      rw [UInt32.toNat_ofNat']
      omega
    have hrest := ih (show offset + piece.length + pieces.flatten.length < 2 ^ 32 by omega)
    exact ⟨hoffset, hrest⟩

/-- Only the last chunk says so. -/
theorem isLast_chunksFrom (image : ProfileImage) (offset : ℕ) (pieces : List (List UInt8)) :
    (∀ c ∈ (chunksFrom image offset pieces).dropLast, isLast c = false) ∧
      ∀ c ∈ (chunksFrom image offset pieces).getLast?, isLast c = true := by
  induction pieces generalizing offset with
  | nil => simp [chunksFrom]
  | cons piece pieces ih =>
    cases pieces with
    | nil => simp [chunksFrom, isLast_chunkOf]
    | cons next pieces =>
      obtain ⟨hbefore, hlast⟩ := ih (offset + piece.length)
      rw [chunksFrom, chunksFrom, List.dropLast_cons_cons, List.getLast?_cons_cons]
      rw [chunksFrom] at hbefore hlast
      refine ⟨?_, hlast⟩
      rw [List.forall_mem_cons]
      exact ⟨isLast_chunkOf _ _ _ _, hbefore⟩

namespace Sent

variable (s : Sent)

theorem valid {n : ℕ} {piece : List UInt8} {last : Bool} (hpiece : piece ∈ s.first :: s.rest)
    (hend : n + piece.length ≤ s.image.encoded.length) :
    ¬ InvalidEnvelope (chunkOf s.image n piece last) := by
  have hlimit := s.limit
  have hpos := List.length_pos_of_ne_nil (s.nonempty piece hpiece)
  obtain ⟨hindependent, hflags⟩ := legal_flags_chunkOf s.image n piece last
  rw [kProfileImageLimit] at hlimit
  have hsize : ∀ m ≤ s.image.encoded.length, (UInt32.ofNat m).toNat = m := by
    intro m hm
    rw [UInt32.toNat_ofNat']
    omega
  have hne : ∀ m, 0 < m → m ≤ s.image.encoded.length → UInt32.ofNat m ≠ 0 := by
    intro m hm hle h
    have := congrArg UInt32.toNat h
    rw [hsize m hle] at this
    exact hm.ne' this
  have hoffset : UInt32.ofNat n ≤ UInt32.ofNat s.image.encoded.length := by
    rw [UInt32.le_iff_toNat_le, hsize n (by omega), hsize _ le_rfl]
    omega
  simp only [InvalidEnvelope, not_or, not_not]
  refine ⟨hindependent, hflags, s.geometry, hne _ (by omega) le_rfl, ?_, Option.some_ne_none _,
    hne _ hpos (by omega), ?_, UInt32.not_lt.2 hoffset, UInt32.not_lt.2 ?_⟩
  · show ¬ (UInt32.ofNat s.image.encoded.length).toNat > kProfileImageLimit
    rw [hsize _ le_rfl]
    exact Nat.not_lt.2 s.limit
  · show piece.length = (UInt32.ofNat piece.length).toNat
    rw [hsize _ (by omega)]
  · show UInt32.ofNat piece.length ≤ UInt32.ofNat s.image.encoded.length - UInt32.ofNat n
    rw [UInt32.le_iff_toNat_le, UInt32.toNat_sub_of_le _ _ hoffset, hsize n (by omega),
      hsize _ le_rfl, hsize _ (by omega)]
    omega

theorem chunks_eq : s.chunks = chunkOf s.image 0 s.first s.rest.isEmpty ::
    chunksFrom s.image s.first.length s.rest := by
  rw [chunks, chunksFrom, Nat.zero_add]

theorem payload_chunks : payload VideoChunkView.bytes s.chunks = s.image.encoded := by
  rw [chunks, payload_chunksFrom, s.joined]

theorem mem_chunks {c : VideoChunkView} (h : c ∈ s.chunks) : ∃ n piece last,
    c = chunkOf s.image n piece last ∧ piece ∈ s.first :: s.rest ∧
      n + piece.length ≤ s.image.encoded.length := by
  obtain ⟨n, piece, last, hc, hpiece, -, hend⟩ := mem_chunksFrom h
  rw [Nat.zero_add, s.joined] at hend
  exact ⟨n, piece, last, hc, hpiece, hend⟩

/-- What is sent is a whole image. -/
theorem whole : Whole (chunkOf s.image 0 s.first s.rest.isEmpty)
    (chunksFrom s.image s.first.length s.rest) := by
  have hlimit := s.limit
  rw [kProfileImageLimit] at hlimit
  have hpos := List.length_pos_of_ne_nil (s.nonempty s.first List.mem_cons_self)
  have hlast := isLast_chunksFrom s.image 0 (s.first :: s.rest)
  have hcontiguous := contiguousFrom_chunksFrom s.image
    (show 0 + (s.first :: s.rest).flatten.length < 2 ^ 32 by rw [s.joined]; omega)
  have hrest : ∀ c ∈ chunksFrom s.image s.first.length s.rest, ∃ n piece last,
      c = chunkOf s.image n piece last ∧ 0 < n := by
    intro c hc
    obtain ⟨n, piece, last, rfl, -, hn, -⟩ := mem_chunksFrom hc
    exact ⟨n, piece, last, rfl, hpos.trans_le hn⟩
  have hchunks := s.chunks_eq
  rw [← chunks, hchunks] at hlast hcontiguous
  refine ⟨⟨fun c hc => ?_, isFirst_chunkOf _ _ _ _, fun c hc => ?_, fun c hc => ?_, hcontiguous⟩,
    hlast.1, hlast.2, ?_⟩
  · rw [← hchunks] at hc
    obtain ⟨n, piece, last, rfl, hpiece, hend⟩ := s.mem_chunks hc
    exact s.valid hpiece hend
  · obtain ⟨n, piece, last, rfl, hn⟩ := hrest c hc
    rw [isFirst_chunkOf]
    exact decide_eq_false hn.ne'
  · obtain ⟨n, piece, last, rfl, hn⟩ := hrest c hc
    exact ⟨rfl, rfl, rfl, rfl, rfl, rfl⟩
  · rw [← hchunks, payload_chunks]
    show _ = (UInt32.ofNat s.image.encoded.length).toNat
    rw [UInt32.toNat_ofNat']
    omega

theorem imageOf_chunks :
    imageOf (chunkOf s.image 0 s.first s.rest.isEmpty) s.chunks = s.image := by
  rw [imageOf, payload_chunks]
  rfl

end Sent

/-! ### What the assembler returns -/

/-- The image that a call on a chunk of the camera returns. -/
def returnedOn (i : Fin 4) (a : ProfileImageAssembler) (c : VideoChunkView) :
    Option ProfileImage :=
  if c.cameraId.toNat = i.val then (a.ingest c).2.toOption.join else none

/-- The images of a camera in a run, in order. -/
def returned (i : Fin 4) (calls : List VideoChunkView) : List ProfileImage :=
  imageAssembler.gather (returnedOn i) imageAssembler.init calls

/-- The image that a call on a slot returns. -/
def ImageSlot.returnedOn (s : ImageSlot) (c : VideoChunkView) : Option ProfileImage :=
  (s.ingest c).2.toOption.join

theorem returned_eq (i : Fin 4) (calls : List VideoChunkView) :
    returned i calls =
      imageSlot.gather ImageSlot.returnedOn imageSlot.init (ofCamera i calls) := by
  induction calls using List.reverseRecOn with
  | nil => rfl
  | append_singleton calls c ih =>
    have hslot := exec_slots calls imageAssembler.init i
    have hcalls : ofCamera i (calls ++ [c]) =
        ofCamera i calls ++ if c.cameraId.toNat = i.val then [c] else [] := by
      by_cases hc : c.cameraId.toNat = i.val <;> simp [ofCamera, hc]
    rw [returned] at ih ⊢
    rw [Library.System.gather_append, ih, hcalls, Library.System.gather_append]
    congr 1
    by_cases hc : c.cameraId.toNat = i.val
    · have hi : (⟨c.cameraId.toNat, hc ▸ i.isLt⟩ : Fin 4) = i := Fin.ext hc
      have hstep : returnedOn i (imageAssembler.exec imageAssembler.init calls) c =
          ImageSlot.returnedOn (imageSlot.exec imageSlot.init (ofCamera i calls)) c := by
        rw [returnedOn, if_pos hc, ProfileImageAssembler.ingest, dif_pos (hc ▸ i.isLt)]
        dsimp only
        rw [hi, hslot]
        rfl
      rw [if_pos hc, Library.System.gather, Library.System.gather, hstep]
      rfl
    · have hnone : returnedOn i (imageAssembler.exec imageAssembler.init calls) c = none :=
        if_neg hc
      rw [if_neg hc]
      simp only [Library.System.gather, hnone, Option.toList_none, List.append_nil]

/-- A slot returns an image when the chunks end with a whole one. -/
theorem returnedOn_eq_some (history : List VideoChunkView) (c : VideoChunkView)
    (image : ProfileImage) :
    ImageSlot.returnedOn (imageSlot.exec imageSlot.init history) c = some image ↔
      ∃ first rest, first :: rest <:+ history ++ [c] ∧ Whole first rest ∧
        image = imageOf first (first :: rest) := by
  have hsome : ImageSlot.returnedOn (imageSlot.exec imageSlot.init history) c = some image ↔
      ((imageSlot.exec imageSlot.init history).ingest c).2 = .ok (some image) := by
    rw [ImageSlot.returnedOn]
    cases ((imageSlot.exec imageSlot.init history).ingest c).2 with
    | error what => exact ⟨nofun, nofun⟩
    | ok result => cases result <;> simp [Except.toOption]
  rw [hsome]
  constructor
  · exact fun h => ((traced_exec history).ingest c).2 image h
  · rintro ⟨first, rest, ⟨before, hbefore⟩, hwhole, rfl⟩
    obtain ⟨chunks, last, hrest⟩ := (List.eq_nil_or_concat (first :: rest)).resolve_left
      (List.cons_ne_nil _ _)
    rw [List.concat_eq_append] at hrest
    rw [hrest, ← List.append_assoc] at hbefore
    obtain ⟨rfl, hlast⟩ := List.append_inj' hbefore rfl
    obtain rfl := List.head_eq_of_cons_eq hlast
    rw [Library.System.exec_append]
    exact returns_of_whole hwhole hrest _

/-- A suffix that shares nothing with the first part lies in the second. -/
theorem suffix_of_append {α : Type*} {xs ys zs : List α} (h : xs <:+ ys ++ zs)
    (hys : ∀ x ∈ xs, x ∉ ys) : xs <:+ zs := by
  rcases List.suffix_or_suffix_of_suffix h (List.suffix_append ys zs) with h' | ⟨front, rfl⟩
  · exact h'
  · have hfront : front = [] := by
      refine List.eq_nil_iff_forall_not_mem.2 fun x hx => ?_
      have hin : front <:+ ys := ((List.suffix_append_inj_of_length_eq rfl).1 h).1
      exact hys x (List.mem_append_left zs hx) (hin.subset hx)
    rw [hfront, List.nil_append]

/-- What the images of a camera are told apart by. -/
def stampOf (c : VideoChunkView) : UInt32 × UInt64 := (c.frameId, c.timestampUs)

def Sent.stamp (s : Sent) : UInt32 × UInt64 := (s.image.frameId, s.image.timestampUs)

theorem Sent.stampOf_chunks {s : Sent} {c : VideoChunkView} (h : c ∈ s.chunks) :
    stampOf c = s.stamp := by
  obtain ⟨n, piece, last, rfl, -⟩ := s.mem_chunks h
  rfl

namespace Sent

variable {s : Sent} {history : List VideoChunkView}

/-- The chunks of one image among which some may be missing: only the last of all of them
returns the image. -/
theorem returnedOn_iff (hother : ∀ d ∈ history, stampOf d ≠ s.stamp) {before : List VideoChunkView}
    {c : VideoChunkView} (h : (before ++ [c]).Sublist s.chunks) (image : ProfileImage) :
    ImageSlot.returnedOn (imageSlot.exec imageSlot.init (history ++ before)) c = some image ↔
      before ++ [c] = s.chunks ∧ image = s.image := by
  have hc : c ∈ s.chunks := h.subset (by simp)
  rw [returnedOn_eq_some, List.append_assoc]
  constructor
  · rintro ⟨first, rest, hsuffix, hwhole, rfl⟩
    have hlast : c ∈ first :: rest := by
      obtain ⟨chunks, last, hrest⟩ := (List.eq_nil_or_concat (first :: rest)).resolve_left
        (List.cons_ne_nil _ _)
      rw [List.concat_eq_append] at hrest
      obtain ⟨pre, hpre⟩ := hsuffix
      rw [hrest, ← List.append_assoc, ← List.append_assoc] at hpre
      rw [hrest, ← List.head_eq_of_cons_eq (List.append_inj' hpre rfl).2]
      simp
    have hheader : ∀ d ∈ first :: rest, SameHeader first d := by
      rw [List.forall_mem_cons]
      exact ⟨sameHeader_self first, hwhole.header⟩
    have hstamp : ∀ d ∈ first :: rest, stampOf d = s.stamp := by
      intro d hd
      obtain ⟨-, hframe, -, -, htime, -⟩ := hheader d hd
      obtain ⟨-, hframe', -, -, htime', -⟩ := hheader c hlast
      rw [← stampOf_chunks hc, stampOf, stampOf, hframe, hframe', htime, htime']
    have hinside : first :: rest <:+ before ++ [c] :=
      suffix_of_append hsuffix fun d hd hmem => hother d hmem (hstamp d hd)
    have hsub : (first :: rest).Sublist s.chunks := hinside.sublist.trans h
    have hall : first :: rest = s.chunks := by
      have hlength : (payload VideoChunkView.bytes (first :: rest)).length =
          (payload VideoChunkView.bytes s.chunks).length := by
        obtain ⟨n, piece, last, rfl, -⟩ := s.mem_chunks hc
        have hlimit := s.limit
        rw [kProfileImageLimit] at hlimit
        rw [hwhole.complete, s.payload_chunks, ← (hheader _ hlast).2.2.2.2.2]
        show (UInt32.ofNat s.image.encoded.length).toNat = _
        rw [UInt32.toNat_ofNat']
        omega
      refine Library.Reassembly.eq_of_sublist hsub (fun d hd => ?_) hlength
      obtain ⟨n, piece, last, rfl, hpiece, -⟩ := s.mem_chunks hd
      exact s.nonempty piece hpiece
    have hsame : before ++ [c] = s.chunks := by
      refine h.eq_of_length (le_antisymm h.length_le ?_)
      rw [← hall]
      exact hinside.sublist.length_le
    refine ⟨hsame, ?_⟩
    have hfirst : first = chunkOf s.image 0 s.first s.rest.isEmpty := by
      rw [s.chunks_eq] at hall
      exact (List.cons.inj hall).1
    rw [hall, hfirst, s.imageOf_chunks]
  · rintro ⟨hsame, rfl⟩
    rw [hsame]
    refine ⟨_, _, ?_, s.whole, ?_⟩
    · rw [← s.chunks_eq]
      exact List.suffix_append history s.chunks
    · rw [← s.chunks_eq, s.imageOf_chunks]

/-- One image after others. -/
theorem gather_arrived (hother : ∀ d ∈ history, stampOf d ≠ s.stamp)
    {arrived : List VideoChunkView} (h : arrived.Sublist s.chunks) :
    imageSlot.gather ImageSlot.returnedOn (imageSlot.exec imageSlot.init history) arrived =
      if arrived = s.chunks then [s.image] else [] := by
  induction arrived using List.reverseRecOn with
  | nil => rw [if_neg (by rw [s.chunks_eq]; exact List.cons_ne_nil _ _ ∘ Eq.symm)]; rfl
  | append_singleton before c ih =>
    have hbefore : before.Sublist s.chunks := (List.sublist_append_left before [c]).trans h
    have hmissing : before ≠ s.chunks := by
      rintro rfl
      have := h.length_le
      rw [List.length_append, List.length_singleton] at this
      omega
    have hlast := returnedOn_iff hother h
    rw [Library.System.gather_append, ih hbefore, if_neg hmissing, List.nil_append,
      ← Library.System.exec_append, Library.System.gather, Library.System.gather, List.append_nil]
    by_cases hsame : before ++ [c] = s.chunks
    · rw [if_pos hsame, (hlast s.image).2 ⟨hsame, rfl⟩]
      rfl
    · rw [if_neg hsame, Option.eq_none_iff_forall_ne_some.2 fun image himage =>
        hsame ((hlast image).1 himage).1]
      rfl

end Sent

/-- An image of a camera and the chunks of it that arrived. -/
structure Arrival where
  sent : Sent
  arrived : List VideoChunkView
  lost : arrived.Sublist sent.chunks

/-- The images of which no chunk was lost. -/
def complete (arrivals : List Arrival) : List Sent :=
  (arrivals.filter fun a => a.arrived = a.sent.chunks).map Arrival.sent

/-- A camera's images come out whole, in order and as they were sent, and those that lost a
chunk do not come out. -/
theorem returned_arrivals (i : Fin 4) {arrivals : List Arrival}
    (hstamps : (arrivals.map (·.sent.stamp)).Nodup) {calls : List VideoChunkView}
    (hcalls : ofCamera i calls = arrivals.flatMap Arrival.arrived) :
    returned i calls = (complete arrivals).map Sent.image := by
  rw [returned_eq, hcalls]
  clear hcalls
  induction arrivals using List.reverseRecOn with
  | nil => rfl
  | append_singleton arrivals a ih =>
    rw [List.map_append, List.map_singleton, List.nodup_append'] at hstamps
    obtain ⟨hbefore, -, hdisjoint⟩ := hstamps
    have hother : ∀ d ∈ arrivals.flatMap Arrival.arrived, stampOf d ≠ a.sent.stamp := by
      intro d hd hsame
      obtain ⟨b, hb, hd⟩ := List.mem_flatMap.1 hd
      rw [Sent.stampOf_chunks (b.lost.subset hd)] at hsame
      exact hdisjoint (List.mem_map_of_mem hb) (by rw [hsame]; exact List.mem_singleton_self _)
    rw [List.flatMap_append, Library.System.gather_append, ih hbefore, complete, complete,
      List.filter_append, List.map_append, List.map_append]
    congr 1
    rw [List.flatMap_singleton, Sent.gather_arrived hother a.lost]
    by_cases h : a.arrived = a.sent.chunks <;> simp [h]

/-! ### Pixels -/

/-- All the pixels of an image, read one by one. -/
def readPixels (z : Zstd) (image : ProfileImage) : Checked (List ℕ) := do
  let r ← decodeRaw12 z image.encoded image.format
  (List.range pixels).mapM fun n => do
    let pixel ← raw12Pixel r n
    return pixel.toNat

theorem mapM_range {samples : List ℕ} {f : ℕ → Checked ℕ}
    (h : ∀ (n : ℕ) (hn : n < samples.length), f n = .ok samples[n]) {k : ℕ}
    (hk : k ≤ samples.length) : (List.range k).mapM f = .ok (samples.take k) := by
  induction k with
  | zero => rfl
  | succ k ih =>
    rw [List.range_succ, List.mapM_append, ih (by omega), List.take_add_one,
      List.getElem?_eq_getElem (show k < samples.length by omega)]
    simp [h k (by omega)]

/-- The pixels read are the samples that were encoded. -/
theorem readPixels_envelope (z : Zstd) {sent : ProfileImage} {blocks : List RiceBlock}
    (hformat : sent.format = kRaw12Rice) (h : RiceEnvelope sent.encoded blocks) :
    readPixels z sent = .ok (image blocks) := by
  have hdecode := (decodeRaw12Rice_iff sent.encoded _).2 ⟨blocks, h, rfl⟩
  have hpixels : (image blocks).length = pixels := by
    rw [RiceBlock.length_image, h.count]
    decide
  have heven : (image blocks).length % 2 = 0 := by
    rw [hpixels]
    decide
  have hunpack := unpack_packSamples heven (RiceBlock.image_le blocks)
  have hthree : (packSamples (image blocks)).length % 3 = 0 := by
    rw [length_packSamples]
    omega
  have hread : ∀ (n : ℕ) (hn : n < (image blocks).length), (do
      let pixel ← raw12Pixel (raw12ImageOf sent.encoded (headerTrigger sent.encoded)
        (packSamples (image blocks))) n
      return pixel.toNat) = Except.ok (image blocks)[n] := by
    intro n hn
    obtain ⟨pixel, hpixel, hvalue⟩ := exists_raw12Pixel
      (raw12ImageOf sent.encoded (headerTrigger sent.encoded) (packSamples (image blocks))) hthree
      (show n < (unpack (packSamples (image blocks))).length by rwa [hunpack])
    rw [hpixel]
    simp only [raw12ImageOf, hunpack] at hvalue
    rw [← hvalue]
    rfl
  rw [readPixels, (decodeRaw12_iff z sent.encoded _ _).2 (.inr ⟨.inr hformat, hdecode⟩)]
  rw [Library.Checked.ok_bind, ← hpixels, mapM_range hread le_rfl, List.take_length]

/-- From the sender to the pixels. Whatever chunks the link loses and however it mixes the
cameras, those images of a camera come out that lost no chunk, in order and as they were
sent, provided that no two have the same frame and time; and the pixels read from them are
those that were encoded. -/
theorem images_delivered (z : Zstd) (i : Fin 4) (arrivals : List Arrival)
    (calls : List VideoChunkView) (hstamps : (arrivals.map (·.sent.stamp)).Nodup)
    (hcalls : ofCamera i calls = arrivals.flatMap Arrival.arrived) :
    returned i calls = (complete arrivals).map Sent.image ∧
      ∀ blocksOf : Sent → List RiceBlock,
        (∀ s ∈ complete arrivals, s.image.format = kRaw12Rice ∧
          RiceEnvelope s.image.encoded (blocksOf s)) →
        (returned i calls).map (readPixels z) =
          (complete arrivals).map fun s => .ok (image (blocksOf s)) := by
  have hreturned := returned_arrivals i hstamps hcalls
  refine ⟨hreturned, fun blocksOf h => ?_⟩
  rw [hreturned, List.map_map]
  refine List.map_congr_left fun s hs => ?_
  obtain ⟨hformat, henvelope⟩ := h s hs
  exact readPixels_envelope z hformat henvelope

/-- A three-byte image in two chunks. -/
def twoChunks (camera : UInt8) (frameId : UInt32) (first second third : UInt8) : Sent where
  image := { camera, format := 2, frameId, width := 1280, height := 1024
             encoded := [first, second, third] }
  first := [first, second]
  rest := [[third]]
  joined := rfl
  nonempty := by simp
  limit := show 3 ≤ kProfileImageLimit by decide
  geometry := show LegalGeometry { format := 2, width := 1280, height := 1024 } by decide

/-- The second image loses its first chunk, and another camera is in between. -/
theorem images_delivered_oneLost :
    returned 0 ((twoChunks 0 7 1 2 3).chunks ++ (twoChunks 1 7 9 9 9).chunks ++
        [chunkOf (twoChunks 0 8 4 5 6).image 2 [6] true] ++ (twoChunks 0 9 7 8 9).chunks) =
      [(twoChunks 0 7 1 2 3).image, (twoChunks 0 9 7 8 9).image] :=
  (images_delivered noZstd 0
    [⟨twoChunks 0 7 1 2 3, (twoChunks 0 7 1 2 3).chunks, .refl _⟩,
      ⟨twoChunks 0 8 4 5 6, [chunkOf (twoChunks 0 8 4 5 6).image 2 [6] true], .cons _ (.refl _)⟩,
      ⟨twoChunks 0 9 7 8 9, (twoChunks 0 9 7 8 9).chunks, .refl _⟩]
    _ (by decide) (by decide)).1

end PrismSdk.ProfileVideo
