import Mathlib.Algebra.Group.Nat.Defs
import Mathlib.Data.Fintype.Basic
import PrismSdk.Telemetry
import PrismSdk.Library.Reassembly
import PrismSdk.Library.Transition

/-! `ProfileImageAssembler` of `profile_video.hpp`: one bounded assembly for each
camera, with exceptions in the middle. A call returns an image exactly when the
camera's last chunks, from one with the first flag on, are a whole image. -/

namespace PrismSdk.ProfileVideo

open Library.Reassembly (payload Contiguous contiguous_snoc)

def kIndependentImage : UInt16 := 4
def kRaw12Zstd : UInt8 := 3
def kRaw12Rice : UInt8 := 4
def kProfileImageLimit : ℕ := 25 * 1024 * 1024

structure ProfileImage where
  camera : UInt8 := 0
  format : UInt8 := 0
  frameId : UInt32 := 0
  width : UInt32 := 0
  height : UInt32 := 0
  timestampUs : UInt64 := 0
  encoded : List UInt8 := []
  deriving DecidableEq

structure ImageSlot where
  image : ProfileImage := {}
  total : UInt32 := 0
  received : UInt32 := 0
  active : Bool := false
  deriving DecidableEq

structure ProfileImageAssembler where
  slots : Fin 4 → ImageSlot := fun _ => {}

/-- The format fixes the geometry. -/
def LegalGeometry (c : VideoChunkView) : Prop :=
  if c.format = kRaw12Zstd ∨ c.format = kRaw12Rice then c.width = 5120 ∧ c.height = 3072
  else c.format = 2 ∧ c.width = 1280 ∧ c.height = 1024

instance (c : VideoChunkView) : Decidable (LegalGeometry c) := by
  unfold LegalGeometry
  infer_instance

/-- The check that throws "invalid independent image envelope". -/
def InvalidEnvelope (c : VideoChunkView) : Prop :=
  c.flags &&& kIndependentImage = 0 ∨ c.flags &&& ~~~7 ≠ 0 ∨ ¬ LegalGeometry c ∨
    c.encodedSize = 0 ∨ c.encodedSize.toNat > kProfileImageLimit ∨ c.data = none ∨
    c.chunkSize = 0 ∨ c.dataSize ≠ c.chunkSize.toNat ∨ c.chunkOffset > c.encodedSize ∨
    c.chunkSize > c.encodedSize - c.chunkOffset

instance (c : VideoChunkView) : Decidable (InvalidEnvelope c) :=
  inferInstanceAs (Decidable (_ ∨ _))

def isFirst (c : VideoChunkView) : Bool := c.flags &&& 1 != 0

def isLast (c : VideoChunkView) : Bool := c.flags &&& 2 != 0

namespace ImageSlot

/-- The slot a first chunk starts. -/
def start (c : VideoChunkView) : ImageSlot where
  active := true
  total := c.encodedSize
  received := 0
  image :=
    { camera := c.cameraId, format := c.format, frameId := c.frameId, width := c.width
      height := c.height, timestampUs := c.timestampUs }

/-- The chunk does not follow what the slot holds. -/
def Discontinuous (s : ImageSlot) (c : VideoChunkView) : Prop :=
  s.active = false ∨ s.total ≠ c.encodedSize ∨ s.received ≠ c.chunkOffset ∨
    s.image.frameId ≠ c.frameId ∨ s.image.width ≠ c.width ∨ s.image.height ≠ c.height ∨
    s.image.format ≠ c.format ∨ s.image.timestampUs ≠ c.timestampUs

instance (s : ImageSlot) (c : VideoChunkView) : Decidable (s.Discontinuous c) :=
  inferInstanceAs (Decidable (_ ∨ _))

/-- The part of `ingest` after the first flag. -/
def append (s : ImageSlot) (c : VideoChunkView) :
    ImageSlot × Except String (Option ProfileImage) :=
  if s.Discontinuous c then ({}, .error "discontinuous independent image")
  else
    let s := { s with
      image := { s.image with encoded := s.image.encoded ++ c.bytes.take c.chunkSize.toNat }
      received := s.received + c.chunkSize }
    if isLast c ≠ decide (s.received = s.total) then ({}, .error "invalid last image flag")
    else if s.received ≠ s.total then (s, .ok none)
    else ({}, .ok (some s.image))

/-- The part of `ingest` on the slot of the chunk's camera. -/
def ingest (s : ImageSlot) (c : VideoChunkView) :
    ImageSlot × Except String (Option ProfileImage) :=
  if InvalidEnvelope c then ({}, .error "invalid independent image envelope")
  else if isFirst c = true then
    if c.chunkOffset ≠ 0 then ({}, .error "invalid first image offset") else (start c).append c
  else s.append c

end ImageSlot

namespace ProfileImageAssembler

def ingest (a : ProfileImageAssembler) (c : VideoChunkView) :
    ProfileImageAssembler × Except String (Option ProfileImage) :=
  if h : c.cameraId.toNat < 4 then
    let (s, result) := (a.slots ⟨c.cameraId.toNat, h⟩).ingest c
    ({ a with slots := Function.update a.slots ⟨c.cameraId.toNat, h⟩ s }, result)
  else (a, .error "invalid camera ID")

end ProfileImageAssembler

/-- The assembler as a transition system. -/
def imageAssembler :
    Library.System ProfileImageAssembler VideoChunkView (Except String (Option ProfileImage)) where
  init := {}
  step a c := a.ingest c

/-- One slot as a transition system. -/
def imageSlot : Library.System ImageSlot VideoChunkView (Except String (Option ProfileImage)) where
  init := {}
  step s c := s.ingest c

/-! ### Images as chunk sequences -/

/-- The header of the chunk is that of `first`. -/
def SameHeader (first c : VideoChunkView) : Prop :=
  c.format = first.format ∧ c.frameId = first.frameId ∧ c.width = first.width ∧
    c.height = first.height ∧ c.timestampUs = first.timestampUs ∧ c.encodedSize = first.encodedSize

/-- The chunks of an image so far: a first chunk, and others that follow it. -/
structure Follows (first : VideoChunkView) (rest : List VideoChunkView) : Prop where
  valid : ∀ c ∈ first :: rest, ¬ InvalidEnvelope c
  opens : isFirst first = true
  only : ∀ c ∈ rest, isFirst c = false
  header : ∀ c ∈ rest, SameHeader first c
  contiguous : Contiguous (·.chunkOffset.toNat) VideoChunkView.bytes (first :: rest)

/-- An image under way: no last flag yet, and bytes missing. -/
structure Underway (first : VideoChunkView) (rest : List VideoChunkView) : Prop
    extends Follows first rest where
  unfinished : ∀ c ∈ first :: rest, isLast c = false
  short : (payload VideoChunkView.bytes (first :: rest)).length < first.encodedSize.toNat

/-- A whole image: the last flag on the last chunk only, where the sizes add up. -/
structure Whole (first : VideoChunkView) (rest : List VideoChunkView) : Prop
    extends Follows first rest where
  unfinished : ∀ c ∈ (first :: rest).dropLast, isLast c = false
  last : ∀ c ∈ (first :: rest).getLast?, isLast c = true
  complete : (payload VideoChunkView.bytes (first :: rest)).length = first.encodedSize.toNat

/-- The image that chunks with the header of `first` carry. -/
def imageOf (first : VideoChunkView) (chunks : List VideoChunkView) : ProfileImage where
  camera := first.cameraId
  format := first.format
  frameId := first.frameId
  width := first.width
  height := first.height
  timestampUs := first.timestampUs
  encoded := payload VideoChunkView.bytes chunks

/-- The slot that received `chunks` of the image of `first`. -/
def slotOf (first : VideoChunkView) (chunks : List VideoChunkView) : ImageSlot where
  image := imageOf first chunks
  total := first.encodedSize
  received := UInt32.ofNat (payload VideoChunkView.bytes chunks).length
  active := true

/-- What the envelope check establishes about the bytes. -/
theorem size_of_valid {c : VideoChunkView} (h : ¬ InvalidEnvelope c) :
    0 < c.bytes.length ∧ c.bytes.length = c.chunkSize.toNat ∧
      c.chunkOffset.toNat + c.bytes.length ≤ c.encodedSize.toNat := by
  simp only [InvalidEnvelope, not_or, not_not, gt_iff_lt, UInt32.not_lt] at h
  obtain ⟨-, -, -, -, -, -, hne, hsize, hoff, hend⟩ := h
  rw [UInt32.le_iff_toNat_le, UInt32.toNat_sub_of_le _ _ hoff] at hend
  rw [UInt32.le_iff_toNat_le] at hoff
  have hlen : c.bytes.length = c.chunkSize.toNat := hsize
  have hpos : c.chunkSize.toNat ≠ 0 := fun h0 => hne (UInt32.toNat_inj.1 h0)
  omega

theorem not_discontinuous_slotOf {first c : VideoChunkView} {chunks : List VideoChunkView}
    (hlt : (payload VideoChunkView.bytes chunks).length < 2 ^ 32) :
    ¬ (slotOf first chunks).Discontinuous c ↔ SameHeader first c ∧
      c.chunkOffset.toNat = (payload VideoChunkView.bytes chunks).length := by
  have hoff : UInt32.ofNat (payload VideoChunkView.bytes chunks).length = c.chunkOffset ↔
      c.chunkOffset.toNat = (payload VideoChunkView.bytes chunks).length := by
    rw [← UInt32.toNat_inj, UInt32.toNat_ofNat', Nat.mod_eq_of_lt hlt, eq_comm]
  simp only [ImageSlot.Discontinuous, slotOf, imageOf, not_or, not_not, ne_eq, Bool.true_eq_false,
    not_false_eq_true, true_and, hoff, SameHeader]
  simp only [@eq_comm _ first.encodedSize, @eq_comm _ first.frameId, @eq_comm _ first.width,
    @eq_comm _ first.height, @eq_comm _ first.format, @eq_comm _ first.timestampUs]
  tauto

/-- A chunk that follows: the last flag decides between the whole image and more to
come, and must agree with the sizes. -/
theorem append_slotOf {first c : VideoChunkView} {chunks : List VideoChunkView}
    (hv : ¬ InvalidEnvelope c) (hsame : SameHeader first c)
    (hoff : c.chunkOffset.toNat = (payload VideoChunkView.bytes chunks).length) :
    (slotOf first chunks).append c =
      if (payload VideoChunkView.bytes (chunks ++ [c])).length = first.encodedSize.toNat then
        if isLast c = true then ({}, .ok (some (imageOf first (chunks ++ [c]))))
        else ({}, .error "invalid last image flag")
      else if isLast c = true then ({}, .error "invalid last image flag")
      else (slotOf first (chunks ++ [c]), .ok none) := by
  obtain ⟨hpos, hlen, hend⟩ := size_of_valid hv
  have hbound := c.encodedSize.toNat_lt
  have hpayload : payload VideoChunkView.bytes (chunks ++ [c]) =
      payload VideoChunkView.bytes chunks ++ c.bytes := by
    simp
  have hsum : UInt32.ofNat (payload VideoChunkView.bytes chunks).length + c.chunkSize =
      UInt32.ofNat (payload VideoChunkView.bytes (chunks ++ [c])).length := by
    rw [hpayload, List.length_append, UInt32.ofNat_add, hlen, UInt32.ofNat_toNat]
  have hall : UInt32.ofNat (payload VideoChunkView.bytes (chunks ++ [c])).length =
      first.encodedSize ↔
        (payload VideoChunkView.bytes (chunks ++ [c])).length = first.encodedSize.toNat := by
    rw [← UInt32.toNat_inj, UInt32.toNat_ofNat', Nat.mod_eq_of_lt]
    rw [hpayload, List.length_append]
    omega
  have htake : c.bytes.take c.chunkSize.toNat = c.bytes := List.take_of_length_le hlen.le
  have hnot := (not_discontinuous_slotOf (by omega)).2 ⟨hsame, hoff⟩
  have himage : { imageOf first chunks with
      encoded := (imageOf first chunks).encoded ++ c.bytes } = imageOf first (chunks ++ [c]) := by
    simp only [imageOf, hpayload]
  unfold ImageSlot.append
  rw [if_neg hnot]
  simp only [slotOf, htake, hsum, himage, hall]
  split_ifs <;> simp_all

theorem follows_nil {c : VideoChunkView} :
    Follows c [] ↔ ¬ InvalidEnvelope c ∧ isFirst c = true ∧ c.chunkOffset = 0 := by
  have hzero : c.chunkOffset.toNat = 0 ↔ c.chunkOffset = 0 := by
    rw [← UInt32.toNat_inj]
    rfl
  constructor
  · intro h
    exact ⟨h.valid c (by simp), h.opens, hzero.1 h.contiguous.1⟩
  · rintro ⟨hv, hf, h0⟩
    exact ⟨by simpa using hv, hf, by simp, by simp, hzero.2 h0, trivial⟩

theorem follows_snoc {first c : VideoChunkView} {rest : List VideoChunkView} :
    Follows first (rest ++ [c]) ↔ Follows first rest ∧ ¬ InvalidEnvelope c ∧ isFirst c = false ∧
      SameHeader first c ∧
      c.chunkOffset.toNat = (payload VideoChunkView.bytes (first :: rest)).length := by
  have hcontiguous := contiguous_snoc (·.chunkOffset.toNat) VideoChunkView.bytes (first :: rest) c
  rw [List.cons_append] at hcontiguous
  constructor
  · intro h
    have hmem : ∀ d ∈ first :: rest, d ∈ first :: (rest ++ [c]) := by
      intro d hd
      rw [← List.cons_append]
      exact List.mem_append_left _ hd
    exact ⟨⟨fun d hd => h.valid d (hmem d hd), h.opens,
      fun d hd => h.only d (List.mem_append_left _ hd),
      fun d hd => h.header d (List.mem_append_left _ hd), (hcontiguous.1 h.contiguous).1⟩,
      h.valid c (by simp), h.only c (by simp), h.header c (by simp),
      (hcontiguous.1 h.contiguous).2⟩
  · rintro ⟨h, hv, hf, hsame, hoff⟩
    refine ⟨?_, h.opens, ?_, ?_, hcontiguous.2 ⟨h.contiguous, hoff⟩⟩
    · rw [← List.cons_append]
      simpa only [List.forall_mem_append, List.forall_mem_singleton] using ⟨h.valid, hv⟩
    · simpa only [List.forall_mem_append, List.forall_mem_singleton] using ⟨h.only, hf⟩
    · simpa only [List.forall_mem_append, List.forall_mem_singleton] using ⟨h.header, hsame⟩

theorem sameHeader_self (c : VideoChunkView) : SameHeader c c := ⟨rfl, rfl, rfl, rfl, rfl, rfl⟩

/-- `chunks` is what the image of `first` had before `c`, and `s` is any slot when that
is nothing. -/
def Before (s : ImageSlot) (first : VideoChunkView) (chunks : List VideoChunkView)
    (c : VideoChunkView) : Prop :=
  chunks = [] ∧ first = c ∨ ∃ rest, chunks = first :: rest ∧ s = slotOf first chunks

/-- The chunk that ends a sequence is appended where the ones before it end. -/
theorem ingest_eq_append {s : ImageSlot} {first c : VideoChunkView} {rest chunks : List VideoChunkView}
    (h : Follows first rest) (hrest : first :: rest = chunks ++ [c]) (hs : Before s first chunks c) :
    s.ingest c = (slotOf first chunks).append c ∧ ¬ InvalidEnvelope c ∧ SameHeader first c ∧
      c.chunkOffset.toNat = (payload VideoChunkView.bytes chunks).length := by
  rcases hs with ⟨rfl, rfl⟩ | ⟨before, rfl, rfl⟩
  · obtain rfl : rest = [] := by simpa using hrest
    obtain ⟨hv, hf, h0⟩ := follows_nil.1 h
    refine ⟨?_, hv, sameHeader_self first, by rw [h0]; rfl⟩
    unfold ImageSlot.ingest
    rw [if_neg hv, if_pos hf, if_neg (not_not.2 h0)]
    rfl
  · obtain rfl : rest = before ++ [c] := by simpa using hrest
    obtain ⟨-, hv, hf, hsame, hoff⟩ := follows_snoc.1 h
    refine ⟨?_, hv, hsame, hoff⟩
    unfold ImageSlot.ingest
    rw [if_neg hv, if_neg (by rw [hf]; exact Bool.false_ne_true)]

/-- The next chunk of an image under way is kept. -/
theorem ingest_underway {s : ImageSlot} {first c : VideoChunkView} {rest chunks : List VideoChunkView}
    (h : Underway first rest) (hrest : first :: rest = chunks ++ [c]) (hs : Before s first chunks c) :
    s.ingest c = (slotOf first (first :: rest), .ok none) := by
  obtain ⟨happend, hv, hsame, hoff⟩ := ingest_eq_append h.toFollows hrest hs
  have hshort := h.short
  have hlast := h.unfinished c (by rw [hrest]; simp)
  rw [hrest] at hshort ⊢
  rw [happend, append_slotOf hv hsame hoff, if_neg hshort.ne, hlast, if_neg Bool.false_ne_true]

/-- The last chunk of a whole image returns it. -/
theorem ingest_whole {s : ImageSlot} {first c : VideoChunkView} {rest chunks : List VideoChunkView}
    (h : Whole first rest) (hrest : first :: rest = chunks ++ [c]) (hs : Before s first chunks c) :
    s.ingest c = ({}, .ok (some (imageOf first (first :: rest)))) := by
  obtain ⟨happend, hv, hsame, hoff⟩ := ingest_eq_append h.toFollows hrest hs
  have hcomplete := h.complete
  have hlast := h.last c (by rw [hrest]; simp)
  rw [hrest] at hcomplete ⊢
  rw [happend, append_slotOf hv hsame hoff, if_pos hcomplete, if_pos hlast]

theorem Follows.init {first c : VideoChunkView} {rest : List VideoChunkView}
    (h : Follows first (rest ++ [c])) : Follows first rest := (follows_snoc.1 h).1

/-- What came before the last chunk of a sequence is under way. -/
theorem underway_init {first c : VideoChunkView} {rest : List VideoChunkView}
    (h : Follows first (rest ++ [c])) (hlast : ∀ d ∈ first :: rest, isLast d = false)
    (hle : (payload VideoChunkView.bytes (first :: (rest ++ [c]))).length ≤
      first.encodedSize.toNat) : Underway first rest := by
  have hpos := (size_of_valid (h.valid c (by simp))).1
  rw [← List.cons_append, Library.Reassembly.payload_append, List.length_append] at hle
  simp only [Library.Reassembly.payload_cons, Library.Reassembly.payload_nil,
    List.append_nil] at hle
  refine ⟨h.init, hlast, ?_⟩
  simp only [Library.Reassembly.payload_cons]
  omega

/-- Whatever the slot held, the chunks of an image under way leave it holding them. -/
theorem exec_underway {first : VideoChunkView} {rest : List VideoChunkView} (h : Underway first rest)
    (s : ImageSlot) : imageSlot.exec s (first :: rest) = slotOf first (first :: rest) := by
  induction rest using List.reverseRecOn with
  | nil => exact congrArg Prod.fst (ingest_underway h rfl (Or.inl ⟨rfl, rfl⟩))
  | append_singleton rest c ih =>
    have hbefore := underway_init h.toFollows
      (fun d hd => h.unfinished d (by rw [← List.cons_append]; exact List.mem_append_left _ hd))
      h.short.le
    rw [← List.cons_append, Library.System.exec_snoc, ih hbefore]
    exact congrArg Prod.fst (ingest_underway h rfl (Or.inr ⟨rest, rfl, rfl⟩))

/-- The last chunk of a whole image returns it, whatever came before the first. -/
theorem returns_of_whole {first : VideoChunkView} {rest chunks : List VideoChunkView}
    {c : VideoChunkView} (h : Whole first rest) (hrest : first :: rest = chunks ++ [c])
    (s : ImageSlot) :
    ((imageSlot.exec s chunks).ingest c).2 = .ok (some (imageOf first (first :: rest))) := by
  cases chunks with
  | nil =>
    obtain ⟨rfl, -⟩ := List.cons.inj hrest
    exact congrArg Prod.snd (ingest_whole h hrest (Or.inl ⟨rfl, rfl⟩))
  | cons d before =>
    obtain ⟨rfl, hbefore⟩ := List.cons.inj hrest
    obtain rfl : rest = before ++ [c] := hbefore
    have hunfinished : ∀ d ∈ first :: before, isLast d = false := by
      have := h.unfinished
      rw [← List.cons_append, List.dropLast_concat] at this
      exact this
    rw [exec_underway (underway_init h.toFollows hunfinished h.complete.le) s]
    exact congrArg Prod.snd (ingest_whole h rfl (Or.inr ⟨before, rfl, rfl⟩))

/-- An active slot holds the end of its camera's chunks, an image under way. -/
def Traced (history : List VideoChunkView) (s : ImageSlot) : Prop :=
  s.active = true → ∃ first rest, first :: rest <:+ history ∧ Underway first rest ∧
    s = slotOf first (first :: rest)

/-- What a chunk appended to a sequence can do. -/
theorem append_outcome {first c : VideoChunkView} {rest chunks : List VideoChunkView}
    {history : List VideoChunkView} (h : Follows first rest) (hrest : first :: rest = chunks ++ [c])
    (hunfinished : ∀ d ∈ chunks, isLast d = false) (hsuffix : first :: rest <:+ history) :
    Traced history ((slotOf first chunks).append c).1 ∧
      ∀ image, ((slotOf first chunks).append c).2 = .ok (some image) →
        ∃ first rest, first :: rest <:+ history ∧ Whole first rest ∧
          image = imageOf first (first :: rest) := by
  have hs : Before (slotOf first chunks) first chunks c := by
    cases chunks with
    | nil => exact Or.inl ⟨rfl, (List.cons.inj hrest).1⟩
    | cons d before =>
      obtain ⟨rfl, -⟩ := List.cons.inj hrest
      exact Or.inr ⟨before, rfl, rfl⟩
  obtain ⟨-, hv, hsame, hoff⟩ := ingest_eq_append h hrest hs
  have hle : (payload VideoChunkView.bytes (chunks ++ [c])).length ≤ first.encodedSize.toNat := by
    obtain ⟨-, -, hend⟩ := size_of_valid hv
    rw [hsame.2.2.2.2.2] at hend
    rw [Library.Reassembly.payload_append, List.length_append]
    simp only [Library.Reassembly.payload_cons, Library.Reassembly.payload_nil, List.append_nil]
    omega
  rw [append_slotOf hv hsame hoff]
  split_ifs with hsize hlast hlast
  · refine ⟨by rintro ⟨⟩, fun image himage => ⟨first, rest, hsuffix, ⟨h, ?_, ?_, ?_⟩, ?_⟩⟩
    · rw [hrest, List.dropLast_concat]
      exact hunfinished
    · rw [hrest, List.getLast?_concat]
      rintro _ ⟨⟩
      exact hlast
    · rw [hrest]
      exact hsize
    · rw [hrest]
      cases himage
      rfl
  · exact ⟨by rintro ⟨⟩, by rintro _ ⟨⟩⟩
  · exact ⟨by rintro ⟨⟩, by rintro _ ⟨⟩⟩
  · refine ⟨fun _ => ⟨first, rest, hsuffix, ⟨h, ?_, ?_⟩, ?_⟩, by rintro _ ⟨⟩⟩
    · rw [hrest]
      simp only [List.forall_mem_append, List.forall_mem_singleton]
      exact ⟨hunfinished, Bool.eq_false_of_not_eq_true hlast⟩
    · rw [hrest]
      omega
    · rw [hrest]

/-- One chunk of the camera: the slot stays traced, and only a whole image returns. -/
theorem Traced.ingest {history : List VideoChunkView} {s : ImageSlot} (h : Traced history s)
    (c : VideoChunkView) :
    Traced (history ++ [c]) (s.ingest c).1 ∧
      ∀ image, (s.ingest c).2 = .ok (some image) →
        ∃ first rest, first :: rest <:+ history ++ [c] ∧ Whole first rest ∧
          image = imageOf first (first :: rest) := by
  have hnone : ∀ e : String, Traced (history ++ [c]) ({} : ImageSlot) ∧
      ∀ image, (Except.error e : Except String (Option ProfileImage)) = .ok (some image) →
        ∃ first rest, first :: rest <:+ history ++ [c] ∧ Whole first rest ∧
          image = imageOf first (first :: rest) :=
    fun e => ⟨by rintro ⟨⟩, by rintro _ ⟨⟩⟩
  unfold ImageSlot.ingest
  by_cases hv : InvalidEnvelope c
  · rw [if_pos hv]
    exact hnone _
  rw [if_neg hv]
  by_cases hf : isFirst c = true
  · rw [if_pos hf]
    by_cases h0 : c.chunkOffset = 0
    · rw [if_neg (not_not.2 h0)]
      exact append_outcome (follows_nil.2 ⟨hv, hf, h0⟩) (show [c] = [] ++ [c] from rfl) (by simp)
        (List.suffix_append history [c])
    · rw [if_pos h0]
      exact hnone _
  · rw [if_neg hf]
    by_cases hd : s.Discontinuous c
    · unfold ImageSlot.append
      rw [if_pos hd]
      exact hnone _
    · have hactive : s.active = true := by
        simp only [ImageSlot.Discontinuous, not_or] at hd
        exact Bool.eq_true_of_not_eq_false hd.1
      obtain ⟨first, rest, ⟨before, hbefore⟩, hu, rfl⟩ := h hactive
      have hbound := first.encodedSize.toNat_lt
      have hshort := hu.short
      obtain ⟨hsame, hoff⟩ := (not_discontinuous_slotOf (by omega)).1 hd
      have hfollows : Follows first (rest ++ [c]) :=
        follows_snoc.2 ⟨hu.toFollows, hv, Bool.eq_false_of_not_eq_true hf, hsame, hoff⟩
      exact append_outcome hfollows rfl hu.unfinished
        ⟨before, by rw [← List.cons_append, ← List.append_assoc, hbefore]⟩

theorem traced_exec (history : List VideoChunkView) :
    Traced history (imageSlot.exec imageSlot.init history) :=
  imageSlot.history (R := Traced) (by rintro ⟨⟩) (fun _ c h => (h.ingest c).1) history

/-- The chunks of the camera. -/
def ofCamera (i : Fin 4) (calls : List VideoChunkView) : List VideoChunkView :=
  calls.filter fun c => c.cameraId.toNat = i.val

/-- A camera's slot runs on the camera's chunks alone. -/
theorem exec_slots (calls : List VideoChunkView) (a : ProfileImageAssembler) (i : Fin 4) :
    (imageAssembler.exec a calls).slots i = imageSlot.exec (a.slots i) (ofCamera i calls) := by
  induction calls generalizing a with
  | nil => rfl
  | cons c calls ih =>
    have hcalls : ofCamera i (c :: calls) =
        if c.cameraId.toNat = i.val then c :: ofCamera i calls else ofCamera i calls := by
      simp [ofCamera, List.filter_cons]
    rw [Library.System.exec_cons, ih, hcalls]
    have hslot : (imageAssembler.step a c).1.slots i =
        if c.cameraId.toNat = i.val then ((a.slots i).ingest c).1 else a.slots i := by
      change (a.ingest c).1.slots i = _
      unfold ProfileImageAssembler.ingest
      by_cases hc : c.cameraId.toNat = i.val
      · have hi : (⟨c.cameraId.toNat, hc ▸ i.isLt⟩ : Fin 4) = i := Fin.ext hc
        rw [dif_pos (hc ▸ i.isLt), if_pos hc]
        dsimp only
        rw [hi, Function.update_self]
      · rw [if_neg hc]
        split_ifs with hlt
        · exact Function.update_of_ne (fun he => hc (congrArg Fin.val he).symm) _ _
        · rfl
    rw [hslot]
    by_cases hc : c.cameraId.toNat = i.val
    · rw [if_pos hc, if_pos hc]
      rfl
    · rw [if_neg hc, if_neg hc]

/-- A call on a chunk of a camera returns an image if and only if the camera's chunks
end with a whole image: it has the header and the bytes of those, and nothing else
that arrived before plays a part. -/
theorem ingest_returns_iff (calls : List VideoChunkView) (c : VideoChunkView) (i : Fin 4)
    (hc : c.cameraId.toNat = i.val) (image : ProfileImage) :
    (imageAssembler.step (imageAssembler.exec imageAssembler.init calls) c).2 = .ok (some image) ↔
      ∃ first rest, first :: rest <:+ ofCamera i (calls ++ [c]) ∧ Whole first rest ∧
        image = imageOf first (first :: rest) := by
  have hchunks : ofCamera i (calls ++ [c]) = ofCamera i calls ++ [c] := by
    simp [ofCamera, hc]
  have hstep : (imageAssembler.step (imageAssembler.exec imageAssembler.init calls) c).2 =
      ((imageSlot.exec imageSlot.init (ofCamera i calls)).ingest c).2 := by
    have hi : (⟨c.cameraId.toNat, hc ▸ i.isLt⟩ : Fin 4) = i := Fin.ext hc
    change (ProfileImageAssembler.ingest _ c).2 = _
    unfold ProfileImageAssembler.ingest
    rw [dif_pos (hc ▸ i.isLt)]
    dsimp only
    rw [hi, exec_slots]
    rfl
  rw [hstep, hchunks]
  constructor
  · exact fun h => ((traced_exec (ofCamera i calls)).ingest c).2 image h
  · rintro ⟨first, rest, ⟨before, hbefore⟩, hwhole, rfl⟩
    obtain ⟨chunks, last, hrest⟩ := (List.eq_nil_or_concat (first :: rest)).resolve_left
      (List.cons_ne_nil _ _)
    rw [List.concat_eq_append] at hrest
    rw [hrest, ← List.append_assoc] at hbefore
    obtain ⟨hcalls, hlast⟩ := List.append_inj' hbefore rfl
    obtain rfl := List.head_eq_of_cons_eq hlast
    rw [← hcalls, Library.System.exec_append]
    exact returns_of_whole hwhole hrest _

/-- A chunk of a three-byte image. -/
def part (camera : UInt8) (flags : UInt16) (offset size : UInt32) (data : List UInt8) :
    VideoChunkView where
  cameraId := camera
  format := 2
  flags := flags
  width := 1280
  height := 1024
  frameId := 7
  encodedSize := 3
  chunkOffset := offset
  chunkSize := size
  data := some data

/-- After an abandoned image and a stray chunk, with another camera in between. -/
theorem ingest_returns_after_garbage :
    ∃ first rest, first :: rest <:+ ofCamera 0
        ([part 0 5 0 2 [9, 9], part 0 4 0 1 [9], part 0 5 0 2 [1, 2], part 1 5 0 2 [8, 8]] ++
          [part 0 6 2 1 [3]]) ∧
      Whole first rest ∧
      { camera := 0, format := 2, frameId := 7, width := 1280, height := 1024, encoded := [1, 2, 3] } =
        imageOf first (first :: rest) :=
  (ingest_returns_iff [part 0 5 0 2 [9, 9], part 0 4 0 1 [9], part 0 5 0 2 [1, 2],
    part 1 5 0 2 [8, 8]] (part 0 6 2 1 [3]) 0 (by decide) _).1 (by decide +kernel)

end PrismSdk.ProfileVideo
