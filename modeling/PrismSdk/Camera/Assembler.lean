import Mathlib
import PrismSdk.Telemetry
import PrismSdk.Camera.Mask
import PrismSdk.Library.Serial
import PrismSdk.Library.Transition

/-! `CameraFrameAssembler` of `camera_assembler.hpp`, function by function. The
`std::map` and `std::set` members are ordered maps and sets with the same
iteration order; a member function takes the assembler and returns it updated.
The readings of the steady clock are arguments. -/

namespace PrismSdk.Camera

open Std (ExtTreeMap ExtTreeSet)

structure CameraFrameSet where
  frameId : UInt32 := 0
  timestampUs : UInt64 := 0
  jpeg : Fin 4 → List UInt8 := fun _ => []
  metadata : VideoMeta := {}
  cameraMask : UInt8 := 0
  width : UInt32 := 0
  height : UInt32 := 0
  deriving DecidableEq

inductive CameraTransferState where
  | missing | incomplete | complete | invalid
  deriving DecidableEq

structure CameraTransferProgress where
  state : CameraTransferState := .missing
  receivedBytes : UInt32 := 0
  expectedBytes : UInt32 := 0
  deriving DecidableEq

structure CameraFrameDiagnostic where
  frameId : UInt32 := 0
  cameras : Fin 4 → CameraTransferProgress := fun _ => {}
  metadataReceived : Bool := false
  reason : String := ""
  deriving DecidableEq

structure CameraChunkResult where
  completed : Option CameraFrameSet := none
  discardedIncompleteFrameIds : List UInt32 := []
  discardedDiagnostics : List CameraFrameDiagnostic := []
  partialFrames : List CameraFrameSet := []
  deriving DecidableEq

structure ImageBuffer where
  jpeg : List UInt8 := []
  encodedSize : UInt32 := 0
  received : UInt32 := 0
  timestampUs : UInt64 := 0
  deriving DecidableEq

/-- An image nothing was received of takes its size and time from the chunk. -/
def ImageBuffer.start (image : ImageBuffer) (chunk : VideoChunkView) : ImageBuffer :=
  if image.received = 0 then
    { image with encodedSize := chunk.encodedSize, timestampUs := chunk.timestampUs }
  else image

def ImageBuffer.append (image : ImageBuffer) (chunk : VideoChunkView) : ImageBuffer :=
  { image with jpeg := image.jpeg ++ chunk.bytes, received := image.received + chunk.chunkSize }

structure PartialFrameSet where
  jpeg : Fin 4 → List UInt8 := fun _ => []
  timestampUs : Fin 4 → UInt64 := fun _ => 0
  readyMask : UInt8 := 0
  invalidMask : UInt8 := 0
  width : UInt32 := 0
  height : UInt32 := 0
  deriving DecidableEq

/-- What `rejectCamera` does to the frame's set: the camera's bytes go for good. -/
def PartialFrameSet.reject (frame : PartialFrameSet) (c : Fin 4) : PartialFrameSet :=
  { frame with
    invalidMask := frame.invalidMask ||| cameraBit c
    readyMask := frame.readyMask &&& ~~~cameraBit c
    jpeg := Function.update frame.jpeg c [] }

/-- What `ingest` does to the frame's set when the camera's image is complete. -/
def PartialFrameSet.store (frame : PartialFrameSet) (c : Fin 4) (image : ImageBuffer) :
    PartialFrameSet :=
  { frame with
    jpeg := Function.update frame.jpeg c image.jpeg
    timestampUs := Function.update frame.timestampUs c image.timestampUs
    readyMask := frame.readyMask ||| cameraBit c }

/-- `std::pair<uint8_t, uint32_t>`: camera, then frame. -/
abbrev ImageKey := UInt8 × UInt32

/-- The lexicographic order of `std::pair`. -/
def imageKeyCmp : ImageKey → ImageKey → Ordering :=
  compareLex (compareOn Prod.fst) (compareOn Prod.snd)

instance : Std.TransCmp imageKeyCmp := inferInstanceAs (Std.TransCmp (compareLex _ _))

instance : Std.LawfulEqCmp imageKeyCmp where
  compare_self := by simp [imageKeyCmp, compareLex, compareOn]
  eq_of_compare := by
    intro a b h
    simp only [imageKeyCmp, compareLex, compareOn, Ordering.then_eq_eq, Std.compare_eq_iff_eq] at h
    exact Prod.ext h.1 h.2

structure Assembler where
  pendingImages : ExtTreeMap ImageKey ImageBuffer imageKeyCmp := ∅
  partialFrameSets : ExtTreeMap UInt32 PartialFrameSet := ∅
  metadataByFrame : ExtTreeMap UInt32 VideoMeta := ∅
  newestFrameId : Option UInt32 := none
  settledFrameIds : ExtTreeSet UInt32 := ∅
  settledFrameOrder : List UInt32 := []
  lastDiscardedDiagnostic : Option CameraFrameDiagnostic := none
  startedAt : ExtTreeMap UInt32 TimePoint := ∅

def kCameraCount : ℕ := 4
def kSettledFrameHistory : ℕ := 64

/-- `static_cast<int32_t>(candidate - reference) > 0`. -/
def frameIdIsNewer (candidate reference : UInt32) : Bool :=
  decide (Library.Serial.Newer candidate.toBitVec reference.toBitVec)

namespace Assembler

def frameIsSettled (s : Assembler) (frameId : UInt32) : Bool := s.settledFrameIds.contains frameId

/-- The state and byte counts of one camera. The first matching branch of the
loop body of `diagnostic` wins. -/
def progress (s : Assembler) (frameId : UInt32) (camera : Fin 4) : CameraTransferProgress :=
  let frameSet := s.partialFrameSets[frameId]?
  if frameSet.any (fun p => hasCamera p.invalidMask camera) then { state := .invalid }
  else if frameSet.any (fun p => hasCamera p.readyMask camera) then
    let size := UInt32.ofNat ((frameSet.getD {}).jpeg camera).length
    { state := .complete, receivedBytes := size, expectedBytes := size }
  else
    match s.pendingImages[(UInt8.ofNat camera.val, frameId)]? with
    | some image =>
      { state := .incomplete, receivedBytes := image.received, expectedBytes := image.encodedSize }
    | none => {}

def diagnostic (s : Assembler) (frameId : UInt32) : CameraFrameDiagnostic :=
  { frameId, metadataReceived := s.metadataByFrame.contains frameId
    cameras := s.progress frameId }

def rejectCamera (s : Assembler) (frameId : UInt32) (camera : UInt8) : Assembler :=
  if h : camera.toNat < kCameraCount then
    { s with
      partialFrameSets := s.partialFrameSets.insert frameId
        ((s.partialFrameSets[frameId]?.getD {}).reject ⟨camera.toNat, h⟩)
      pendingImages := s.pendingImages.erase (camera, frameId) }
  else s

/-- `while (order.size() > kSettledFrameHistory)`: forget the oldest ID. -/
def trimSettled (ids : ExtTreeSet UInt32) : List UInt32 → ExtTreeSet UInt32 × List UInt32
  | [] => (ids, [])
  | front :: order =>
    if order.length + 1 > kSettledFrameHistory then trimSettled (ids.erase front) order
    else (ids, front :: order)

def settleFrame (s : Assembler) (frameId : UInt32) : Assembler × Bool :=
  if s.settledFrameIds.contains frameId then (s, false)
  else
    let trimmed := trimSettled (s.settledFrameIds.insert frameId) (s.settledFrameOrder ++ [frameId])
    ({ s with settledFrameIds := trimmed.1, settledFrameOrder := trimmed.2 }, true)

/-- The images of `frame` that `complete` names, as `discardFrame` moves them into a
set. -/
def survivingSet (frameId : UInt32) (frame : PartialFrameSet) (metadata : VideoMeta)
    (complete : Fin 4 → Bool) : CameraFrameSet :=
  { frameId, width := frame.width, height := frame.height, metadata
    timestampUs := if metadata.valid then metadata.triggerTimeNs / 1000 else 0
    jpeg := fun c => if complete c then frame.jpeg c else []
    cameraMask := maskOf complete }

/-- What `discardFrame` adds to `partial_frames`: the images its diagnostic marks
complete, when there is one. -/
def surviving (s : Assembler) (frameId : UInt32) (info : CameraFrameDiagnostic) :
    Option CameraFrameSet :=
  match s.partialFrameSets[frameId]? with
  | none => none
  | some frame =>
    let survivor := survivingSet frameId frame (s.metadataByFrame[frameId]?.getD {})
      (fun c => decide ((info.cameras c).state = .complete))
    if survivor.cameraMask ≠ 0 then some survivor else none

/-- Take a frame out of the four maps. -/
def forget (s : Assembler) (frameId : UInt32) : Assembler :=
  { s with
    pendingImages := s.pendingImages.filter (fun key _ => key.2 ≠ frameId)
    partialFrameSets := s.partialFrameSets.erase frameId
    metadataByFrame := s.metadataByFrame.erase frameId
    startedAt := s.startedAt.erase frameId }

def discardFrame (s : Assembler) (frameId : UInt32) (result : CameraChunkResult)
    (reason : String := "next frame arrived before completion") (invalidCamera : ℤ := -1) :
    Assembler × CameraChunkResult :=
  let info := { s.diagnostic frameId with reason }
  let info := if 0 ≤ invalidCamera ∧ invalidCamera < kCameraCount then
      { info with cameras := fun c =>
        if (c.val : ℤ) = invalidCamera then { info.cameras c with state := .invalid }
        else info.cameras c }
    else info
  let result := { result with
    partialFrames := result.partialFrames ++ (s.surviving frameId info).toList }
  let (s, settled) := (s.forget frameId).settleFrame frameId
  if settled then
    ({ s with lastDiscardedDiagnostic := some info },
      { result with
        discardedIncompleteFrameIds := result.discardedIncompleteFrameIds ++ [frameId]
        discardedDiagnostics := result.discardedDiagnostics ++ [info] })
  else (s, result)

/-- `discardFrame` for each ID in turn, as the loops of `discardFramesOlderThan`
and `expire` do. -/
def discardFrames (s : Assembler) (ids : List UInt32) (result : CameraChunkResult)
    (reason : String := "next frame arrived before completion") : Assembler × CameraChunkResult :=
  ids.foldl (fun (acc : Assembler × CameraChunkResult) frameId =>
    acc.1.discardFrame frameId acc.2 reason) (s, result)

/-- The IDs `discardFramesOlderThan` collects in its `std::set`. -/
def incompleteOlderThan (s : Assembler) (frameId : UInt32) : ExtTreeSet UInt32 :=
  ExtTreeSet.ofList <|
    ((s.pendingImages.keys.map Prod.snd ++ s.partialFrameSets.keys) ++ s.metadataByFrame.keys).filter
      (fun id => frameIdIsNewer frameId id)

def discardFramesOlderThan (s : Assembler) (frameId : UInt32) (result : CameraChunkResult) :
    Assembler × CameraChunkResult :=
  s.discardFrames (s.incompleteOlderThan frameId).toList result

/-- `expected`: the cameras a frame with this metadata must have. Without
metadata the frame is not complete whatever `expected` is. -/
def expectedMask (metadata : VideoMeta) : UInt8 :=
  if metadata.valid ∧ metadata.cameras = 4 then maskOf (fun c => metadata.exposureUs c ≠ 0) else 0x0f

/-- The frame has all it must have: some camera is expected, exactly the expected
ones are ready, and none was rejected. -/
def IsComplete (frameSet : PartialFrameSet) (metadata : VideoMeta) : Prop :=
  expectedMask metadata ≠ 0 ∧ frameSet.readyMask = expectedMask metadata ∧ frameSet.invalidMask = 0

instance (frameSet : PartialFrameSet) (metadata : VideoMeta) :
    Decidable (IsComplete frameSet metadata) := inferInstanceAs (Decidable (_ ∧ _))

/-- The set `takeCompletedFrame` builds from a frame's images and metadata. -/
def completedSet (frameId : UInt32) (frameSet : PartialFrameSet) (metadata : VideoMeta) :
    CameraFrameSet :=
  { frameId, metadata
    timestampUs := if metadata.valid ∧ metadata.triggerTimeNs ≠ 0 then
      metadata.triggerTimeNs / 1000 else 0
    jpeg := frameSet.jpeg, cameraMask := expectedMask metadata
    width := frameSet.width, height := frameSet.height }

def takeCompletedFrame (s : Assembler) (frameId : UInt32) : Assembler × Option CameraFrameSet :=
  match s.partialFrameSets[frameId]?, s.metadataByFrame[frameId]? with
  | some frameSet, some metadata =>
    if IsComplete frameSet metadata then
      let s := { s with
        partialFrameSets := s.partialFrameSets.erase frameId
        metadataByFrame := s.metadataByFrame.erase frameId
        startedAt := s.startedAt.erase frameId }
      ({ (s.settleFrame frameId).1 with lastDiscardedDiagnostic := none },
        some (completedSet frameId frameSet metadata))
    else (s, none)
  | _, _ => (s, none)

/-- `invalid_chunk` of `ingest`, with `size_overflows` as its seventh part. -/
def InvalidChunk (chunk : VideoChunkView) : Prop :=
  chunk.cameraId.toNat ≥ kCameraCount ∨ chunk.encodedSize = 0 ∨
    chunk.encodedSize > 8 * 1024 * 1024 ∨ chunk.chunkSize = 0 ∨ chunk.data = none ∨
    chunk.dataSize ≠ chunk.chunkSize.toNat ∨ chunk.chunkOffset > 0xffffffff - chunk.chunkSize ∨
    chunk.chunkOffset + chunk.chunkSize > chunk.encodedSize

instance (chunk : VideoChunkView) : Decidable (InvalidChunk chunk) :=
  inferInstanceAs (Decidable (_ ∨ _))

theorem camera_lt_of_not_invalid {chunk : VideoChunkView} (h : ¬ InvalidChunk chunk) :
    chunk.cameraId.toNat < 4 := by
  simp only [InvalidChunk, kCameraCount, not_or, not_le] at h
  exact h.1

/-- The last part of `ingest`: the image of camera `c` has all its bytes. -/
def storeImage (s : Assembler) (chunk : VideoChunkView) (c : Fin 4) (image : ImageBuffer) :
    Assembler × Option CameraFrameSet :=
  let frameSet := { s.partialFrameSets[chunk.frameId]?.getD {} with
    width := chunk.width, height := chunk.height }
  let s := { s with partialFrameSets := s.partialFrameSets.insert chunk.frameId frameSet }
  if hasCamera frameSet.readyMask c then (s.rejectCamera chunk.frameId chunk.cameraId, none)
  else if image.jpeg.length ≠ image.encodedSize.toNat then
    (s.rejectCamera chunk.frameId chunk.cameraId, none)
  else
    let s := { s with
      partialFrameSets := s.partialFrameSets.insert chunk.frameId (frameSet.store c image) }
    let (s, completed) := s.takeCompletedFrame chunk.frameId
    ({ s with pendingImages := s.pendingImages.erase (chunk.cameraId, chunk.frameId) }, completed)

/-- The part of `ingest` after the checks of the chunk alone. -/
def appendChunk (s : Assembler) (chunk : VideoChunkView) (c : Fin 4) (now : TimePoint) :
    Assembler × Option CameraFrameSet :=
  if s.partialFrameSets[chunk.frameId]?.any (fun p => hasCamera p.invalidMask c) then (s, none)
  else
    let key := (chunk.cameraId, chunk.frameId)
    let image := (s.pendingImages[key]?.getD {}).start chunk
    if image.encodedSize ≠ chunk.encodedSize ∨ image.timestampUs ≠ chunk.timestampUs ∨
        chunk.chunkOffset ≠ image.received then
      ({ s with pendingImages := s.pendingImages.insert key image }.rejectCamera
        chunk.frameId chunk.cameraId, none)
    else
      let image := image.append chunk
      let s := { s with
        pendingImages := s.pendingImages.insert key image
        startedAt := s.startedAt.insert chunk.frameId now }
      if image.received < chunk.encodedSize then (s, none)
      else s.storeImage chunk c image

/-- The part of `ingest` after the admission by frame ID. The clock is read on
entry and again when bytes are appended. -/
def ingestFrame (s : Assembler) (chunk : VideoChunkView) (entered appended : TimePoint) :
    Assembler × Option CameraFrameSet :=
  if s.frameIsSettled chunk.frameId then (s, none)
  else
    let s := { s with startedAt := s.startedAt.insertIfNew chunk.frameId entered }
    if h : InvalidChunk chunk then (s.rejectCamera chunk.frameId chunk.cameraId, none)
    else s.appendChunk chunk ⟨chunk.cameraId.toNat, camera_lt_of_not_invalid h⟩ appended

/-- The first part of `ingest`: retire older frames for a newer ID, and turn
away a late one. -/
def advance (s : Assembler) (frameId : UInt32) : Option (Assembler × CameraChunkResult) :=
  match s.newestFrameId with
  | some newest =>
    if frameIdIsNewer frameId newest then
      let (s, result) := s.discardFramesOlderThan frameId {}
      some ({ s with newestFrameId := some frameId }, result)
    else if frameId ≠ newest then none
    else some (s, {})
  | none => some ({ s with newestFrameId := some frameId }, {})

def ingest (s : Assembler) (chunk : VideoChunkView) (entered appended : TimePoint) :
    Assembler × CameraChunkResult :=
  match s.advance chunk.frameId with
  | none => (s, {})
  | some (s, result) =>
    let (s, completed) := s.ingestFrame chunk entered appended
    (s, { result with completed })

/-- The `VideoChunk` overload: its vector is never null. -/
def ingestChunk (s : Assembler) (chunk : VideoChunk) (entered appended : TimePoint) :
    Assembler × CameraChunkResult :=
  s.ingest
    { cameraId := chunk.cameraId, format := chunk.format, flags := chunk.flags
      width := chunk.width, height := chunk.height, frameId := chunk.frameId
      encodedSize := chunk.encodedSize, chunkOffset := chunk.chunkOffset
      chunkSize := chunk.chunkSize, timestampUs := chunk.timestampUs, data := some chunk.data }
    entered appended

/-- `while (metadata_by_frame_.size() > 16)`: drop the smallest key. Every turn
drops one entry, so `fuel` is the size at the start. -/
def trimMetadata : ℕ → ExtTreeMap UInt32 VideoMeta → ExtTreeMap UInt32 VideoMeta
  | 0, m => m
  | fuel + 1, m =>
    if m.size > 16 then
      match m.keys.head? with
      | some first => trimMetadata fuel (m.erase first)
      | none => m
    else m

/-- The guard of `addMetadata`: unsettled, and not older than the newest chunk. -/
def metadataIsLate (s : Assembler) (frameId : UInt32) : Bool :=
  s.frameIsSettled frameId ||
    s.newestFrameId.any (fun newest => frameId != newest && !frameIdIsNewer frameId newest)

def addMetadata (s : Assembler) (metadata : VideoMeta) (now : TimePoint) :
    Assembler × Option CameraFrameSet :=
  if s.metadataIsLate metadata.hostFrameId then (s, none)
  else
    let s := { s with
      startedAt := s.startedAt.insertIfNew metadata.hostFrameId now
      metadataByFrame := s.metadataByFrame.insert metadata.hostFrameId metadata }
    let (s, completed) := s.takeCompletedFrame metadata.hostFrameId
    ({ s with metadataByFrame := trimMetadata s.metadataByFrame.size s.metadataByFrame }, completed)

def expire (s : Assembler) (now : TimePoint) : Assembler × CameraChunkResult :=
  let expired := (s.startedAt.toList.filter (fun frame => now - frame.2 ≥ oneSecond)).map Prod.fst
  s.discardFrames expired {} "incomplete frame expired; other streams continue"

def reset (_ : Assembler) : Assembler := {}

end Assembler

/-- A call on the public interface, with the clock readings it makes. -/
inductive Call where
  | ingest (chunk : VideoChunkView) (entered appended : TimePoint)
  | addMetadata (metadata : VideoMeta) (now : TimePoint)
  | expire (now : TimePoint)
  | reset
  deriving DecidableEq

/-- The assembler as a transition system. The set `addMetadata` returns is
reported the way `ingest` reports one. -/
def assembler : Library.System Assembler Call CameraChunkResult where
  init := {}
  step s
    | .ingest chunk entered appended => s.ingest chunk entered appended
    | .addMetadata metadata now =>
      let (s, completed) := s.addMetadata metadata now
      (s, { completed })
    | .expire now => s.expire now
    | .reset => (s.reset, {})

namespace CameraChunkResult

/-- The frame IDs a result reports, each worth one acknowledgement. -/
def reported (r : CameraChunkResult) : List UInt32 :=
  r.discardedIncompleteFrameIds ++ (r.completed.map (·.frameId)).toList

/-- The frame sets a result delivers. -/
def delivered (r : CameraChunkResult) : List CameraFrameSet :=
  r.partialFrames ++ r.completed.toList

end CameraChunkResult

/-! ### Sample messages -/

/-- The chunk of a JPEG of `size` bytes that has `bytes` at `offset`. -/
def piece (frameId : UInt32) (camera : UInt8) (offset size : UInt32) (bytes : List UInt8) :
    VideoChunkView :=
  { cameraId := camera, frameId, encodedSize := size, chunkOffset := offset
    chunkSize := UInt32.ofNat bytes.length, data := some bytes }

/-- The chunk that is the whole JPEG of one camera. -/
def wholeChunk (frameId : UInt32) (camera : UInt8) (jpeg : List UInt8) : VideoChunkView :=
  piece frameId camera 0 (UInt32.ofNat jpeg.length) jpeg

/-- Metadata that declares one camera. -/
def soloMeta (frameId : UInt32) (camera : UInt8) : VideoMeta :=
  { valid := true, cameras := 4, hostFrameId := frameId
    exposureUs := fun c => if c.val = camera.toNat then 1000 else 0 }

/-- Frames 2 to 65, each described once. -/
def flood (now : TimePoint) : List Call :=
  (List.range 64).map fun n => .addMetadata { hostFrameId := UInt32.ofNat (n + 2) } now

end PrismSdk.Camera
