import Mathlib.Data.Fintype.Basic
import Mathlib.Tactic.Common

/-! The video messages the assemblers read. A view points at caller memory: its
data pointer is `none` when null, and otherwise stands for the `data_size`
bytes it may be read for. -/

namespace PrismSdk

/-- `steady_clock::time_point`, in nanoseconds. -/
abbrev TimePoint := ℤ

/-- `std::chrono::seconds(1)`. -/
def oneSecond : ℤ := 1000000000

structure VideoChunk where
  cameraId : UInt8 := 0
  format : UInt8 := 0
  flags : UInt16 := 0
  width : UInt32 := 0
  height : UInt32 := 0
  frameId : UInt32 := 0
  encodedSize : UInt32 := 0
  chunkOffset : UInt32 := 0
  chunkSize : UInt32 := 0
  timestampUs : UInt64 := 0
  data : List UInt8 := []
  deriving DecidableEq

structure VideoChunkView where
  cameraId : UInt8 := 0
  format : UInt8 := 0
  flags : UInt16 := 0
  width : UInt32 := 0
  height : UInt32 := 0
  frameId : UInt32 := 0
  encodedSize : UInt32 := 0
  chunkOffset : UInt32 := 0
  chunkSize : UInt32 := 0
  timestampUs : UInt64 := 0
  data : Option (List UInt8) := none
  deriving DecidableEq

namespace VideoChunkView

/-- The bytes the view points at; a null pointer is never read. -/
def bytes (chunk : VideoChunkView) : List UInt8 := chunk.data.getD []

def dataSize (chunk : VideoChunkView) : ℕ := chunk.bytes.length

end VideoChunkView

structure VideoMeta where
  valid : Bool := false
  cameras : UInt8 := 0
  hostFrameId : UInt32 := 0
  carrierFrameId : UInt32 := 0
  carrierWidthBytes : UInt32 := 0
  imageHeightPerCamera : UInt32 := 0
  metaRowBytes : UInt32 := 0
  triggerTimeNs : UInt64 := 0
  exposureUs : Fin 4 → UInt32 := fun _ => 0
  analogGainX1024 : Fin 4 → UInt32 := fun _ => 0
  digitalGainX1024 : Fin 4 → UInt32 := fun _ => 0
  metaCrc32 : UInt32 := 0
  deriving DecidableEq

end PrismSdk
