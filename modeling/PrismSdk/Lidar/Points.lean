import Mathlib.Data.UInt
import PrismSdk.Library.Checked

/-! Batches of LiDAR points, and the functions of `lidar_points.hpp`: the time of a point
and the bytes in which data sets store the points. -/

namespace PrismSdk.Lidar

open Library (Checked)
open Library.Checked (save)

inductive LidarModel where
  | none
  | mid360
  | mid360S
  | xt32
  deriving DecidableEq, Repr

structure LidarPoint where
  xMm : Int32 := 0
  yMm : Int32 := 0
  zMm : Int32 := 0
  reflectivity : UInt8 := 0
  tag : UInt8 := 0
  ring : UInt16 := 0
  offsetNs : Int32 := 0
  returnId : UInt8 := 0
  confidence : UInt8 := 0
  line : UInt8 := 0
  lineValid : Bool := false
  deriving DecidableEq

/-- What the two functions read of a batch. -/
structure LidarPointBatch where
  version : UInt16 := 0
  model : LidarModel := .none
  timeInterval100ns : UInt16 := 0
  points : List LidarPoint := []
  deriving DecidableEq

/-! ### Times -/

/-- The exceptions of the point times, by their classes. -/
inductive TimeError where
  | outOfRange (what : String)
  | invalidArgument (what : String)
  | overflowError (what : String)
  deriving DecidableEq, Repr

def lidarAddSignedOffsetNs (baseNs : UInt64) (offsetNs : Int64) : Except TimeError UInt64 :=
  if offsetNs < 0 then
    let magnitude := (-(offsetNs + 1)).toUInt64 + 1
    if baseNs < magnitude then .error (.overflowError "LiDAR point time underflow")
    else .ok (baseNs - magnitude)
  else if baseNs > 0xffffffffffffffff - offsetNs.toUInt64 then
    .error (.overflowError "LiDAR point time overflow")
  else .ok (baseNs + offsetNs.toUInt64)

/-- `(index * uint64_t(interval) * 100 + intervals / 2) / intervals`, before the cast. -/
def interpolatedNs (index : UInt64) (interval : UInt16) (intervals : UInt64) : UInt64 :=
  (index * interval.toUInt64 * 100 + intervals / 2) / intervals

def lidarPointTimestampNs (batch : LidarPointBatch) (index baseNs : UInt64) :
    Except TimeError UInt64 :=
  match batch.points[index.toNat]? with
  | none => .error (.outOfRange "LiDAR point index")
  | some point =>
    if batch.model = .xt32 then
      if batch.version ≠ 3 ∨ batch.timeInterval100ns ≠ 0 then
        .error (.invalidArgument "XT32 requires explicit point times")
      else lidarAddSignedOffsetNs baseNs point.offsetNs.toInt64
    else if batch.points.length > 1 then
      let intervals := UInt64.ofNat batch.points.length - 1
      lidarAddSignedOffsetNs baseNs
        (interpolatedNs index batch.timeInterval100ns intervals).toInt64
    else lidarAddSignedOffsetNs baseNs 0

/-! ### Stored points -/

def lidarStoredPointStride (model : LidarModel) : Checked ℕ :=
  if model = .xt32 then .ok 24
  else if model = .mid360 ∨ model = .mid360S then .ok 16
  else .error (.thrown "unsupported LiDAR point model")

/-- The lambda of `serializeLidarPoints`, on the point that starts at `p`. -/
def put (p start : ℕ) (value : UInt32) (n : ℕ) (out : List UInt8) : Checked (List UInt8) :=
  (List.range n).foldlM
    (fun out b => save out (p + (start + b)) (value >>> UInt32.ofNat (b * 8)).toUInt8) out

/-- The part of the loop of `serializeLidarPoints` that depends on the model. -/
def serializeTail (stride p : ℕ) (point : LidarPoint) (out : List UInt8) :
    Checked (List UInt8) :=
  if stride = 24 then do
    let out ← put p 14 point.ring.toUInt32 2 out
    let out ← put p 16 point.offsetNs.toUInt32 4 out
    let out ← save out (p + 20) point.returnId
    save out (p + 21) point.confidence
  else if point.lineValid then
    if point.line ≥ 4 then .error (.thrown "invalid Livox line")
    else do
      let out ← save out (p + 14) point.line
      save out (p + 15) 1
  else .ok out

/-- The body of the loop of `serializeLidarPoints`. -/
def serializePoint (stride p : ℕ) (point : LidarPoint) (out : List UInt8) :
    Checked (List UInt8) := do
  let out ← put p 0 point.xMm.toUInt32 4 out
  let out ← put p 4 point.yMm.toUInt32 4 out
  let out ← put p 8 point.zMm.toUInt32 4 out
  let out ← save out (p + 12) point.reflectivity
  let out ← save out (p + 13) point.tag
  serializeTail stride p point out

def serializeLidarPoints (batch : LidarPointBatch) : Checked (List UInt8) := do
  let stride ← lidarStoredPointStride batch.model
  if batch.points.length > (2 ^ 64 - 1) / stride then
    .error (.thrown "LiDAR points too large")
  else
    batch.points.zipIdx.foldlM
      (fun out x => serializePoint stride (x.2 * stride) x.1 out)
      (List.replicate (batch.points.length * stride) 0)

end PrismSdk.Lidar
