import PrismSdk.Camera.Assembler
import PrismSdk.Gnss.Wire
import PrismSdk.Library.Effects

/-! The capture programs `camera_imu_capture.cpp` and `network_camera_imu_capture.cpp`. The
device, the clock, the file system and the parts of the SDK that come as binaries answer
requests; the assembler and the counters are local. A row of a table is the record of its
columns, and output to the console is left out. -/

namespace PrismSdk.Capture

open Camera (Assembler Call CameraChunkResult CameraFrameSet)
open Library.Effects

structure ImuSample where
  sensorId : UInt8 := 0
  flags : UInt16 := 0
  sampleId : UInt32 := 0
  timestampUs : UInt64 := 0
  fsyncEvent : Bool := false
  sampleGap : Bool := false
  timestampSynced : Bool := false
  accelMg : Fin 3 → Int32 := fun _ => 0
  gyroMdps : Fin 3 → Int32 := fun _ => 0
  tempMilliC : Int32 := 0

structure DeviceInfo where
  detectedImuCount : UInt8 := 0
  cameraStreamingMask : UInt8 := 0

structure VideoStatus where
  enabled : Bool := false

structure NetworkOptions where
  host : String := ""
  port : UInt16 := 7443
  token : String := ""

/-- What `ImuStream::handleFrame` does: it passes samples to the handler, and then returns
or throws. -/
structure Handled where
  samples : List ImuSample
  returned : Except String Bool

/-- The columns of `frames.csv`. -/
structure FrameRow where
  cameraId : Fin 4
  frameId : UInt32
  timestampUs : UInt64
  width : UInt32
  height : UInt32
  metadataValid : Bool
  triggerTimeNs : UInt64
  file : String

namespace FrameType

def videoChunk : UInt8 := 0x8b
def videoMeta : UInt8 := 0x8c
def heartbeat : UInt8 := 0x84

end FrameType

/-- What a capture asks of its surroundings. `ingestTimes`, `metadataTime` and `expireTime`
are the readings of the clock that the assembler makes in a call. -/
inductive Request where
  | readPassword
  | openFirst
  | openNetwork (options : NetworkOptions)
  | createDirectory
  | openFrames
  | openSamples
  | writeFramesHeader
  | writeSamplesHeader
  | deviceInfo
  | networkCameraMaxFps
  | startVideo (fps : UInt32)
  | imuStart (sensorCount nominalRateHz : UInt32)
  | imuActive
  | imuStop
  | stopVideo
  | now
  | interrupted
  | readFrame (timeoutMs : UInt32)
  | handleFrame (frame : Frame)
  | parseVideoChunkView (frame : Frame)
  | parseVideoMeta (frame : Frame)
  | ingestTimes (chunk : VideoChunkView)
  | metadataTime (metadata : VideoMeta)
  | expireTime
  | sendVideoAck (frameId : UInt32)
  | openImage (name : String)
  | writeImage (bytes : List UInt8)
  | closeImage
  | writeFrameRow (row : FrameRow)
  | writeSampleRow (sample : ImuSample)
  | closeFrames
  | closeSamples

abbrev Answer : Request → Type
  | .readPassword => Option String
  | .createDirectory => Bool
  | .deviceInfo => DeviceInfo
  | .networkCameraMaxFps => UInt32
  | .startVideo _ => VideoStatus
  | .imuActive => Bool
  | .now => TimePoint
  | .interrupted => Bool
  | .readFrame _ => Frame
  | .handleFrame _ => Handled
  | .parseVideoChunkView _ => VideoChunkView
  | .parseVideoMeta _ => VideoMeta
  | .ingestTimes _ => TimePoint × TimePoint
  | .metadataTime _ => TimePoint
  | .expireTime => TimePoint
  | _ => Unit

structure ImuStatistics where
  samples : Fin 2 → UInt64 := fun _ => 0
  synchronizedSamples : Fin 2 → UInt64 := fun _ => 0
  fsyncEvents : Fin 2 → UInt64 := fun _ => 0
  sampleGaps : Fin 2 → UInt64 := fun _ => 0

/-- The local variables of `runCapture`. -/
structure Locals where
  assembler : Assembler := {}
  images : Fin 4 → UInt64 := fun _ => 0
  complete : UInt64 := 0
  partialCount : UInt64 := 0
  acknowledged : UInt64 := 0
  heartbeats : UInt64 := 0
  statistics : ImuStatistics := {}
  armed : Bool := false

abbrev Action := Program Answer Locals

def ask (r : Request) : Action (Answer r) := Program.request r

/-- A request that is `noexcept`. -/
def observe (r : Request) (fallback : Answer r) : Action (Answer r) := Program.observe r fallback

open Program (locals modify throw throwIf loop guarded)

/-! ### The calls on the assembler -/

def call (c : Call) : Action CameraChunkResult := do
  let l ← locals
  let (assembler, result) := Camera.assembler.step l.assembler c
  modify fun l => { l with assembler }
  pure result

def expire : Action CameraChunkResult := do
  let now ← observe .expireTime 0
  call (.expire now)

def ingest (chunk : VideoChunkView) : Action CameraChunkResult := do
  let times ← observe (.ingestTimes chunk) (0, 0)
  call (.ingest chunk times.1 times.2)

def addMetadata (metadata : VideoMeta) : Action (Option CameraFrameSet) := do
  let now ← observe (.metadataTime metadata) 0
  let result ← call (.addMetadata metadata now)
  pure result.completed

/-! ### The body of the loop -/

/-- `isReadTimeout`: the text of the exception, in lower case, says so. -/
def isReadTimeout (what : String) : Bool :=
  let text := what.toList.map Char.toLower
  decide ("timeout".toList <:+: text) || decide ("timed out".toList <:+: text)

/-- `client.sendVideoAck(id); ++acknowledged`. -/
def acknowledge (frameId : UInt32) : Action Unit := do
  ask (.sendVideoAck frameId)
  modify fun l => { l with acknowledged := l.acknowledged + 1 }

section

variable (save : CameraFrameSet → Action Unit) (sample : ImuSample → Action Unit)

/-- What is done with a set that has all its cameras. -/
def finish (set : CameraFrameSet) : Action Unit := do
  save set
  modify fun l => { l with complete := l.complete + 1 }
  acknowledge set.frameId

def consume (result : CameraChunkResult) : Action Unit := do
  result.discardedIncompleteFrameIds.forM acknowledge
  result.partialFrames.forM fun set => do
    save set
    modify fun l => { l with partialCount := l.partialCount + 1 }
  result.completed.toList.forM (finish save)

def readFrame : Action (Option Frame) :=
  (do
    let frame ← ask (.readFrame 200)
    pure (some frame)).catching fun what => if isReadTimeout what then pure none else throw what

/-- `imu.handleFrame(frame)`, with the handler that the program gave to the stream. -/
def handleFrame (frame : Frame) : Action Bool := do
  let handled ← ask (.handleFrame frame)
  handled.samples.forM sample
  match handled.returned with
  | .ok taken => pure taken
  | .error what => throw what

/-- What is done with a frame that is not of the IMU. -/
def dispatch (frame : Frame) : Action Unit := do
  if frame.type = FrameType.videoChunk then
    let chunk ← ask (.parseVideoChunkView frame)
    let result ← ingest chunk
    consume save result
  else if frame.type = FrameType.videoMeta then
    let metadata ← ask (.parseVideoMeta frame)
    let set ← addMetadata metadata
    set.toList.forM (finish save)
  else if frame.type = FrameType.heartbeat then
    modify fun l => { l with heartbeats := l.heartbeats + 1 }
  else pure ()

def turn : Action Unit := do
  let result ← expire
  consume save result
  match ← readFrame with
  | none => pure ()
  | some frame =>
    if ← handleFrame sample frame then pure () else dispatch save frame

end

/-! ### `CaptureGuard` -/

def arm : Action Unit := modify fun l => { l with armed := true }

/-- `if (imu_.active()) imu_.stop(); else client_.stopVideo();`. -/
def stopStreams : Action Unit := do
  if ← observe .imuActive false then ask .imuStop else ask .stopVideo

def CaptureGuard.stop : Action Unit := do
  let l ← locals
  if l.armed then
    stopStreams
    modify fun l => { l with armed := false }
  else pure ()

def CaptureGuard.destructor : Action Unit := do
  let l ← locals
  if l.armed then stopStreams.catching fun _ => pure () else pure ()

/-! ### The counters -/

def ImuStatistics.ingest (sample : ImuSample) : Action Unit :=
  if h : sample.sensorId.toNat < 2 then
    let i : Fin 2 := ⟨sample.sensorId.toNat, h⟩
    let add (b : Bool) (counts : Fin 2 → UInt64) : Fin 2 → UInt64 :=
      if b then Function.update counts i (counts i + 1) else counts
    modify fun l => { l with statistics :=
      { samples := add true l.statistics.samples
        synchronizedSamples := add sample.timestampSynced l.statistics.synchronizedSamples
        fsyncEvents := add sample.fsyncEvent l.statistics.fsyncEvents
        sampleGaps := add sample.sampleGap l.statistics.sampleGaps } }
  else throw "IMU sample has an out-of-range sensor id"

/-- `++images[i]`. -/
def countImage (i : Fin 4) : Action Unit :=
  modify fun l => { l with images := Function.update l.images i (l.images i + 1) }

structure Options where
  seconds : UInt32 := 10
  cameraFps : UInt32 := 0
  imuRateHz : UInt32 := 0
  network : NetworkOptions := {}

def Options.deadline (options : Options) (start : TimePoint) : TimePoint :=
  start + options.seconds.toNat * oneSecond

def imuCount (device : DeviceInfo) : UInt32 := if device.detectedImuCount = 1 then 1 else 2

/-! ### `camera_imu_capture.cpp` -/

namespace Usb

def count (set : CameraFrameSet) : Action Unit :=
  (List.finRange 4).forM fun i => if set.jpeg i ≠ [] then countImage i else pure ()

/-- `received`: the images, and the samples of the sensors that were asked for. -/
def received (device : DeviceInfo) (l : Locals) : UInt64 :=
  let images := (List.finRange 4).foldl (fun n i => n + l.images i) 0
  (List.finRange 2).foldl
    (fun n i => if i.val < (imuCount device).toNat then n + l.statistics.samples i else n) images

/-- The run while the loop makes at most `turns` turns; `none` is a run still in the loop. -/
def runCapture (options : Options) (turns : ℕ) : Action (Option ℕ) := do
  ask .openFirst
  let device ← ask .deviceInfo
  guarded (do
    let video ← ask (.startVideo options.cameraFps)
    arm
    throwIf (video.enabled = false) "camera capture was not enabled"
    ask (.imuStart (imuCount device) options.imuRateHz)
    let start ← observe .now 0
    let ended ← loop
      (do
        let now ← observe .now 0
        pure (decide (now < options.deadline start)))
      (turn count ImuStatistics.ingest) turns
    if ended then
      CaptureGuard.stop
      let _ ← observe .now 0
      let l ← locals
      pure (some (if received device l ≠ 0 then 0 else 3))
    else pure none) CaptureGuard.destructor

def main (options : Options) (turns : ℕ) : Action (Option ℕ) :=
  (runCapture options turns).exitCode

end Usb

/-! ### `network_camera_imu_capture.cpp` -/

namespace Network

def imageName (i : Fin 4) (frameId : UInt32) : String :=
  "cam" ++ toString i.val ++ "_" ++ toString frameId ++ ".jpg"

def frameRow (i : Fin 4) (set : CameraFrameSet) : FrameRow where
  cameraId := i
  frameId := set.frameId
  timestampUs := set.timestampUs
  width := set.width
  height := set.height
  metadataValid := set.metadata.valid
  triggerTimeNs := set.metadata.triggerTimeNs
  file := imageName i set.frameId

def saveImage (set : CameraFrameSet) (i : Fin 4) : Action Unit := do
  ask (.openImage (imageName i set.frameId))
  ask (.writeImage (set.jpeg i))
  ask .closeImage
  ask (.writeFrameRow (frameRow i set))
  countImage i

def saveImages (set : CameraFrameSet) : Action Unit :=
  (List.finRange 4).forM fun i => if set.jpeg i = [] then pure () else saveImage set i

def onSample (s : ImuSample) : Action Unit := do
  ImuStatistics.ingest s
  ask (.writeSampleRow s)

def imageCount (l : Locals) : UInt64 := (List.finRange 4).foldl (fun n i => n + l.images i) 0

def imuCountReceived (l : Locals) : UInt64 :=
  (List.finRange 2).foldl (fun n i => n + l.statistics.samples i) 0

/-- The part of `runCapture` before the guard. -/
def openCapture (options : Options) : Action DeviceInfo := do
  let token ← ask .readPassword
  throwIf (token.getD "" = "") "missing Web admin password on stdin"
  ask (.openNetwork { options.network with token := token.getD "" })
  let created ← ask .createDirectory
  throwIf (created = false) "output directory already exists; choose a new directory"
  ask .openFrames
  ask .openSamples
  ask .writeFramesHeader
  ask .writeSamplesHeader
  let device ← ask .deviceInfo
  throwIf (device.cameraStreamingMask ≠ 0)
    "device is already streaming; stop the existing capture first"
  let _ ← ask .networkCameraMaxFps
  pure device

/-- The run while the loop makes at most `turns` turns; `none` is a run still in the loop. -/
def runCapture (options : Options) (turns : ℕ) : Action (Option ℕ) := do
  let device ← openCapture options
  guarded (do
    arm
    let video ← ask (.startVideo options.cameraFps)
    throwIf (video.enabled = false) "camera capture was not enabled"
    ask (.imuStart (imuCount device) options.imuRateHz)
    let start ← observe .now 0
    let ended ← loop
      (do
        if ← observe .interrupted false then pure false
        else
          let now ← observe .now 0
          pure (decide (now < options.deadline start)))
      (turn saveImages onSample) turns
    if ended then
      CaptureGuard.stop
      ask .closeFrames
      ask .closeSamples
      let _ ← observe .now 0
      let l ← locals
      pure (some (if imageCount l = 0 ∨ imuCountReceived l = 0 then 3 else 0))
    else pure none) CaptureGuard.destructor

def main (options : Options) (turns : ℕ) : Action (Option ℕ) :=
  (runCapture options turns).exitCode

end Network

end PrismSdk.Capture
