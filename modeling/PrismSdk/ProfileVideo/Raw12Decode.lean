import PrismSdk.ProfileVideo.ImageAssembler
import PrismSdk.ProfileVideo.Raw12Block
import PrismSdk.ProfileVideo.Raw12Header

/-! The RAW12 decoders of `profile_video.hpp`: the checks on the envelope, the loop over
the blocks, the checksums and the packing, twelve bits to a pixel. The functions of the
Zstandard library are parameters. -/

namespace PrismSdk.ProfileVideo

open Library (Checked Fault)
open Library.Checked (load save loadAll)
open Raw12Rice (decodeBlock)

structure Raw12Image where
  width : UInt32 := 0
  height : UInt32 := 0
  frameId : UInt32 := 0
  exposureUs : UInt32 := 0
  gainX1024 : UInt32 := 0
  camera : UInt8 := 0
  bayer : UInt8 := 0
  timingMode : UInt8 := 0
  sourceTimestampUs : UInt64 := 0
  packed : List UInt8 := []
  triggerSequence : UInt32 := 0
  deriving DecidableEq

def validProfileTiming (mode : UInt8) (stamp : UInt64) : Bool :=
  decide (mode ≤ 4) && if mode = 0 then stamp = 0 else if mode = 4 then stamp ≠ 0 else true

/-- The fields both decoders check with their own texts. -/
def badFields (bytes : List UInt8) : Checked Bool := do
  let depth ← load bytes 6
  let bayer ← load bytes 7
  let packing ← load bytes 36
  let camera ← load bytes 37
  let mode ← load bytes 38
  let reserved ← load bytes 39
  return decide (depth ≠ 12 ∨ bayer > 3 ∨ packing ≠ 2 ∨ camera > 3 ∨ mode > 4 ∨ reserved ≠ 0)

def checkTiming (bytes : List UInt8) : Checked Unit := do
  let mode ← load bytes 38
  let low ← rawHeaderLe32 bytes 40
  let high ← rawHeaderLe32 bytes 44
  if validProfileTiming mode (rawStamp low high) then return
  else .error (.thrown "invalid RAW12 timing association")

/-- The image the header describes. -/
def describe (bytes : List UInt8) (envelope : Raw12Header) (packed : List UInt8) :
    Checked Raw12Image := do
  let width ← rawHeaderLe32 bytes 8
  let height ← rawHeaderLe32 bytes 12
  let frameId ← rawHeaderLe32 bytes 24
  let exposureUs ← rawHeaderLe32 bytes 28
  let gainX1024 ← rawHeaderLe32 bytes 32
  let camera ← load bytes 37
  let bayer ← load bytes 7
  let timingMode ← load bytes 38
  let low ← rawHeaderLe32 bytes 40
  let high ← rawHeaderLe32 bytes 44
  return { width, height, frameId, exposureUs, gainX1024, camera, bayer, timingMode, packed
           sourceTimestampUs := rawStamp low high, triggerSequence := envelope.triggerSequence }

/-! ### Zstandard -/

/-- The functions of the library that are called. Each sees the bytes and the sizes it is
passed; decompression fills a buffer of the given capacity, and cannot change its size. -/
structure Zstd where
  getFrameContentSize : List UInt8 → ℕ
  findFrameCompressedSize : List UInt8 → ℕ
  decompress : (capacity : ℕ) → List UInt8 → ℕ × {dst : List UInt8 // dst.length = capacity}
  isError : ℕ → Bool
  getErrorName : ℕ → String

def checkZstdHeader (bytes : List UInt8) : Checked Unit :=
  if bytes.length < 49 ∨ bytes.length > kProfileImageLimit then
    .error (.thrown "invalid RAW12 header")
  else do
    let magic ← hasMagic bytes prz1
    let bad ← badFields bytes
    if magic = false ∨ bad then .error (.thrown "invalid RAW12 header") else return

def checkZstdGeometry (bytes : List UInt8) : Checked Unit := do
  let width ← rawHeaderLe32 bytes 8
  let height ← rawHeaderLe32 bytes 12
  let size ← rawHeaderLe32 bytes 16
  if width ≠ 5120 ∨ height ≠ 3072 ∨ size ≠ 23592960 then
    .error (.thrown "unsupported RAW12 geometry")
  else return

/-- What `decodeRaw12Zstd` does after the checks on the header. -/
def decompressPayload (z : Zstd) (bytes : List UInt8) (envelope : Raw12Header) :
    Checked Raw12Image := do
  let size ← rawHeaderLe32 bytes 16
  let payload ← loadAll bytes envelope.bytes (bytes.length - envelope.bytes)
  if z.getFrameContentSize payload ≠ size.toNat ∨
      z.findFrameCompressedSize payload ≠ bytes.length - envelope.bytes then
    .error (.thrown "invalid RAW12 compressed size")
  else
    let (n, packed) := z.decompress size.toNat payload
    if z.isError n then .error (.thrown ("RAW12 decompression: " ++ z.getErrorName n))
    else if n ≠ size.toNat then .error (.thrown "RAW12 decompressed length mismatch")
    else
      let crc := rawCrc32 packed.val
      let expected ← rawHeaderLe32 bytes 20
      if crc ≠ expected then
        .error (.thrown ("RAW12 CRC mismatch: actual=" ++ toString crc.toNat ++ " expected=" ++
          toString expected.toNat))
      else describe bytes envelope packed.val

def decodeRaw12Zstd (z : Zstd) (bytes : List UInt8) : Checked Raw12Image := do
  let envelope ← parseRaw12Header (some bytes) bytes.length kRaw12Zstd
  checkZstdHeader bytes
  checkTiming bytes
  checkZstdGeometry bytes
  decompressPayload z bytes envelope

/-! ### Rice -/

def pixels : ℕ := 5120 * 3072

def checkRiceHeader (bytes : List UInt8) : Checked Unit :=
  if bytes.length < 65 ∨ bytes.length > kProfileImageLimit then
    .error (.thrown "invalid GPU RAW12 header")
  else do
    let magic ← hasMagic bytes prg1
    let bad ← badFields bytes
    let reserved ← rawHeaderLe32 bytes 60
    if magic = false ∨ bad ∨ reserved ≠ 0 then .error (.thrown "invalid GPU RAW12 header")
    else return

/-- The geometry and the sizes the header gives disagree with the code. -/
def badGeometry (bytes : List UInt8) (envelope : Raw12Header) : Checked Bool := do
  let width ← rawHeaderLe32 bytes 8
  let height ← rawHeaderLe32 bytes 12
  let size ← rawHeaderLe32 bytes 16
  let block ← rawHeaderLe32 bytes 52
  let encoded ← rawHeaderLe32 bytes 56
  return decide (width ≠ 5120 ∨ height ≠ 3072 ∨ size ≠ 23592960 ∨ block ≠ 256 ∨
    encoded.toNat ≠ bytes.length - envelope.bytes)

def badEncodedCrc (bytes : List UInt8) (envelope : Raw12Header) : Checked Bool := do
  let payload ← loadAll bytes envelope.bytes (bytes.length - envelope.bytes)
  let crc ← rawHeaderLe32 bytes 48
  return decide (rawCrc32 payload ≠ crc)

def checkRiceSize (bytes : List UInt8) (envelope : Raw12Header) : Checked Unit := do
  let geometry ← badGeometry bytes envelope
  let crc ← badEncodedCrc bytes envelope
  if geometry ∨ crc then .error (.thrown "invalid GPU RAW12 size or encoded CRC") else return

/-- The loop over the first `n` blocks, from the end of the header. -/
def decodeBlocks (bytes : List UInt8) (header n : ℕ) : Checked (ℕ × List UInt8) :=
  (List.range' 0 n 256).foldlM (fun (position, u16) base => decodeBlock bytes position base u16)
    (header, List.replicate (pixels * 2) 0)

/-- The body of the packing loop. -/
def packPair (u16 packed : List UInt8) (i : ℕ) : Checked (List UInt8) := do
  let a := (← load u16 (2 * i)).toNat ||| (← load u16 (2 * i + 1)).toNat <<< 8
  let b := (← load u16 (2 * i + 2)).toNat ||| (← load u16 (2 * i + 3)).toNat <<< 8
  let packed ← save packed (i / 2 * 3) (UInt8.ofNat (a >>> 4))
  let packed ← save packed (i / 2 * 3 + 1) (UInt8.ofNat (b >>> 4))
  save packed (i / 2 * 3 + 2) (UInt8.ofNat (a &&& 15 ||| (b &&& 15) <<< 4))

/-- The loop over `n` pixels, two at a time. -/
def packRaw12 (u16 : List UInt8) (n : ℕ) : Checked (List UInt8) :=
  (List.range' 0 ((n + 1) / 2) 2).foldlM (packPair u16) (List.replicate (n / 2 * 3) 0)

/-- What `decodeRaw12Rice` does after the checks on the header and the encoded bytes. -/
def decodePayload (bytes : List UInt8) (envelope : Raw12Header) : Checked Raw12Image := do
  let (position, u16) ← decodeBlocks bytes envelope.bytes (pixels / 256)
  let expected ← rawHeaderLe32 bytes 20
  if position ≠ bytes.length ∨ rawCrc32 u16 ≠ expected then
    .error (.thrown "RAW12 decoded CRC or length mismatch")
  else
    let packed ← packRaw12 u16 pixels
    describe bytes envelope packed

def decodeRaw12Rice (bytes : List UInt8) : Checked Raw12Image := do
  let envelope ← parseRaw12Header (some bytes) bytes.length kRaw12Rice
  checkRiceHeader bytes
  checkTiming bytes
  checkRiceSize bytes envelope
  decodePayload bytes envelope

def decodeRaw12 (z : Zstd) (bytes : List UInt8) (format : UInt8) : Checked Raw12Image := do
  if bytes.length < 4 then .error (.thrown "truncated RAW12 envelope")
  else
    let zstd ← hasMagic bytes prz1
    let rice ← hasMagic bytes prg1
    if (format = 0 ∨ format = kRaw12Zstd) ∧ zstd then decodeRaw12Zstd z bytes
    else if (format = 0 ∨ format = kRaw12Rice) ∧ rice then decodeRaw12Rice bytes
    else .error (.thrown "RAW12 format/header mismatch")

/-- The pixel with this index. -/
def raw12Pixel (r : Raw12Image) (index : ℕ) : Checked UInt16 := do
  let high ← load r.packed (index / 2 * 3 + (index &&& 1))
  let low ← load r.packed (index / 2 * 3 + 2)
  return UInt16.ofNat (high.toNat * 16 +
    if index &&& 1 ≠ 0 then (low >>> 4).toNat else (low &&& 15).toNat)

end PrismSdk.ProfileVideo
