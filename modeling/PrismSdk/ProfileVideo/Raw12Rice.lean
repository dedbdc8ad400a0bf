import PrismSdk.Library.Checked
import PrismSdk.Library.PrefixCode
import PrismSdk.Library.Residual

/-! One block of `decodeRaw12Rice` in `profile_video.hpp`: 256 samples of 12 bits,
stored as they are or predicted from the sample two before, their residuals in a
fixed number of bits or in a Rice code. -/

namespace PrismSdk.ProfileVideo.Raw12Rice

open Library (Checked Fault PrefixCode)
open Library.Checked (load save)

/-- The bits of a block are the `length` bytes at `data`. -/
structure BlockData where
  bytes : List UInt8
  data : ℕ
  length : ℕ

structure BitReader where
  pos : ℕ := 0
  bits : UInt32 := 0
  held : ℕ := 0
  deriving DecidableEq

/-- The loop of `take`. -/
def refill (d : BlockData) (count : ℕ) (r : BitReader) : Checked BitReader :=
  if r.held < count then
    if r.pos ≥ d.length then .error (.thrown "truncated RAW12 bits")
    else do
      let byte ← load d.bytes (d.data + r.pos)
      refill d count
        { pos := r.pos + 1
          bits := r.bits ||| byte.toUInt32 <<< UInt32.ofNat r.held
          held := r.held + 8 }
  else .ok r
termination_by count - r.held

def take (d : BlockData) (count : ℕ) (r : BitReader) : Checked (ℕ × BitReader) := do
  let r ← refill d count r
  let value := r.bits &&& ((1 <<< UInt32.ofNat count) - 1)
  return (value.toNat,
    { r with bits := r.bits >>> UInt32.ofNat count, held := r.held - count })

/-- The unary loop. -/
def takeZeros (d : BlockData) (k zeros : ℕ) (r : BitReader) : Checked (ℕ × BitReader) := do
  let (bit, r) ← take d 1 r
  if bit ≠ 0 then return (zeros, r)
  else if zeros + 1 > 4095 >>> k then .error (.thrown "Rice quotient overflow")
  else takeZeros d k (zeros + 1) r
termination_by 4096 - zeros
decreasing_by
  have := Nat.shiftRight_le 4095 k
  omega

def takeResidual (d : BlockData) (mode k : ℕ) (r : BitReader) : Checked (ℕ × BitReader) :=
  if mode ≥ 32 then do
    let (zeros, r) ← takeZeros d k 0 r
    let (low, r) ← take d k r
    return (zeros <<< k ||| low, r)
  else take d mode r

structure BlockState where
  reader : BitReader := {}
  previous : Fin 2 → UInt16 := fun _ => 0
  u16 : List UInt8

/-- The lane of a sample, `i & 1`. -/
def lane (i : ℕ) : Fin 2 := Fin.ofNat 2 i

def store (base i value : ℕ) (s : BlockState) : Checked BlockState := do
  let u16 ← save s.u16 (2 * (base + i)) (UInt8.ofNat value)
  let u16 ← save u16 (2 * (base + i) + 1) (UInt8.ofNat (value >>> 8))
  return { s with
    u16 := u16
    previous := Function.update s.previous (lane i) (UInt16.ofNat value) }

def delta (q : ℕ) : ℤ := if q &&& 1 ≠ 0 then -((q + 1) / 2 : ℕ) else (q / 2 : ℕ)

/-- The sum is an `int`, and its conversion to `unsigned` wraps. -/
def predicted (previous : UInt16) (q : ℕ) : ℕ :=
  (((previous.toNat : ℤ) + delta q) % 2 ^ 32).toNat &&& 4095

/-- The body of the loop over the samples. -/
def decodeSample (d : BlockData) (mode k base : ℕ) (s : BlockState) (i : ℕ) :
    Checked BlockState := do
  let (q, reader) ← takeResidual d mode k s.reader
  if q > 4095 then .error (.thrown "RAW12 residual overflow")
  else
    let value := if mode = 12 then q else predicted (s.previous (lane i)) q
    store base i value { s with reader := reader }

def firstSample (mode : ℕ) : ℕ := if mode = 12 then 0 else 2

def decodeSamples (d : BlockData) (mode k base : ℕ) (s : BlockState) : Checked BlockState :=
  (List.range' (firstSample mode) (256 - firstSample mode)).foldlM (decodeSample d mode k base) s

/-- The first two samples of a predicted block stand in its header. -/
def storeSeeds (bytes : List UInt8) (position mode base : ℕ) (s : BlockState) :
    Checked BlockState :=
  if mode ≠ 12 then do
    let seed := position + if mode ≥ 32 then 3 else 1
    let a := (← load bytes seed).toNat ||| (← load bytes (seed + 1)).toNat <<< 8
    let b := (← load bytes (seed + 2)).toNat ||| (← load bytes (seed + 3)).toNat <<< 8
    if a > 4095 ∨ b > 4095 then .error (.thrown "invalid RAW12 seed")
    else
      let s ← store base 0 a s
      store base 1 b s
  else .ok s

def checkPadding (d : BlockData) (r : BitReader) : Checked Unit :=
  if r.pos ≠ d.length ∨ r.held ≥ 8 ∨ r.bits ≠ 0 then
    .error (.thrown "noncanonical RAW12 padding")
  else .ok ()

/-- What follows the header of a block. -/
def decodeBody (d : BlockData) (mode k base : ℕ) (s : BlockState) : Checked (List UInt8) := do
  let s ← decodeSamples d mode k base s
  checkPadding d s.reader
  return s.u16

def LegalMode (mode : ℕ) : Prop := mode ≤ 12 ∨ 32 ≤ mode ∧ mode ≤ 43

instance (mode : ℕ) : Decidable (LegalMode mode) := inferInstanceAs (Decidable (_ ∨ _))

/-- `k`. -/
def shiftOf (mode : ℕ) : ℕ := if mode ≥ 32 then mode - 32 else 0

/-- The sizes of a block: of its header, and of all of it. -/
def blockSize (bytes : List UInt8) (position mode : ℕ) : Checked (ℕ × ℕ) :=
  if mode ≥ 32 then
    if bytes.length - position < 7 then .error (.thrown "truncated Rice header")
    else do
      let low ← load bytes (position + 1)
      let high ← load bytes (position + 2)
      return (7, 7 + low.toNat + high.toNat <<< 8)
  else return (if mode = 12 then 1 else 5, if mode = 12 then 385 else 5 + ((256 - 2) * mode + 7) / 8)

/-- One iteration of the block loop, from `position` (`at`): the position after the
block, and the buffer with its samples. -/
def decodeBlock (bytes : List UInt8) (position base : ℕ) (u16 : List UInt8) :
    Checked (ℕ × List UInt8) := do
  if position ≥ bytes.length then .error (.thrown "truncated RAW12 block")
  else
    let mode := (← load bytes position).toNat
    let k := shiftOf mode
    if ¬ LegalMode mode then .error (.thrown "invalid RAW12 block mode")
    else
      let (header, n) ← blockSize bytes position mode
      if n < header ∨ n > 385 ∨ n > bytes.length - position then
        .error (.thrown "invalid RAW12 block size")
      else
        let d : BlockData := { bytes := bytes, data := position + header, length := n - header }
        let s ← storeSeeds bytes position mode base { u16 := u16 }
        let u16 ← decodeBody d mode k base s
        return (position + n, u16)

end PrismSdk.ProfileVideo.Raw12Rice
