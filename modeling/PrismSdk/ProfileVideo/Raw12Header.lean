import PrismSdk.Library.Checked
import PrismSdk.ProfileVideo.Crc32

/-! `parseRaw12Header` of `raw12_header.hpp`: the header of a RAW12 envelope, of 48 or 64
bytes, or 16 more in version 2, which adds the trigger group and a checksum. What the
parser accepts is a condition on these bytes and on the size of the envelope. -/

namespace PrismSdk.ProfileVideo

open Library (Checked Fault)
open Library.Checked (load loadAll)

structure Raw12Header where
  bytes : ℕ := 0
  triggerSequence : UInt32 := 0
  deriving DecidableEq

def rawHeaderLe32 (p : List UInt8) (i : ℕ) : Checked UInt32 := do
  let p0 ← load p i
  let p1 ← load p (i + 1)
  let p2 ← load p (i + 2)
  let p3 ← load p (i + 3)
  return rawLe32 p0 p1 p2 p3

/-- The bytes of "PRG1". -/
def prg1 : List UInt8 := [0x50, 0x52, 0x47, 0x31]

/-- The bytes of "PRZ1". -/
def prz1 : List UInt8 := [0x50, 0x52, 0x5a, 0x31]

/-- `!std::memcmp(p, magic, 4)`. -/
def hasMagic (p magic : List UInt8) : Checked Bool := do
  let start ← loadAll p 0 4
  return decide (start = magic)

/-- The two halves of a timestamp. -/
def rawStamp (low high : UInt32) : UInt64 := low.toUInt64 ||| high.toUInt64 <<< 32

def invalidEnvelope : Fault := .thrown "Invalid RAW12 envelope header/group CRC"

def require (ok : Prop) [Decidable ok] : Checked Unit :=
  if ok then .ok () else .error invalidEnvelope

/-- The depth, the Bayer order, the camera and the geometry. -/
def requireImage (p : List UInt8) : Checked Unit := do
  let depth ← load p 6
  let bayer ← load p 7
  let packing ← load p 36
  let camera ← load p 37
  let reserved ← load p 39
  let width ← rawHeaderLe32 p 8
  let height ← rawHeaderLe32 p 12
  let size ← rawHeaderLe32 p 16
  require (depth = 12 ∧ bayer ≤ 3 ∧ packing = 2 ∧ camera < 4 ∧ reserved = 0 ∧ width = 5120 ∧
    height = 3072 ∧ size = 23592960)

def requireTiming (p : List UInt8) : Checked Unit := do
  let low ← rawHeaderLe32 p 40
  let high ← rawHeaderLe32 p 44
  let mode ← load p 38
  require (mode = 0 ∧ rawStamp low high = 0 ∨ 1 ≤ mode ∧ mode ≤ 3 ∨
    mode = 4 ∧ rawStamp low high ≠ 0)

/-- The fields only a Rice envelope has. -/
def requireRice (p : List UInt8) (rice : Bool) (header total : ℕ) : Checked Unit :=
  if rice then do
    let block ← rawHeaderLe32 p 52
    let size ← rawHeaderLe32 p 56
    let reserved ← rawHeaderLe32 p 60
    require (block = 256 ∧ size.toNat = total - header ∧ reserved = 0)
  else .ok ()

/-- The trigger group of a version 2 header. -/
def parseExtension (p : List UInt8) (extended : Bool) (legacy header : ℕ) : Checked UInt32 :=
  if extended then do
    let trigger ← rawHeaderLe32 p legacy
    let reserved ← rawHeaderLe32 p (legacy + 4)
    let reserved' ← rawHeaderLe32 p (legacy + 8)
    let start ← loadAll p 0 (header - 4)
    let crc ← rawHeaderLe32 p (header - 4)
    require (reserved = 0 ∧ reserved' = 0 ∧ rawHeaderCrc32 start = crc)
    let mode ← load p 38
    require (mode = 4 ∧ trigger ≠ 0 ∨ mode = 0 ∧ trigger = 0)
    return trigger
  else .ok 0

/-- The pointer is `none` when null, and otherwise stands for the `available` bytes at it. -/
def parseRaw12Header (p : Option (List UInt8)) (total : ℕ) (format : UInt8) :
    Checked Raw12Header :=
  match p with
  | none => .error invalidEnvelope
  | some p => do
    require (p.length ≥ 8 ∧ total ≤ 32 * 1024 * 1024)
    let rice ← hasMagic p prg1
    let zstd ← hasMagic p prz1
    require ((rice ∨ zstd) ∧ (format = 0 ∨ format = if rice then 4 else 3))
    let version ← load p 4
    let extended := decide (version = 2)
    require (version = 1 ∨ extended)
    let legacy := if rice then 64 else 48
    let header := legacy + if extended then 16 else 0
    let size ← load p 5
    require (size.toNat = header ∧ p.length ≥ header ∧ total > header)
    requireImage p
    requireTiming p
    requireRice p rice header total
    let trigger ← parseExtension p extended legacy header
    return { bytes := header, triggerSequence := trigger }

/-! ### What is accepted -/

/-- The number four bytes of the header stand for. -/
def le32At (p : List UInt8) (i : ℕ) : UInt32 :=
  rawLe32 (p.getD i 0) (p.getD (i + 1) 0) (p.getD (i + 2) 0) (p.getD (i + 3) 0)

/-- The four bytes of a number. -/
def le32 (v : UInt32) : List UInt8 :=
  [v.toUInt8, (v >>> 8).toUInt8, (v >>> 16).toUInt8, (v >>> 24).toUInt8]

theorem rawLe32_le32 (v : UInt32) : rawLe32 v.toUInt8 (v >>> 8).toUInt8 (v >>> 16).toUInt8
    (v >>> 24).toUInt8 = v := by
  have hbyte : ∀ x : BitVec 32, (x.setWidth 8).setWidth 32 = x &&& 255#32 := fun x => by
    refine BitVec.eq_of_getLsbD_eq fun i hi => ?_
    rw [and_255, Library.Crc.getLsbD_low (by decide)]
    simp [hi]
  have htop : v.toBitVec >>> 24 &&& 255#32 = v.toBitVec >>> 24 := by
    refine BitVec.eq_of_getLsbD_eq fun i hi => ?_
    rw [and_255, Library.Crc.getLsbD_low (by decide)]
    by_cases h : i < 8
    · simp [h]
    · simp [h, BitVec.getLsbD_of_ge v.toBitVec (24 + i) (by omega)]
  apply UInt32.toBitVec_inj.1
  rw [toBitVec_rawLe32]
  conv_rhs => rw [eq_bytes v.toBitVec, ← htop, ← hbyte, ← hbyte, ← hbyte, ← hbyte]
  simp only [Library.Crc.littleEndian, BitVec.shiftLeft_xor_distrib, ← BitVec.shiftLeft_add,
    BitVec.xor_assoc]
  simp

def isRice (p : List UInt8) : Bool := decide (p.take 4 = prg1)

def isExtended (p : List UInt8) : Bool := decide (p.getD 4 0 = 2)

/-- `legacy`. -/
def legacyBytes (p : List UInt8) : ℕ := if isRice p then 64 else 48

/-- `header`. -/
def headerBytes (p : List UInt8) : ℕ := legacyBytes p + if isExtended p then 16 else 0

def headerTrigger (p : List UInt8) : UInt32 := if isExtended p then le32At p (legacyBytes p) else 0

def headerStamp (p : List UInt8) : UInt64 := rawStamp (le32At p 40) (le32At p 44)

def ImageAccepted (p : List UInt8) : Prop :=
  p.getD 6 0 = 12 ∧ p.getD 7 0 ≤ 3 ∧ p.getD 36 0 = 2 ∧ p.getD 37 0 < 4 ∧ p.getD 39 0 = 0 ∧
    le32At p 8 = 5120 ∧ le32At p 12 = 3072 ∧ le32At p 16 = 23592960

def TimingAccepted (p : List UInt8) : Prop :=
  p.getD 38 0 = 0 ∧ headerStamp p = 0 ∨ 1 ≤ p.getD 38 0 ∧ p.getD 38 0 ≤ 3 ∨
    p.getD 38 0 = 4 ∧ headerStamp p ≠ 0

def RiceAccepted (p : List UInt8) (total : ℕ) : Prop :=
  le32At p 52 = 256 ∧ (le32At p 56).toNat = total - headerBytes p ∧ le32At p 60 = 0

def ExtensionAccepted (p : List UInt8) : Prop :=
  (le32At p (legacyBytes p + 4) = 0 ∧ le32At p (legacyBytes p + 8) = 0 ∧
    rawHeaderCrc32 (p.take (headerBytes p - 4)) = le32At p (headerBytes p - 4)) ∧
    (p.getD 38 0 = 4 ∧ headerTrigger p ≠ 0 ∨ p.getD 38 0 = 0 ∧ headerTrigger p = 0)

/-- The condition the parser checks. -/
structure HeaderAccepted (p : List UInt8) (total : ℕ) (format : UInt8) : Prop where
  magic : p.take 4 = prg1 ∨ p.take 4 = prz1
  format : format = 0 ∨ format = if isRice p then 4 else 3
  version : p.getD 4 0 = 1 ∨ p.getD 4 0 = 2
  size : (p.getD 5 0).toNat = headerBytes p
  available : headerBytes p ≤ p.length
  payload : headerBytes p < total
  limit : total ≤ 32 * 1024 * 1024
  image : ImageAccepted p
  timing : TimingAccepted p
  rice : isRice p = true → RiceAccepted p total
  extension : isExtended p = true → ExtensionAccepted p

theorem require_pos {ok : Prop} [Decidable ok] (h : ok) : require ok = .ok () := if_pos h

theorem require_neg {ok : Prop} [Decidable ok] (h : ¬ ok) : require ok = .error invalidEnvelope :=
  if_neg h

theorem require_congr {a b : Prop} [Decidable a] [Decidable b] (h : a ↔ b) :
    require a = require b := by
  unfold require
  simp only [h]

variable {p : List UInt8} {total : ℕ} {format : UInt8}

theorem legacyBytes_cases (p : List UInt8) : legacyBytes p = 48 ∨ legacyBytes p = 64 := by
  unfold legacyBytes
  split_ifs <;> simp

theorem le_headerBytes (p : List UInt8) : legacyBytes p ≤ headerBytes p := Nat.le_add_right _ _

theorem rawHeaderLe32_of_le {i : ℕ} (h : i + 4 ≤ p.length) :
    rawHeaderLe32 p i = .ok (le32At p i) := by
  unfold rawHeaderLe32
  rw [Library.Checked.load_of_lt (show i < p.length by omega),
    Library.Checked.load_of_lt (show i + 1 < p.length by omega),
    Library.Checked.load_of_lt (show i + 2 < p.length by omega),
    Library.Checked.load_of_lt (show i + 3 < p.length by omega)]
  rfl

theorem hasMagic_of_le (h : 4 ≤ p.length) (magic : List UInt8) :
    hasMagic p magic = .ok (decide (p.take 4 = magic)) := by
  unfold hasMagic
  rw [Library.Checked.loadAll_of_le (by omega)]
  rfl

theorem requireImage_eq (h : 48 ≤ p.length) [Decidable (ImageAccepted p)] :
    requireImage p = require (ImageAccepted p) := by
  unfold requireImage
  rw [Library.Checked.load_of_lt (show 6 < p.length by omega),
    Library.Checked.load_of_lt (show 7 < p.length by omega),
    Library.Checked.load_of_lt (show 36 < p.length by omega),
    Library.Checked.load_of_lt (show 37 < p.length by omega),
    Library.Checked.load_of_lt (show 39 < p.length by omega),
    rawHeaderLe32_of_le (show 8 + 4 ≤ p.length by omega),
    rawHeaderLe32_of_le (show 12 + 4 ≤ p.length by omega),
    rawHeaderLe32_of_le (show 16 + 4 ≤ p.length by omega)]
  simp only [Library.Checked.ok_bind, require]
  congr

theorem requireTiming_eq (h : 48 ≤ p.length) [Decidable (TimingAccepted p)] :
    requireTiming p = require (TimingAccepted p) := by
  unfold requireTiming
  rw [rawHeaderLe32_of_le (show 40 + 4 ≤ p.length by omega),
    rawHeaderLe32_of_le (show 44 + 4 ≤ p.length by omega),
    Library.Checked.load_of_lt (show 38 < p.length by omega)]
  simp only [Library.Checked.ok_bind, require]
  congr

theorem requireRice_eq (h : headerBytes p ≤ p.length)
    [Decidable (isRice p = true → RiceAccepted p total)] :
    requireRice p (isRice p) (headerBytes p) total =
      require (isRice p = true → RiceAccepted p total) := by
  unfold requireRice
  by_cases hrice : isRice p = true
  · have hlegacy : legacyBytes p = 64 := if_pos hrice
    have hle := le_headerBytes p
    rw [if_pos hrice, rawHeaderLe32_of_le (show 52 + 4 ≤ p.length by omega),
      rawHeaderLe32_of_le (show 56 + 4 ≤ p.length by omega),
      rawHeaderLe32_of_le (show 60 + 4 ≤ p.length by omega)]
    exact require_congr (by simp only [hrice, true_imp_iff, RiceAccepted])
  · rw [if_neg hrice, require_pos fun hyes => absurd hyes hrice]

theorem parseExtension_eq (h : headerBytes p ≤ p.length)
    [Decidable (isExtended p = true → ExtensionAccepted p)] :
    parseExtension p (isExtended p) (legacyBytes p) (headerBytes p) =
      require (isExtended p = true → ExtensionAccepted p) >>= fun _ => .ok (headerTrigger p) := by
  unfold parseExtension
  by_cases hextended : isExtended p = true
  case neg =>
    rw [if_neg hextended, require_pos fun hyes => absurd hyes hextended, headerTrigger,
      if_neg hextended]
    rfl
  have hlegacy := legacyBytes_cases p
  have hheader : headerBytes p = legacyBytes p + 16 := by rw [headerBytes, if_pos hextended]
  have htrigger : headerTrigger p = le32At p (legacyBytes p) := if_pos hextended
  rw [if_pos hextended, rawHeaderLe32_of_le (show legacyBytes p + 4 ≤ p.length by omega),
    rawHeaderLe32_of_le (show legacyBytes p + 4 + 4 ≤ p.length by omega),
    rawHeaderLe32_of_le (show legacyBytes p + 8 + 4 ≤ p.length by omega),
    Library.Checked.loadAll_of_le (show 0 + (headerBytes p - 4) ≤ p.length by omega),
    rawHeaderLe32_of_le (show headerBytes p - 4 + 4 ≤ p.length by omega),
    Library.Checked.load_of_lt (show 38 < p.length by omega), List.drop_zero, ← htrigger]
  simp only [Library.Checked.ok_bind]
  by_cases hfields : le32At p (legacyBytes p + 4) = 0 ∧ le32At p (legacyBytes p + 8) = 0 ∧
      rawHeaderCrc32 (p.take (headerBytes p - 4)) = le32At p (headerBytes p - 4)
  case neg =>
    rw [require_neg hfields, require_neg (show ¬ (isExtended p = true → ExtensionAccepted p) from
      fun haccepted => hfields (haccepted hextended).1)]
    rfl
  rw [require_pos hfields, Library.Checked.ok_bind]
  by_cases hmode : p.getD 38 0 = 4 ∧ headerTrigger p ≠ 0 ∨ p.getD 38 0 = 0 ∧ headerTrigger p = 0
  case neg =>
    rw [require_neg hmode, require_neg (show ¬ (isExtended p = true → ExtensionAccepted p) from
      fun haccepted => hmode (haccepted hextended).2)]
    rfl
  rw [require_pos hmode, require_pos (show isExtended p = true → ExtensionAccepted p from
    fun _ => ⟨hfields, hmode⟩)]
  rfl

/-- Eight bytes fix which checks are made. -/
theorem parseRaw12Header_eq (h : 8 ≤ p.length) : parseRaw12Header (some p) total format = do
    require (p.length ≥ 8 ∧ total ≤ 32 * 1024 * 1024)
    require ((decide (p.take 4 = prg1) ∨ decide (p.take 4 = prz1)) ∧
      (format = 0 ∨ format = if isRice p then 4 else 3))
    require (p.getD 4 0 = 1 ∨ isExtended p)
    require ((p.getD 5 0).toNat = headerBytes p ∧ p.length ≥ headerBytes p ∧ total > headerBytes p)
    requireImage p
    requireTiming p
    requireRice p (isRice p) (headerBytes p) total
    let trigger ← parseExtension p (isExtended p) (legacyBytes p) (headerBytes p)
    return { bytes := headerBytes p, triggerSequence := trigger } := by
  unfold parseRaw12Header
  simp only [hasMagic_of_le (show 4 ≤ p.length by omega),
    Library.Checked.load_of_lt (show 4 < p.length by omega),
    Library.Checked.load_of_lt (show 5 < p.length by omega), Library.Checked.ok_bind]
  rfl

theorem HeaderAccepted.eight_le (h : HeaderAccepted p total format) : 8 ≤ p.length := by
  have hlegacy := legacyBytes_cases p
  have hle := le_headerBytes p
  have havailable := h.available
  omega

/-- What meets the condition is accepted. -/
theorem HeaderAccepted.parse (h : HeaderAccepted p total format) :
    parseRaw12Header (some p) total format = .ok ⟨headerBytes p, headerTrigger p⟩ := by
  classical
  have hlegacy := legacyBytes_cases p
  have hle := le_headerBytes p
  have havailable := h.available
  have hmagic : (decide (p.take 4 = prg1) ∨ decide (p.take 4 = prz1) : Prop) := by
    simpa using h.magic
  have hversion : p.getD 4 0 = 1 ∨ isExtended p = true := by
    simpa [isExtended] using h.version
  rw [parseRaw12Header_eq h.eight_le, require_pos ⟨h.eight_le, h.limit⟩,
    require_pos ⟨hmagic, h.format⟩, require_pos hversion,
    require_pos ⟨h.size, havailable, h.payload⟩, requireImage_eq (by omega), require_pos h.image,
    requireTiming_eq (by omega), require_pos h.timing, requireRice_eq havailable,
    require_pos h.rice, parseExtension_eq havailable, require_pos h.extension]
  rfl

/-- What does not is refused, by the one exception of the parser. -/
theorem parse_of_not_accepted (h : ¬ HeaderAccepted p total format) :
    parseRaw12Header (some p) total format = .error invalidEnvelope := by
  classical
  have hlegacy := legacyBytes_cases p
  have hle := le_headerBytes p
  by_cases hstart : p.length ≥ 8 ∧ total ≤ 32 * 1024 * 1024
  case neg =>
    show require _ >>= _ = _
    rw [require_neg hstart]
    rfl
  rw [parseRaw12Header_eq hstart.1, require_pos hstart]
  by_cases hmagic : (decide (p.take 4 = prg1) ∨ decide (p.take 4 = prz1)) ∧
      (format = 0 ∨ format = if isRice p then 4 else 3)
  case neg =>
    rw [require_neg hmagic]
    rfl
  rw [require_pos hmagic]
  by_cases hversion : p.getD 4 0 = 1 ∨ isExtended p
  case neg =>
    rw [require_neg hversion]
    rfl
  rw [require_pos hversion]
  by_cases hsize : (p.getD 5 0).toNat = headerBytes p ∧ p.length ≥ headerBytes p ∧
      total > headerBytes p
  case neg =>
    rw [require_neg hsize]
    rfl
  rw [require_pos hsize, requireImage_eq (by omega), requireTiming_eq (by omega),
    requireRice_eq hsize.2.1, parseExtension_eq hsize.2.1]
  by_cases himage : ImageAccepted p
  case neg =>
    rw [require_neg himage]
    rfl
  rw [require_pos himage]
  by_cases htiming : TimingAccepted p
  case neg =>
    rw [require_neg htiming]
    rfl
  rw [require_pos htiming]
  by_cases hrice : isRice p = true → RiceAccepted p total
  case neg =>
    rw [require_neg hrice]
    rfl
  rw [require_pos hrice, require_neg]
  · rfl
  · intro hextension
    exact h ⟨by simpa using hmagic.1, hmagic.2, by simpa [isExtended] using hversion, hsize.1,
      hsize.2.1, hsize.2.2, hstart.2, himage, htiming, hrice, hextension⟩

/-- The parser accepts exactly the headers that meet the condition. -/
theorem parseRaw12Header_iff (p : Option (List UInt8)) (total : ℕ) (format : UInt8)
    (header : Raw12Header) : parseRaw12Header p total format = .ok header ↔
      ∃ bytes, p = some bytes ∧ HeaderAccepted bytes total format ∧
        header = ⟨headerBytes bytes, headerTrigger bytes⟩ := by
  constructor
  · intro h
    cases p with
    | none => cases h
    | some bytes =>
      by_cases haccepted : HeaderAccepted bytes total format
      · rw [haccepted.parse] at h
        cases h
        exact ⟨bytes, rfl, haccepted, rfl⟩
      · rw [parse_of_not_accepted haccepted] at h
        cases h
  · rintro ⟨bytes, rfl, haccepted, rfl⟩
    exact haccepted.parse

theorem parse_eq_error (p : Option (List UInt8)) (total : ℕ) (format : UInt8) {fault : Fault}
    (h : parseRaw12Header p total format = .error fault) : fault = invalidEnvelope := by
  cases p with
  | none => exact (Except.error.inj h).symm
  | some bytes =>
    by_cases haccepted : HeaderAccepted bytes total format
    · rw [haccepted.parse] at h
      cases h
    · rw [parse_of_not_accepted haccepted] at h
      exact (Except.error.inj h).symm

/-! ### The fields of the image -/

/-- The fields from the depth to the timestamp are the same in `q` as in `p`. -/
def SameFields (p q : List UInt8) : Prop := ∀ i, 6 ≤ i → i < 48 → q.getD i 0 = p.getD i 0

namespace SameFields

variable {q : List UInt8}

theorem le32At (h : SameFields p q) {i : ℕ} (h6 : 6 ≤ i) (hi : i ≤ 44) :
    ProfileVideo.le32At q i = ProfileVideo.le32At p i := by
  unfold ProfileVideo.le32At
  rw [h i (by omega) (by omega), h (i + 1) (by omega) (by omega), h (i + 2) (by omega) (by omega),
    h (i + 3) (by omega) (by omega)]

theorem headerStamp (h : SameFields p q) :
    ProfileVideo.headerStamp q = ProfileVideo.headerStamp p := by
  unfold ProfileVideo.headerStamp
  rw [h.le32At (by decide) (by decide), h.le32At (by decide) (by decide)]

theorem imageAccepted (h : SameFields p q) (hp : ImageAccepted p) : ImageAccepted q := by
  unfold ImageAccepted
  rw [h 6 (by decide) (by decide), h 7 (by decide) (by decide), h 36 (by decide) (by decide),
    h 37 (by decide) (by decide), h 39 (by decide) (by decide), h.le32At (by decide) (by decide),
    h.le32At (by decide) (by decide), h.le32At (by decide) (by decide)]
  exact hp

theorem timingAccepted (h : SameFields p q) (hp : TimingAccepted p) : TimingAccepted q := by
  unfold TimingAccepted
  rw [h 38 (by decide) (by decide), h.headerStamp]
  exact hp

end SameFields

/-! ### The header alone -/

/-- Bytes that agree with a header on its length. -/
theorem getD_of_take_eq {q : List UInt8} {n i : ℕ} (h : q.take n = p.take n) (hi : i < n) :
    q.getD i 0 = p.getD i 0 := by
  have hget := congrArg (·[i]?) h
  simp only [List.getElem?_take, if_pos hi] at hget
  rw [List.getD_eq_getElem?_getD, hget, List.getD_eq_getElem?_getD]

theorem le32At_of_take_eq {q : List UInt8} {n i : ℕ} (h : q.take n = p.take n) (hi : i + 4 ≤ n) :
    le32At q i = le32At p i := by
  unfold le32At
  rw [getD_of_take_eq h (show i < n by omega), getD_of_take_eq h (show i + 1 < n by omega),
    getD_of_take_eq h (show i + 2 < n by omega), getD_of_take_eq h (show i + 3 < n by omega)]

theorem take_of_take_eq {q : List UInt8} {m n : ℕ} (h : q.take n = p.take n) (hm : m ≤ n) :
    q.take m = p.take m := by
  have htake := congrArg (List.take m) h
  rwa [List.take_take, List.take_take, Nat.min_eq_left hm] at htake

section Agree

variable {q : List UInt8}

theorem isRice_of_take_eq {n : ℕ} (h : q.take n = p.take n) (hn : 4 ≤ n) : isRice q = isRice p := by
  unfold isRice
  rw [take_of_take_eq h hn]

theorem isExtended_of_take_eq {n : ℕ} (h : q.take n = p.take n) (hn : 4 < n) :
    isExtended q = isExtended p := by
  unfold isExtended
  rw [getD_of_take_eq h hn]

theorem legacyBytes_of_take_eq {n : ℕ} (h : q.take n = p.take n) (hn : 4 ≤ n) :
    legacyBytes q = legacyBytes p := by
  unfold legacyBytes
  rw [isRice_of_take_eq h hn]

theorem headerBytes_of_take_eq {n : ℕ} (h : q.take n = p.take n) (hn : 4 < n) :
    headerBytes q = headerBytes p := by
  unfold headerBytes
  rw [legacyBytes_of_take_eq h hn.le, isExtended_of_take_eq h hn]

theorem headerTrigger_of_take_eq (h : q.take (headerBytes p) = p.take (headerBytes p)) :
    headerTrigger q = headerTrigger p := by
  have hlegacy := legacyBytes_cases p
  have hle := le_headerBytes p
  unfold headerTrigger
  rw [isExtended_of_take_eq h (by omega), legacyBytes_of_take_eq h (by omega)]
  split_ifs with hextended
  · apply le32At_of_take_eq h
    rw [headerBytes, if_pos hextended]
    omega
  · rfl

/-- The condition is on the header alone. -/
theorem HeaderAccepted.of_take_eq (hp : HeaderAccepted p total format)
    (havailable : headerBytes p ≤ q.length) (h : q.take (headerBytes p) = p.take (headerBytes p)) :
    HeaderAccepted q total format := by
  have hlegacy := legacyBytes_cases p
  have hle := le_headerBytes p
  have hbyte : ∀ i < 48, q.getD i 0 = p.getD i 0 := fun i hi => getD_of_take_eq h (by omega)
  have hfields : SameFields p q := fun i _ hi => hbyte i hi
  have hrice : isRice q = isRice p := isRice_of_take_eq h (by omega)
  have hextended : isExtended q = isExtended p := isExtended_of_take_eq h (by omega)
  have hbytes : headerBytes q = headerBytes p := headerBytes_of_take_eq h (by omega)
  refine ⟨?_, ?_, ?_, ?_, ?_, ?_, hp.limit, hfields.imageAccepted hp.image,
    hfields.timingAccepted hp.timing, ?_, ?_⟩
  · rw [take_of_take_eq h (by omega)]
    exact hp.magic
  · rw [hrice]
    exact hp.format
  · rw [hbyte 4 (by omega)]
    exact hp.version
  · rw [hbyte 5 (by omega), hbytes]
    exact hp.size
  · rwa [hbytes]
  · rw [hbytes]
    exact hp.payload
  · intro hyes
    rw [hrice] at hyes
    have hsize : legacyBytes p = 64 := if_pos hyes
    unfold RiceAccepted
    rw [le32At_of_take_eq h (show 52 + 4 ≤ _ by omega),
      le32At_of_take_eq h (show 56 + 4 ≤ _ by omega), le32At_of_take_eq h (show 60 + 4 ≤ _ by omega), hbytes]
    exact hp.rice hyes
  · intro hyes
    rw [hextended] at hyes
    have hheader : headerBytes p = legacyBytes p + 16 := by rw [headerBytes, if_pos hyes]
    unfold ExtensionAccepted
    rw [headerTrigger_of_take_eq h, legacyBytes_of_take_eq h (by omega), hbytes,
      le32At_of_take_eq h (show legacyBytes p + 4 + 4 ≤ _ by omega),
      le32At_of_take_eq h (show legacyBytes p + 8 + 4 ≤ _ by omega),
      le32At_of_take_eq h (show headerBytes p - 4 + 4 ≤ _ by omega), hbyte 38 (by omega),
      take_of_take_eq h (show headerBytes p - 4 ≤ _ by omega)]
    exact hp.extension hyes

end Agree

/-- The header alone decides. No read is outside the bytes at the pointer, an accepted
header is accepted with the same result wherever its bytes stand, and no part of it is. -/
theorem parse_header_alone (p : Option (List UInt8)) (total : ℕ) (format : UInt8) :
    parseRaw12Header p total format ≠ .error .undefined ∧
      ∀ bytes header, p = some bytes → parseRaw12Header p total format = .ok header →
        (∀ q : List UInt8, header.bytes ≤ q.length →
          q.take header.bytes = bytes.take header.bytes →
            parseRaw12Header (some q) total format = .ok header) ∧
        ∀ available < header.bytes, ∃ what,
          parseRaw12Header (some (bytes.take available)) total format = .error (.thrown what) := by
  refine ⟨fun h => ?_, fun bytes header hp h => ?_⟩
  · have hfault := parse_eq_error p total format h
    cases hfault
  · subst hp
    obtain ⟨_, ⟨⟩, haccepted, rfl⟩ := (parseRaw12Header_iff _ total format header).1 h
    have hlegacy := legacyBytes_cases bytes
    have hle := le_headerBytes bytes
    constructor
    · intro q havailable hagree
      have hbytes : headerBytes q = headerBytes bytes :=
        headerBytes_of_take_eq hagree (show 4 < headerBytes bytes by omega)
      rw [(haccepted.of_take_eq havailable hagree).parse, hbytes, headerTrigger_of_take_eq hagree]
    · intro available hlt
      refine ⟨"Invalid RAW12 envelope header/group CRC", parse_of_not_accepted fun hpart => ?_⟩
      have hlength : headerBytes (bytes.take available) ≤ available :=
        hpart.available.trans (List.length_take_le _ _)
      have height : 8 ≤ available := hpart.eight_le.trans (List.length_take_le _ _)
      have hagree : (bytes.take available).take 8 = bytes.take 8 := by
        rw [List.take_take, Nat.min_eq_left height]
      rw [headerBytes_of_take_eq hagree (by omega)] at hlength
      exact absurd hlt (not_lt.2 hlength)

/-- A version 1 header without timing, for a payload compressed by the library. -/
def zstdHeader : List UInt8 :=
  prz1 ++ [1, 48, 12, 0, 0x00, 0x14, 0, 0, 0x00, 0x0c, 0, 0, 0x00, 0x00, 0x68, 0x01] ++
    List.replicate 16 0 ++ [2, 0, 0, 0] ++ List.replicate 8 0

/-- The header with a payload of two bytes, the first byte of which was available. -/
theorem parse_zstdHeader_alone :
    parseRaw12Header (some (zstdHeader ++ [7, 7])) 50 3 = .ok ⟨48, 0⟩ :=
  ((parse_header_alone (some (zstdHeader ++ [7])) 50 3).2 _ ⟨48, 0⟩ rfl (by rfl)).1 _
    (by decide) rfl

end PrismSdk.ProfileVideo
