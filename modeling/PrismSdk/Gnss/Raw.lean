import Mathlib.Data.List.Chain
import PrismSdk.Gnss.Wire

/-! Batches of original bytes, as `gnss_raw.hpp` reads them from a response: a header of
48 bytes, then records of 32 bytes and a fragment each. -/

namespace PrismSdk.Gnss

open Library (LittleEndian.bytes)
open Library.LittleEndian

inductive GnssRawChannel where
  | both | receiver | corsRtcm
  deriving DecidableEq

/-- The enumerator of a byte that passed the check `<= 2`. -/
def GnssRawChannel.ofByte (channel : UInt8) : GnssRawChannel :=
  if channel = 1 then .receiver else if channel = 2 then .corsRtcm else .both

def GnssRawChannel.toByte : GnssRawChannel → UInt8
  | .both => 0
  | .receiver => 1
  | .corsRtcm => 2

structure GnssRawRecord where
  sequence : UInt64 := 0
  receivedMs : UInt64 := 0
  lostBytes : UInt64 := 0
  flags : UInt32 := 0
  channel : GnssRawChannel := .both
  data : List UInt8 := []
  deriving DecidableEq

structure GnssRawBatch where
  cursor : UInt64 := 0
  deviceMonotonicMs : UInt64 := 0
  session : UInt64 := 0
  oldest : UInt64 := 0
  newest : UInt64 := 0
  gap : Bool := false
  more : Bool := false
  records : List GnssRawRecord := []
  deriving DecidableEq

/-- One turn of the loop of `parseGnssRaw`, at `pos`. -/
def readRawRecord (p : List UInt8) (b : GnssRawBatch) (previous : UInt64) (pos : ℕ) :
    Result GnssRawRecord := do
  throwIf (p.length - pos < 32) "truncated raw GNSS record"
  let sequence ← gnssRead p pos 8
  let receivedMs ← gnssRead p (pos + 8) 8
  let lostBytes ← gnssRead p (pos + 16) 8
  let flags ← gnssRead p (pos + 24) 4
  let channel := p.getD (pos + 28) 0
  let reserved := p.getD (pos + 29) 0
  let n ← gnssRead p (pos + 30) 2
  throwIf (n > 256 ∨ n.toNat > p.length - pos - 32 ∨ reserved ≠ 0 ∨ channel > 2 ∨
    flags.toUInt32 > 7 ∨ (channel = 0 ∧ n ≠ 0) ∨ (n = 0 ∧ flags.toUInt32 = 0 ∧ lostBytes = 0) ∨
    sequence < b.oldest ∨ sequence > b.cursor ∨ (previous ≠ 0 ∧ sequence ≠ previous + 1) ∨
    receivedMs > b.deviceMonotonicMs) "invalid raw GNSS record"
  return { sequence, receivedMs, lostBytes, flags := flags.toUInt32, channel := .ofByte channel
           data := (p.drop (pos + 32)).take n.toNat }

/-- The loop of `parseGnssRaw` from `pos` on: the records, and the last `previous`. -/
def readRawRecords (p : List UInt8) (b : GnssRawBatch) (previous : UInt64) (pos : ℕ) :
    Result (List GnssRawRecord × UInt64) :=
  if pos < p.length then do
    let r ← readRawRecord p b previous pos
    let (rs, last) ← readRawRecords p b r.sequence (pos + 32 + r.data.length)
    return (r :: rs, last)
  else return ([], previous)
termination_by p.length - pos

def parseGnssRaw (f : Frame) : Result GnssRawBatch := do
  let p := f.payload
  throwIf (f.type ≠ 0xbb ∨ p.length < 48 ∨ p.length > 32768)
    "invalid raw GNSS response (matching Agent required)"
  let version ← gnssRead p 0 2
  throwIf (version ≠ 2) "invalid raw GNSS response (matching Agent required)"
  let header ← gnssRead p 2 2
  throwIf (header ≠ 48) "invalid raw GNSS response (matching Agent required)"
  let flags ← gnssRead p 4 4
  throwIf (flags > 3) "invalid raw GNSS response (matching Agent required)"
  let gap := p.getD 4 0 &&& 1 != 0
  let more := p.getD 4 0 &&& 2 != 0
  let cursor ← gnssRead p 8 8
  let deviceMonotonicMs ← gnssRead p 16 8
  let session ← gnssRead p 24 8
  let oldest ← gnssRead p 32 8
  let newest ← gnssRead p 40 8
  throwIf (session = 0 ∨ oldest = 0 ∨ oldest - 1 > cursor ∨ cursor > newest ∨
    more ≠ decide (cursor < newest)) "invalid raw GNSS cursor"
  let b := { cursor, deviceMonotonicMs, session, oldest, newest, gap, more }
  let (records, previous) ← readRawRecords p b 0 48
  throwIf (previous ≠ 0 ∧ previous ≠ b.cursor) "invalid raw GNSS end cursor"
  return { b with records }

/-! ### The wire format -/

def GnssRawRecord.encode (r : GnssRawRecord) : List UInt8 :=
  bytes 8 r.sequence.toNat ++ (bytes 8 r.receivedMs.toNat ++ (bytes 8 r.lostBytes.toNat ++
    (bytes 4 r.flags.toNat ++ (r.channel.toByte :: 0 :: (bytes 2 r.data.length ++ r.data)))))

/-- What a record must satisfy by itself. -/
structure GnssRawRecord.Fits (b : GnssRawBatch) (r : GnssRawRecord) : Prop where
  oldest : b.oldest ≤ r.sequence
  cursor : r.sequence ≤ b.cursor
  length_le : r.data.length ≤ 256
  flags : r.flags ≤ 7
  unassigned : r.channel = .both → r.data = []
  nonempty : ¬ (r.data = [] ∧ r.flags = 0 ∧ r.lostBytes = 0)
  received : r.receivedMs ≤ b.deviceMonotonicMs

/-- The record may follow one with the sequence number `previous`, or be the first one. -/
structure GnssRawRecord.Follows (b : GnssRawBatch) (previous : UInt64) (r : GnssRawRecord) : Prop
    extends r.Fits b where
  next : previous ≠ 0 → r.sequence.toNat = previous.toNat + 1

theorem le_two_cases {channel : UInt8} (h : channel ≤ 2) :
    channel = 0 ∨ channel = 1 ∨ channel = 2 := by
  simp only [← UInt8.toNat_inj]
  have hle : channel.toNat ≤ 2 := UInt8.le_iff_toNat_le.1 h
  simp only [UInt8.reduceToNat]
  omega

theorem GnssRawChannel.toByte_ofByte {channel : UInt8} (h : channel ≤ 2) :
    (ofByte channel).toByte = channel := by
  rcases le_two_cases h with rfl | rfl | rfl <;> rfl

theorem GnssRawChannel.ofByte_eq_both {channel : UInt8} (h : channel ≤ 2) :
    ofByte channel = .both ↔ channel = 0 := by
  rcases le_two_cases h with rfl | rfl | rfl <;> decide

theorem GnssRawChannel.toByte_le (channel : GnssRawChannel) : channel.toByte ≤ 2 := by
  cases channel <;> decide

theorem GnssRawChannel.toByte_eq_zero {channel : GnssRawChannel} :
    channel.toByte = 0 ↔ channel = .both := by
  cases channel <;> decide

@[simp] theorem GnssRawChannel.ofByte_toByte (channel : GnssRawChannel) :
    ofByte channel.toByte = channel := by
  cases channel <;> rfl

/-- The successor of a sequence number, when it did not wrap to zero. -/
theorem eq_succ_iff {previous sequence : UInt64} (h : sequence ≠ 0) :
    sequence = previous + 1 ↔ sequence.toNat = previous.toNat + 1 := by
  have hs : sequence.toNat ≠ 0 := fun he => h (UInt64.toNat_inj.1 he)
  have hprevious := previous.toNat_lt
  have hsequence := sequence.toNat_lt
  have hadd : (previous + 1).toNat = (previous.toNat + 1) % 2 ^ 64 := UInt64.toNat_add _ _
  rw [← UInt64.toNat_inj, hadd]
  omega

theorem ne_zero_of_le {oldest sequence : UInt64} (ho : oldest ≠ 0) (h : oldest ≤ sequence) :
    sequence ≠ 0 := by
  rintro rfl
  exact ho (UInt64.toNat_inj.1 (Nat.le_zero.1 (UInt64.le_iff_toNat_le.1 h)))

/-- The records one turn accepts. -/
theorem follows_of_read {p : List UInt8} {b : GnssRawBatch} (ho : b.oldest ≠ 0)
    {previous : UInt64} {pos : ℕ} {r : GnssRawRecord}
    (h : readRawRecord p b previous pos = .ok r) :
    r.Follows b previous ∧ ∃ rest, p.drop pos = r.encode ++ rest := by
  unfold readRawRecord at h
  simp only [bind_eq_ok, throwIf_eq_ok, not_or, not_and, not_lt, not_not, gt_iff_lt, UInt64.not_lt,
    UInt32.not_lt, UInt8.not_lt] at h
  obtain ⟨-, hroom, sequence, hseq, receivedMs, hrecv, lostBytes, hlost, flags, hflags, n, hn, -,
    ⟨hle, hfits, hzero, hchannel, hflag, hnone, hempty, hold, hcursor, hnext, hclock⟩, hr⟩ := h
  obtain rfl := (Except.ok.inj hr).symm
  obtain ⟨-, rest₁, h₁⟩ := (gnssRead_eq_ok (by omega) (by omega)).1 hseq
  obtain ⟨-, rest₂, h₂⟩ := (gnssRead_eq_ok (by omega) (by omega)).1 hrecv
  obtain ⟨-, rest₃, h₃⟩ := (gnssRead_eq_ok (by omega) (by omega)).1 hlost
  obtain ⟨hlt, rest₄, h₄⟩ := (gnssRead_eq_ok (by omega) (by omega)).1 hflags
  obtain ⟨-, rest₅, h₅⟩ := (gnssRead_eq_ok (by omega) (by omega)).1 hn
  have hchan : p.drop (pos + 28) = p.getD (pos + 28) 0 :: p.drop (pos + 29) :=
    drop_eq_getD_cons (by omega)
  have hres : p.drop (pos + 29) = p.getD (pos + 29) 0 :: p.drop (pos + 30) :=
    drop_eq_getD_cons (by omega)
  have hend : p.drop (pos + 32) = rest₅ := drop_field (n := 2) h₅
  have hlen : ((p.drop (pos + 32)).take n.toNat).length = n.toNat := by
    rw [List.length_take, List.length_drop]
    omega
  have hflags32 : flags.toUInt32.toNat = flags.toNat := by
    rw [UInt64.toNat_toUInt32]
    exact Nat.mod_eq_of_lt hlt
  have hnil : (p.drop (pos + 32)).take n.toNat = [] ↔ n = 0 := by
    rw [← List.length_eq_zero_iff, hlen, ← UInt64.toNat_inj]
    rfl
  refine ⟨⟨⟨hold, hcursor, ?_, hflag, ?_, ?_, hclock⟩, fun hprev => ?_⟩,
    (p.drop (pos + 32)).drop n.toNat, ?_⟩
  · rw [hlen]
    exact UInt64.le_iff_toNat_le.1 hle
  · intro hboth
    rw [hnil]
    exact hnone ((GnssRawChannel.ofByte_eq_both hchannel).1 hboth)
  · rintro ⟨hdata, hzeroflags, hzerolost⟩
    exact hempty (hnil.1 hdata) hzeroflags hzerolost
  · exact (eq_succ_iff (ne_zero_of_le ho hold)).1 (hnext hprev)
  · have h₁₂ := (drop_field h₁).symm.trans h₂
    have h₂₃ := (drop_field h₂).symm.trans h₃
    have h₃₄ := (drop_field h₃).symm.trans h₄
    have h₄₅ : rest₄ = p.drop (pos + 28) := (drop_field (n := 4) h₄).symm
    rw [h₁, h₁₂, h₂₃, h₃₄, h₄₅, hchan, hres, h₅, ← hend, hzero, GnssRawRecord.encode, hlen,
      hflags32, GnssRawChannel.toByte_ofByte hchannel]
    simp only [List.append_assoc, List.cons_append, List.take_append_drop]

/-- One turn accepts a record that may follow. -/
theorem read_of_follows {p : List UInt8} {b : GnssRawBatch} (ho : b.oldest ≠ 0)
    {previous : UInt64} {pos : ℕ} {r : GnssRawRecord} (h : r.Follows b previous)
    {rest : List UInt8} (hrest : p.drop pos = r.encode ++ rest) :
    readRawRecord p b previous pos = .ok r := by
  unfold readRawRecord
  simp only [bind_eq_ok, throwIf_eq_ok, not_or, not_and, not_lt, not_not, gt_iff_lt, UInt64.not_lt,
    UInt32.not_lt, UInt8.not_lt]
  obtain ⟨⟨hold, hcursor, hle, hflag, hnone, hempty, hclock⟩, hnext⟩ := h
  have hn : (UInt64.ofNat r.data.length).toNat = r.data.length :=
    UInt64.toNat_ofNat_of_lt' (by rw [UInt64.size]; omega)
  have hflags : r.flags.toUInt64.toNat = r.flags.toNat := UInt32.toNat_toUInt64 _
  simp only [GnssRawRecord.encode, List.append_assoc, List.cons_append] at hrest
  have h₁ := drop_field hrest
  have h₂ := drop_field h₁
  have h₃ := drop_field h₂
  obtain ⟨hchan, h₄⟩ := getD_of_drop (drop_field h₃)
  obtain ⟨hres, h₅⟩ := getD_of_drop h₄
  have hchannel : p.getD (pos + 28) 0 = r.channel.toByte := hchan
  have hreserved : p.getD (pos + 29) 0 = 0 := hres
  have hdata : p.drop (pos + 32) = r.data ++ rest := drop_field (n := 2) h₅
  have hroom := congrArg List.length hdata
  rw [List.length_drop, List.length_append] at hroom
  have hnil : UInt64.ofNat r.data.length = 0 ↔ r.data = [] := by
    rw [← UInt64.toNat_inj, hn, ← List.length_eq_zero_iff]
    rfl
  have hcount : UInt64.ofNat r.data.length ≤ 256 := by
    rw [UInt64.le_iff_toNat_le, hn]
    exact hle
  have hlow : r.flags.toUInt64.toUInt32 = r.flags := UInt32.toUInt32_toUInt64 _
  refine ⟨(), ?_, r.sequence, gnssRead_field _ (by omega) (by omega) r.sequence.toNat_lt hrest,
    r.receivedMs, gnssRead_field _ (by omega) (by omega) r.receivedMs.toNat_lt h₁,
    r.lostBytes, gnssRead_field _ (by omega) (by omega) r.lostBytes.toNat_lt h₂,
    r.flags.toUInt64, gnssRead_field _ (by omega) (by omega) ?_ (by rw [hflags]; exact h₃),
    UInt64.ofNat r.data.length, gnssRead_field _ (by omega) (by omega) ?_ (by rw [hn]; exact h₅),
    (), ⟨hcount, ?_, hreserved, ?_, ?_, ?_, ?_, hold, hcursor, fun hprev => ?_, hclock⟩, ?_⟩
  · have hlen := congrArg List.length hrest
    simp only [List.length_drop, List.length_append, List.length_cons, length_bytes] at hlen
    omega
  · rw [hflags]
    exact r.flags.toNat_lt
  · rw [hn]
    omega
  · rw [hn]
    omega
  · rw [hchannel]
    exact r.channel.toByte_le
  · rw [hlow]
    exact hflag
  · intro hzero
    rw [hchannel] at hzero
    exact hnil.2 (hnone (GnssRawChannel.toByte_eq_zero.1 hzero))
  · intro hzero hzeroflags hzerolost
    rw [hlow] at hzeroflags
    exact hempty ⟨hnil.1 hzero, hzeroflags, hzerolost⟩
  · exact (eq_succ_iff (ne_zero_of_le ho hold)).2 (hnext hprev)
  · rw [hn, hdata, List.take_left, hlow, hchannel, GnssRawChannel.ofByte_toByte]
    rfl

/-- One turn accepts the encodings of the records that may follow, and nothing else. -/
theorem readRawRecord_eq_ok {p : List UInt8} {b : GnssRawBatch} (ho : b.oldest ≠ 0)
    {previous : UInt64} {pos : ℕ} {r : GnssRawRecord} :
    readRawRecord p b previous pos = .ok r ↔
      r.Follows b previous ∧ ∃ rest, p.drop pos = r.encode ++ rest := by
  constructor
  · exact follows_of_read ho
  · rintro ⟨hfollows, rest, hrest⟩
    exact read_of_follows ho hfollows hrest

@[simp] theorem GnssRawRecord.length_encode (r : GnssRawRecord) :
    r.encode.length = 32 + r.data.length := by
  simp only [encode, List.length_append, List.length_cons, length_bytes]
  omega

/-- The records from the one after `previous` on. -/
structure GnssRawBatch.Run (b : GnssRawBatch) (previous : UInt64) (rs : List GnssRawRecord) :
    Prop where
  fits : ∀ r ∈ rs, r.Fits b
  consecutive : rs.IsChain (fun r r' => r'.sequence.toNat = r.sequence.toNat + 1)
  next : previous ≠ 0 → ∀ r ∈ rs.head?, r.sequence.toNat = previous.toNat + 1

/-- `previous` after the records. -/
def lastSequence (previous : UInt64) (rs : List GnssRawRecord) : UInt64 :=
  (rs.getLast?.map (·.sequence)).getD previous

theorem lastSequence_cons (previous : UInt64) (r : GnssRawRecord) (rs : List GnssRawRecord) :
    lastSequence previous (r :: rs) = lastSequence r.sequence rs := by
  unfold lastSequence
  rw [List.getLast?_cons]
  cases rs.getLast? with
  | none => rfl
  | some r => rfl

/-- The header alone decides which records fit. -/
theorem GnssRawRecord.Fits.congr {b b' : GnssRawBatch} {r : GnssRawRecord} (h : r.Fits b)
    (holdest : b'.oldest = b.oldest) (hcursor : b'.cursor = b.cursor)
    (hclock : b'.deviceMonotonicMs = b.deviceMonotonicMs) : r.Fits b' :=
  ⟨holdest ▸ h.oldest, hcursor ▸ h.cursor, h.length_le, h.flags, h.unassigned, h.nonempty,
    hclock ▸ h.received⟩

theorem GnssRawRecord.Fits.sequence_ne_zero {b : GnssRawBatch} {r : GnssRawRecord} (h : r.Fits b)
    (ho : b.oldest ≠ 0) : r.sequence ≠ 0 :=
  ne_zero_of_le ho h.oldest

theorem GnssRawBatch.run_cons {b : GnssRawBatch} (ho : b.oldest ≠ 0) {previous : UInt64}
    {r : GnssRawRecord} {rs : List GnssRawRecord} :
    b.Run previous (r :: rs) ↔ r.Follows b previous ∧ b.Run r.sequence rs := by
  constructor
  · rintro ⟨hfits, hchain, hnext⟩
    rw [List.isChain_cons] at hchain
    exact ⟨⟨hfits r List.mem_cons_self, fun hp => hnext hp r rfl⟩,
      fun r' hr' => hfits r' (List.mem_cons_of_mem r hr'), hchain.2, fun _ => hchain.1⟩
  · rintro ⟨⟨hfit, hnext⟩, hfits, hchain, hhead⟩
    refine ⟨fun r' hr' => ?_, List.isChain_cons.2 ⟨hhead (hfit.sequence_ne_zero ho), hchain⟩, ?_⟩
    · rcases List.mem_cons.1 hr' with rfl | hr'
      · exact hfit
      · exact hfits r' hr'
    · rintro hp _ ⟨⟩
      exact hnext hp

/-- The loop accepts the encodings of the runs of records that end with the payload. -/
theorem readRawRecords_eq_ok {p : List UInt8} {b : GnssRawBatch} (ho : b.oldest ≠ 0)
    {previous last : UInt64} {pos : ℕ} {rs : List GnssRawRecord} :
    readRawRecords p b previous pos = .ok (rs, last) ↔
      b.Run previous rs ∧ p.drop pos = rs.flatMap (·.encode) ∧ last = lastSequence previous rs := by
  induction rs generalizing previous pos with
  | nil =>
    unfold readRawRecords
    have hrun : b.Run previous [] := ⟨by simp, List.IsChain.nil, by simp⟩
    rw [List.flatMap_nil, List.drop_eq_nil_iff]
    split_ifs with hpos
    · refine ⟨fun h => ?_, fun h => absurd h.2.1 (by omega)⟩
      obtain ⟨r, -, h⟩ := bind_eq_ok.1 h
      obtain ⟨⟨rs, last⟩, -, h⟩ := bind_eq_ok.1 h
      cases h
    · constructor
      · rintro ⟨⟩
        exact ⟨hrun, by omega, rfl⟩
      · rintro ⟨-, -, rfl⟩
        rfl
  | cons r rs ih =>
    unfold readRawRecords
    rw [GnssRawBatch.run_cons ho, List.flatMap_cons, lastSequence_cons]
    have hnext : ∀ rest, p.drop pos = r.encode ++ rest →
        p.drop (pos + 32 + r.data.length) = rest := by
      intro rest h
      rw [Nat.add_assoc, ← List.drop_drop, h, List.drop_left' (by simp)]
    split_ifs with hpos
    · simp only [bind_eq_ok, readRawRecord_eq_ok ho]
      constructor
      · rintro ⟨r', ⟨hr, rest, hrest⟩, ⟨rs', last'⟩, hrs, h⟩
        obtain ⟨hcons, rfl⟩ := Prod.mk.inj (Except.ok.inj h)
        obtain ⟨rfl, rfl⟩ := List.cons.inj hcons
        obtain ⟨hrun, hdrop, hlast⟩ := ih.1 hrs
        rw [hnext rest hrest] at hdrop
        exact ⟨⟨hr, hrun⟩, hdrop ▸ hrest, hlast⟩
      · rintro ⟨⟨hr, hrun⟩, hdrop, hlast⟩
        exact ⟨r, ⟨hr, _, hdrop⟩, (rs, last), ih.2 ⟨hrun, hnext _ hdrop, hlast⟩, rfl⟩
    · refine ⟨fun h => ?_, fun h => ?_⟩
      · cases h
      · have hlen := congrArg List.length h.2.1
        rw [List.length_drop, List.length_append, GnssRawRecord.length_encode] at hlen
        omega

namespace GnssRawBatch

/-- The layout of a response: version 2, a header of 48 bytes, and the records. -/
def encode (b : GnssRawBatch) : List UInt8 :=
  bytes 2 2 ++ (bytes 2 48 ++ (bytes 4 ((if b.gap then 1 else 0) + (if b.more then 2 else 0)) ++
    (bytes 8 b.cursor.toNat ++ (bytes 8 b.deviceMonotonicMs.toNat ++ (bytes 8 b.session.toNat ++
      (bytes 8 b.oldest.toNat ++ (bytes 8 b.newest.toNat ++ b.records.flatMap (·.encode))))))))

/-- What a batch must satisfy: its cursors agree, and its records are consecutive and
end at the cursor. -/
structure Valid (b : GnssRawBatch) : Prop where
  session : b.session ≠ 0
  oldest : b.oldest ≠ 0
  oldest_le : b.oldest - 1 ≤ b.cursor
  cursor_le : b.cursor ≤ b.newest
  more : b.more = true ↔ b.cursor < b.newest
  fits : ∀ r ∈ b.records, r.Fits b
  consecutive : b.records.IsChain (fun r r' => r'.sequence.toNat = r.sequence.toNat + 1)
  last : ∀ r ∈ b.records.getLast?, r.sequence = b.cursor

end GnssRawBatch

/-- The last check passes when the last record, if any, is the one at the cursor. -/
theorem lastSequence_cursor {b : GnssRawBatch} (ho : b.oldest ≠ 0) {rs : List GnssRawRecord}
    (hfits : ∀ r ∈ rs, r.Fits b) :
    ¬ (lastSequence 0 rs ≠ 0 ∧ lastSequence 0 rs ≠ b.cursor) ↔
      ∀ r ∈ rs.getLast?, r.sequence = b.cursor := by
  unfold lastSequence
  cases hlast : rs.getLast? with
  | none => simp
  | some r =>
    have hne := (hfits r (List.mem_of_getLast? hlast)).sequence_ne_zero ho
    simp [hne]

/-- The two flag bits of the header, read from its low byte. -/
theorem flags_eq {flags : UInt64} (h : flags ≤ 3) :
    flags.toNat = (if UInt8.ofNat flags.toNat &&& 1 != 0 then 1 else 0) +
      (if UInt8.ofNat flags.toNat &&& 2 != 0 then 2 else 0) := by
  have hle : flags.toNat ≤ 3 := UInt64.le_iff_toNat_le.1 h
  generalize flags.toNat = n at hle
  obtain rfl | rfl | rfl | rfl : n = 0 ∨ n = 1 ∨ n = 2 ∨ n = 3 := by omega
  all_goals decide

/-- Every pair of flags is the flag word of some header. -/
theorem exists_flags (gap more : Bool) : ∃ flags : UInt64,
    flags.toNat = (if gap then 1 else 0) + (if more then 2 else 0) ∧ flags ≤ 3 ∧
      (UInt8.ofNat flags.toNat &&& 1 != 0) = gap ∧ (UInt8.ofNat flags.toNat &&& 2 != 0) = more := by
  cases gap <;> cases more
  exacts [⟨0, by decide⟩, ⟨2, by decide⟩, ⟨1, by decide⟩, ⟨3, by decide⟩]

/-- The frames that are accepted. -/
theorem batch_of_parse {f : Frame} {b : GnssRawBatch} (h : parseGnssRaw f = .ok b) :
    f.type = 0xbb ∧ 48 ≤ f.payload.length ∧ f.payload.length ≤ 32768 ∧
      f.payload = b.encode ∧ b.Valid := by
  unfold parseGnssRaw at h
  simp only [bind_eq_ok, throwIf_eq_ok, not_or, not_not, not_lt, gt_iff_lt, UInt64.not_lt,
    Prod.exists] at h
  obtain ⟨-, ⟨htype, hmin, hmax⟩, version, hversion, -, rfl, header, hheader, -, rfl, flags,
    hflags, -, hle, cursor, hcursor, clock, hclock, session, hsession, oldest, holdest, newest,
    hnewest, -, ⟨hs, ho, hoc, hcn, hmore⟩, records, previous, hrecords, -, hlast, hb⟩ := h
  obtain rfl := (Except.ok.inj hb).symm
  obtain ⟨-, rest₁, h₁⟩ := (gnssRead_eq_ok (by omega) (by omega)).1 hversion
  obtain ⟨-, rest₂, h₂⟩ := (gnssRead_eq_ok (by omega) (by omega)).1 hheader
  obtain ⟨-, rest₃, h₃⟩ := (gnssRead_eq_ok (by omega) (by omega)).1 hflags
  obtain ⟨-, rest₄, h₄⟩ := (gnssRead_eq_ok (by omega) (by omega)).1 hcursor
  obtain ⟨-, rest₅, h₅⟩ := (gnssRead_eq_ok (by omega) (by omega)).1 hclock
  obtain ⟨-, rest₆, h₆⟩ := (gnssRead_eq_ok (by omega) (by omega)).1 hsession
  obtain ⟨-, rest₇, h₇⟩ := (gnssRead_eq_ok (by omega) (by omega)).1 holdest
  obtain ⟨-, rest₈, h₈⟩ := (gnssRead_eq_ok (by omega) (by omega)).1 hnewest
  obtain ⟨hrun, hrest, rfl⟩ := (readRawRecords_eq_ok ho).1 hrecords
  have hbyte : f.payload.getD 4 0 = UInt8.ofNat flags.toNat := (getD_of_drop h₃).1
  have hfits := hrun.fits
  rw [lastSequence_cursor ho hfits] at hlast
  refine ⟨htype, hmin, hmax, ?_, hs, ho, hoc, hcn, ?_, ?_, hrun.consecutive, hlast⟩
  · have h₁₂ := (drop_field h₁).symm.trans h₂
    have h₂₃ := (drop_field h₂).symm.trans h₃
    have h₃₄ := (drop_field h₃).symm.trans h₄
    have h₄₅ := (drop_field h₄).symm.trans h₅
    have h₅₆ := (drop_field h₅).symm.trans h₆
    have h₆₇ := (drop_field h₆).symm.trans h₇
    have h₇₈ := (drop_field h₇).symm.trans h₈
    have h₈₉ := (drop_field h₈).symm.trans hrest
    rw [List.drop_zero] at h₁
    rw [GnssRawBatch.encode]
    simp only [hbyte, ← flags_eq hle]
    rw [h₁, h₁₂, h₂₃, h₃₄, h₄₅, h₅₆, h₆₇, h₇₈, h₈₉]
    rfl
  · simp only [hmore, decide_eq_true_eq]
  · exact fun r hr => (hfits r hr).congr rfl rfl rfl

/-- A frame that carries a valid batch is accepted. -/
theorem parse_of_batch {f : Frame} {b : GnssRawBatch} (htype : f.type = 0xbb)
    (hmin : 48 ≤ f.payload.length) (hmax : f.payload.length ≤ 32768)
    (hpayload : f.payload = b.encode) (hvalid : b.Valid) : parseGnssRaw f = .ok b := by
  obtain ⟨hs, ho, hoc, hcn, hmore, hfits, hchain, hlast⟩ := hvalid
  unfold parseGnssRaw
  simp only [bind_eq_ok, throwIf_eq_ok, not_or, not_not, not_lt, gt_iff_lt, UInt64.not_lt,
    Prod.exists]
  unfold GnssRawBatch.encode at hpayload
  rw [← List.drop_zero (l := f.payload)] at hpayload
  have h₁ := drop_field hpayload
  have h₂ := drop_field h₁
  have h₃ := drop_field h₂
  have h₄ := drop_field h₃
  have h₅ := drop_field h₄
  have h₆ := drop_field h₅
  have h₇ := drop_field h₆
  have h₈ := drop_field h₇
  obtain ⟨flags, hflags, hle, hgap, hmorebit⟩ := exists_flags b.gap b.more
  rw [← hflags] at h₂
  have hbyte : f.payload.getD 4 0 = UInt8.ofNat flags.toNat := (getD_of_drop h₂).1
  refine ⟨(), ⟨htype, hmin, hmax⟩, 2, gnssRead_field 2 (by omega) (by omega) (by decide) hpayload,
    (), rfl, 48, gnssRead_field 48 (by omega) (by omega) (by decide) h₁, (), rfl, flags,
    gnssRead_field _ (by omega) (by omega) ?_ h₂, (), hle,
    _, gnssRead_field _ (by omega) (by omega) b.cursor.toNat_lt h₃,
    _, gnssRead_field _ (by omega) (by omega) b.deviceMonotonicMs.toNat_lt h₄,
    _, gnssRead_field _ (by omega) (by omega) b.session.toNat_lt h₅,
    _, gnssRead_field _ (by omega) (by omega) b.oldest.toNat_lt h₆,
    _, gnssRead_field _ (by omega) (by omega) b.newest.toNat_lt h₇,
    (), ⟨hs, ho, hoc, hcn, ?_⟩, b.records, lastSequence 0 b.records,
    ?_, (), (lastSequence_cursor ho hfits).2 hlast, ?_⟩
  · have hsmall := UInt64.le_iff_toNat_le.1 hle
    exact hsmall.trans_lt (by decide)
  · rw [hbyte, hmorebit, Bool.eq_iff_iff, hmore, decide_eq_true_iff]
  · have hrun : GnssRawBatch.Run { b with records := [] } 0 b.records :=
      ⟨fun r hr => (hfits r hr).congr rfl rfl rfl, hchain, fun h => absurd rfl h⟩
    rw [hbyte, hgap, hmorebit]
    exact (readRawRecords_eq_ok (b := { b with records := [] }) ho).2 ⟨hrun, h₈, rfl⟩
  · rw [hbyte, hgap, hmorebit]
    rfl

/-- A response is accepted exactly when its payload is the encoding of a valid batch,
which is the result. -/
theorem parseGnssRaw_iff (f : Frame) (b : GnssRawBatch) :
    parseGnssRaw f = .ok b ↔
      f.type = 0xbb ∧ 48 ≤ f.payload.length ∧ f.payload.length ≤ 32768 ∧
        f.payload = b.encode ∧ b.Valid := by
  constructor
  · exact batch_of_parse
  · rintro ⟨htype, hmin, hmax, hpayload, hvalid⟩
    exact parse_of_batch htype hmin hmax hpayload hvalid

end PrismSdk.Gnss
