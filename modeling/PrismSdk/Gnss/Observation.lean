import PrismSdk.Gnss.Wire

/-! Observation batches, as `gnss_observation.hpp` reads them from a response: a header
of 32 bytes, then records of 24 bytes and a sentence each. -/

namespace PrismSdk.Gnss

open Library (LittleEndian.bytes)
open Library.LittleEndian

structure GnssObservation where
  sequence : UInt64 := 0
  receivedMs : UInt64 := 0
  sentence : List UInt8 := []
  deriving DecidableEq

structure GnssObservations where
  cursor : UInt64 := 0
  deviceMonotonicMs : UInt64 := 0
  session : UInt64 := 0
  gap : Bool := false
  records : List GnssObservation := []
  deriving DecidableEq

/-- One turn of the loop of `parseGnssObservations`, at `pos`. -/
def readObservation (p : List UInt8) (b : GnssObservations) (previous : UInt64) (pos : ℕ) :
    Result GnssObservation := do
  let sequence ← gnssRead p pos 8
  let receivedMs ← gnssRead p (pos + 8) 8
  let n ← gnssRead p (pos + 16) 2
  throwIf (n = 0 ∨ n > 1023 ∨ pos + 24 + n.toNat > p.length) "invalid GNSS observation record"
  let reserved ← gnssRead p (pos + 18) 6
  throwIf (reserved ≠ 0 ∨ sequence ≤ previous ∨ sequence > b.cursor ∨
    receivedMs > b.deviceMonotonicMs) "invalid GNSS observation record"
  return { sequence, receivedMs, sentence := (p.drop (pos + 24)).take n.toNat }

/-- The loop of `parseGnssObservations` from `pos` on. -/
def readObservations (p : List UInt8) (b : GnssObservations) (previous : UInt64) (pos : ℕ) :
    Result (List GnssObservation) :=
  if pos < p.length then do
    let r ← readObservation p b previous pos
    let rs ← readObservations p b r.sequence (pos + 24 + r.sentence.length)
    return r :: rs
  else return []
termination_by p.length - pos

def parseGnssObservations (f : Frame) : Result GnssObservations := do
  let p := f.payload
  throwIf (f.type ≠ 0xbb ∨ p.length < 32 ∨ p.length > 32768) "invalid GNSS observation response"
  let version ← gnssRead p 0 2
  throwIf (version ≠ 1) "invalid GNSS observation response"
  let header ← gnssRead p 2 2
  throwIf (header ≠ 32) "invalid GNSS observation response"
  let flags ← gnssRead p 4 4
  throwIf (flags > 1) "invalid GNSS observation response"
  let cursor ← gnssRead p 8 8
  let deviceMonotonicMs ← gnssRead p 16 8
  let session ← gnssRead p 24 8
  let b := { cursor, deviceMonotonicMs, session, gap := flags ≠ 0 }
  let records ← readObservations p b 0 32
  return { b with records }

/-! ### The wire format -/

def GnssObservation.encode (r : GnssObservation) : List UInt8 :=
  bytes 8 r.sequence.toNat ++ (bytes 8 r.receivedMs.toNat ++ (bytes 2 r.sentence.length ++
    (bytes 6 0 ++ r.sentence)))

/-- The record may follow one with the sequence number `previous` in the batch. -/
structure GnssObservation.Follows (b : GnssObservations) (previous : UInt64)
    (r : GnssObservation) : Prop where
  newer : previous < r.sequence
  le_cursor : r.sequence ≤ b.cursor
  nonempty : 1 ≤ r.sentence.length
  length_le : r.sentence.length ≤ 1023
  received : r.receivedMs ≤ b.deviceMonotonicMs

/-- One turn accepts the encodings of the records that may follow, and nothing else. -/
theorem readObservation_eq_ok {p : List UInt8} {b : GnssObservations} {previous : UInt64} {pos : ℕ}
    {r : GnssObservation} :
    readObservation p b previous pos = .ok r ↔
      r.Follows b previous ∧ ∃ rest, p.drop pos = r.encode ++ rest := by
  unfold readObservation
  simp only [bind_eq_ok, throwIf_eq_ok, not_or, not_lt, not_not, gt_iff_lt, UInt64.not_lt,
    UInt64.not_le]
  constructor
  · rintro ⟨sequence, hseq, receivedMs, hrecv, n, hn, -, ⟨hpos, hle, hfits⟩, reserved, hres, -,
      ⟨rfl, hnewer, hcursor, hclock⟩, hr⟩
    obtain rfl := (Except.ok.inj hr).symm
    obtain ⟨-, rest₁, h₁⟩ := (gnssRead_eq_ok (by omega) (by omega)).1 hseq
    obtain ⟨-, rest₂, h₂⟩ := (gnssRead_eq_ok (by omega) (by omega)).1 hrecv
    obtain ⟨-, rest₃, h₃⟩ := (gnssRead_eq_ok (by omega) (by omega)).1 hn
    obtain ⟨-, rest₄, h₄⟩ := (gnssRead_eq_ok (by omega) (by omega)).1 hres
    have hlen : ((p.drop (pos + 24)).take n.toNat).length = n.toNat := by
      rw [List.length_take, List.length_drop]
      omega
    have hend : p.drop (pos + 18 + 6) = rest₄ := drop_field h₄
    refine ⟨⟨hnewer, hcursor, ?_, ?_, hclock⟩, (p.drop (pos + 24)).drop n.toNat, ?_⟩
    · rw [hlen]
      exact Nat.pos_of_ne_zero fun h => hpos (UInt64.toNat_inj.1 h)
    · rw [hlen]
      exact UInt64.le_iff_toNat_le.1 hle
    · have h₁₂ := (drop_field h₁).symm.trans h₂
      have h₂₃ := (drop_field h₂).symm.trans h₃
      have h₃₄ := (drop_field h₃).symm.trans h₄
      rw [h₁, h₁₂, h₂₃, h₃₄, ← hend, GnssObservation.encode, hlen]
      simp only [List.append_assoc, List.take_append_drop]
      rfl
  · rintro ⟨⟨hnewer, hcursor, hpos, hle, hclock⟩, rest, hrest⟩
    have hn : (UInt64.ofNat r.sentence.length).toNat = r.sentence.length :=
      UInt64.toNat_ofNat_of_lt' (by rw [UInt64.size]; omega)
    simp only [GnssObservation.encode, List.append_assoc] at hrest
    have h₁ := drop_field hrest
    have h₂ := drop_field h₁
    have h₃ := drop_field h₂
    have h₄ : p.drop (pos + 18 + 6) = r.sentence ++ rest := drop_field h₃
    have hfits := congrArg List.length h₄
    rw [List.length_drop, List.length_append] at hfits
    refine ⟨r.sequence, gnssRead_field _ (by omega) (by omega) r.sequence.toNat_lt hrest,
      r.receivedMs, gnssRead_field _ (by omega) (by omega) r.receivedMs.toNat_lt h₁,
      UInt64.ofNat r.sentence.length,
      gnssRead_field _ (by omega) (by omega) ?_ (by rw [hn]; exact h₂),
      (), ⟨?_, ?_, ?_⟩, 0, gnssRead_field 0 (by omega) (by omega) (by decide) h₃, (),
      ⟨rfl, hnewer, hcursor, hclock⟩, ?_⟩
    · rw [hn]
      omega
    · intro h
      rw [h] at hn
      exact absurd hn (Nat.ne_of_lt hpos)
    · exact UInt64.le_iff_toNat_le.2 (by rw [hn]; exact hle)
    · rw [hn]
      omega
    · rw [hn, h₄, List.take_left]
      rfl

@[simp] theorem GnssObservation.length_encode (r : GnssObservation) :
    r.encode.length = 24 + r.sentence.length := by
  simp only [encode, List.length_append, length_bytes]
  omega

instance (b : GnssObservations) (previous : UInt64) (r : GnssObservation) :
    Decidable (r.Follows b previous) :=
  decidable_of_iff (previous < r.sequence ∧ r.sequence ≤ b.cursor ∧ 1 ≤ r.sentence.length ∧
    r.sentence.length ≤ 1023 ∧ r.receivedMs ≤ b.deviceMonotonicMs)
    ⟨fun h => ⟨h.1, h.2.1, h.2.2.1, h.2.2.2.1, h.2.2.2.2⟩,
      fun h => ⟨h.newer, h.le_cursor, h.nonempty, h.length_le, h.received⟩⟩

/-- The records from the one after `previous` on. -/
structure GnssObservations.Run (b : GnssObservations) (previous : UInt64)
    (rs : List GnssObservation) : Prop where
  increasing : rs.Pairwise (fun r r' => r.sequence < r'.sequence)
  follows : ∀ r ∈ rs, r.Follows b previous

instance (b : GnssObservations) (previous : UInt64) (rs : List GnssObservation) :
    Decidable (b.Run previous rs) :=
  decidable_of_iff (rs.Pairwise (fun r r' => r.sequence < r'.sequence) ∧
    ∀ r ∈ rs, r.Follows b previous) ⟨fun h => ⟨h.1, h.2⟩, fun h => ⟨h.increasing, h.follows⟩⟩

/-- The header alone decides which records may follow. -/
theorem GnssObservations.Run.congr {b b' : GnssObservations} {previous : UInt64}
    {rs : List GnssObservation} (h : b.Run previous rs) (hcursor : b'.cursor = b.cursor)
    (hclock : b'.deviceMonotonicMs = b.deviceMonotonicMs) : b'.Run previous rs where
  increasing := h.increasing
  follows r hr :=
    have hf := h.follows r hr
    ⟨hf.newer, hcursor ▸ hf.le_cursor, hf.nonempty, hf.length_le, hclock ▸ hf.received⟩

theorem GnssObservations.run_cons {b : GnssObservations} {previous : UInt64} {r : GnssObservation}
    {rs : List GnssObservation} :
    b.Run previous (r :: rs) ↔ r.Follows b previous ∧ b.Run r.sequence rs := by
  constructor
  · rintro ⟨hinc, hfol⟩
    rw [List.pairwise_cons] at hinc
    refine ⟨hfol r List.mem_cons_self, hinc.2, fun r' hr' => ?_⟩
    have h := hfol r' (List.mem_cons_of_mem r hr')
    exact ⟨hinc.1 r' hr', h.le_cursor, h.nonempty, h.length_le, h.received⟩
  · rintro ⟨hr, hinc, hfol⟩
    refine ⟨List.pairwise_cons.2 ⟨fun r' hr' => (hfol r' hr').newer, hinc⟩, fun r' hr' => ?_⟩
    rcases List.mem_cons.1 hr' with rfl | hr'
    · exact hr
    · have h := hfol r' hr'
      exact ⟨UInt64.lt_trans hr.newer h.newer, h.le_cursor, h.nonempty, h.length_le, h.received⟩

/-- The loop accepts the encodings of the runs of records that end with the payload. -/
theorem readObservations_eq_ok {p : List UInt8} {b : GnssObservations} {previous : UInt64} {pos : ℕ}
    {rs : List GnssObservation} :
    readObservations p b previous pos = .ok rs ↔
      b.Run previous rs ∧ p.drop pos = rs.flatMap (·.encode) := by
  induction rs generalizing previous pos with
  | nil =>
    unfold readObservations
    have hrun : b.Run previous [] := ⟨List.Pairwise.nil, by simp⟩
    rw [List.flatMap_nil, List.drop_eq_nil_iff]
    split_ifs with hpos
    · refine ⟨fun h => ?_, fun h => absurd h.2 (by omega)⟩
      obtain ⟨r, -, h⟩ := bind_eq_ok.1 h
      obtain ⟨rs, -, h⟩ := bind_eq_ok.1 h
      cases h
    · exact ⟨fun _ => ⟨hrun, by omega⟩, fun _ => rfl⟩
  | cons r rs ih =>
    unfold readObservations
    rw [GnssObservations.run_cons, List.flatMap_cons]
    have hnext : ∀ rest, p.drop pos = r.encode ++ rest →
        p.drop (pos + 24 + r.sentence.length) = rest := by
      intro rest h
      rw [Nat.add_assoc, ← List.drop_drop, h, List.drop_left' (by simp)]
    split_ifs with hpos
    · simp only [bind_eq_ok, readObservation_eq_ok]
      constructor
      · rintro ⟨r', ⟨hr, rest, hrest⟩, rs', hrs, h⟩
        obtain ⟨rfl, rfl⟩ := List.cons.inj (Except.ok.inj h)
        obtain ⟨hrun, hdrop⟩ := ih.1 hrs
        rw [hnext rest hrest] at hdrop
        exact ⟨⟨hr, hrun⟩, hdrop ▸ hrest⟩
      · rintro ⟨⟨hr, hrun⟩, hdrop⟩
        exact ⟨r, ⟨hr, _, hdrop⟩, rs, ih.2 ⟨hrun, hnext _ hdrop⟩, rfl⟩
    · refine ⟨fun h => ?_, fun h => ?_⟩
      · cases h
      · have hlen := congrArg List.length h.2
        rw [List.length_drop, List.length_append, GnssObservation.length_encode] at hlen
        omega

namespace GnssObservations

/-- The layout of a response: version 1, a header of 32 bytes, and the records. -/
def encode (b : GnssObservations) : List UInt8 :=
  bytes 2 1 ++ (bytes 2 32 ++ (bytes 4 (if b.gap then 1 else 0) ++ (bytes 8 b.cursor.toNat ++
    (bytes 8 b.deviceMonotonicMs.toNat ++ (bytes 8 b.session.toNat ++
      b.records.flatMap (·.encode))))))

/-- What a batch must satisfy: records with strictly increasing sequence numbers above
zero, none past the cursor, with sentences of 1 to 1023 bytes received by now. -/
def Valid (b : GnssObservations) : Prop := b.Run 0 b.records

instance (b : GnssObservations) : Decidable b.Valid :=
  inferInstanceAs (Decidable (b.Run 0 b.records))

/-- The response that carries the batch. -/
def response (b : GnssObservations) : Frame := { type := 0xbb, payload := b.encode }

theorem length_encode (b : GnssObservations) :
    b.encode.length = 32 + (b.records.flatMap (·.encode)).length := by
  simp only [encode, List.length_append, length_bytes]
  omega

end GnssObservations

/-- The frames that are accepted. -/
theorem sent_of_parse {f : Frame} {b : GnssObservations} (h : parseGnssObservations f = .ok b) :
    f.type = 0xbb ∧ 32 ≤ f.payload.length ∧ f.payload.length ≤ 32768 ∧
      f.payload = b.encode ∧ b.Valid := by
  unfold parseGnssObservations at h
  simp only [bind_eq_ok, throwIf_eq_ok, not_or, not_not, not_lt, gt_iff_lt, UInt64.not_lt] at h
  obtain ⟨-, ⟨htype, hmin, hmax⟩, version, hversion, -, rfl, header, hheader, -, rfl, flags,
    hflags, -, hle, cursor, hcursor, clock, hclock, session, hsession, records, hrecords, hb⟩ := h
  obtain rfl := (Except.ok.inj hb).symm
  obtain ⟨-, rest₁, h₁⟩ := (gnssRead_eq_ok (by omega) (by omega)).1 hversion
  obtain ⟨-, rest₂, h₂⟩ := (gnssRead_eq_ok (by omega) (by omega)).1 hheader
  obtain ⟨-, rest₃, h₃⟩ := (gnssRead_eq_ok (by omega) (by omega)).1 hflags
  obtain ⟨-, rest₄, h₄⟩ := (gnssRead_eq_ok (by omega) (by omega)).1 hcursor
  obtain ⟨-, rest₅, h₅⟩ := (gnssRead_eq_ok (by omega) (by omega)).1 hclock
  obtain ⟨-, rest₆, h₆⟩ := (gnssRead_eq_ok (by omega) (by omega)).1 hsession
  obtain ⟨hrun, hrest⟩ := readObservations_eq_ok.1 hrecords
  have hflag : (if decide (flags ≠ 0) = true then 1 else 0) = flags.toNat := by
    have hlt := UInt64.le_iff_toNat_le.1 hle
    by_cases h0 : flags = 0
    · rw [h0]
      rfl
    · have hne : flags.toNat ≠ 0 := fun h => h0 (UInt64.toNat_inj.1 h)
      rw [decide_eq_true h0, if_pos rfl]
      change flags.toNat ≤ 1 at hlt
      omega
  refine ⟨htype, hmin, hmax, ?_, hrun.congr rfl rfl⟩
  have h₁₂ := (drop_field h₁).symm.trans h₂
  have h₂₃ := (drop_field h₂).symm.trans h₃
  have h₃₄ := (drop_field h₃).symm.trans h₄
  have h₄₅ := (drop_field h₄).symm.trans h₅
  have h₅₆ := (drop_field h₅).symm.trans h₆
  have h₆₇ := (drop_field h₆).symm.trans hrest
  rw [List.drop_zero] at h₁
  rw [h₁, h₁₂, h₂₃, h₃₄, h₄₅, h₅₆, h₆₇, GnssObservations.encode, hflag]
  rfl

/-- A frame that carries a valid batch is accepted. -/
theorem parse_of_sent {f : Frame} {b : GnssObservations} (htype : f.type = 0xbb)
    (hmin : 32 ≤ f.payload.length) (hmax : f.payload.length ≤ 32768)
    (hpayload : f.payload = b.encode) (hvalid : b.Valid) : parseGnssObservations f = .ok b := by
  unfold parseGnssObservations
  simp only [bind_eq_ok, throwIf_eq_ok, not_or, not_not, not_lt, gt_iff_lt, UInt64.not_lt]
  unfold GnssObservations.encode at hpayload
  rw [← List.drop_zero (l := f.payload)] at hpayload
  have h₁ := drop_field hpayload
  have h₂ := drop_field h₁
  have h₃ := drop_field h₂
  have h₄ := drop_field h₃
  have h₅ := drop_field h₄
  have h₆ := drop_field h₅
  have hflag : (if b.gap then 1 else 0) = (if b.gap then (1 : UInt64) else 0).toNat := by
    cases b.gap <;> rfl
  rw [hflag] at h₂
  refine ⟨(), ⟨htype, hmin, hmax⟩, 1, gnssRead_field 1 (by omega) (by omega) (by decide) hpayload,
    (), rfl, 32, gnssRead_field 32 (by omega) (by omega) (by decide) h₁, (), rfl, _,
    gnssRead_field _ (by omega) (by omega) (by cases b.gap <;> decide) h₂, (),
    (by cases b.gap <;> decide), _, gnssRead_field _ (by omega) (by omega) b.cursor.toNat_lt h₃, _,
    gnssRead_field _ (by omega) (by omega) b.deviceMonotonicMs.toNat_lt h₄, _,
    gnssRead_field _ (by omega) (by omega) b.session.toNat_lt h₅, b.records,
    readObservations_eq_ok.2 ⟨hvalid.congr rfl rfl, h₆⟩, ?_⟩
  have hgap : decide ((if b.gap then (1 : UInt64) else 0) ≠ 0) = b.gap := by
    cases b.gap <;> rfl
  rw [hgap]
  rfl

theorem parse_response {b : GnssObservations} (hvalid : b.Valid)
    (hmax : b.encode.length ≤ 32768) : parseGnssObservations b.response = .ok b := by
  refine parse_of_sent rfl ?_ hmax rfl hvalid
  rw [GnssObservations.response, GnssObservations.length_encode]
  omega

/-- A response is accepted exactly when its payload is the encoding of a valid batch,
which is the result. -/
theorem parseGnssObservations_iff (f : Frame) (b : GnssObservations) :
    parseGnssObservations f = .ok b ↔
      f.type = 0xbb ∧ 32 ≤ f.payload.length ∧ f.payload.length ≤ 32768 ∧
        f.payload = b.encode ∧ b.Valid := by
  constructor
  · exact sent_of_parse
  · rintro ⟨htype, hmin, hmax, hpayload, hvalid⟩
    exact parse_of_sent htype hmin hmax hpayload hvalid

end PrismSdk.Gnss
