import PrismSdk.Gnss.Apply

/-! `PositionReader` of `rtk_position.cpp`, which hands the model one record at a time.
The model ends up where `apply` of the whole batch puts it: what `finish` does between
two records is done again at the end. -/

namespace PrismSdk.Gnss

/-- A line that `consume` prints. -/
inductive Line (D : Type) [Double D] where
  | sessionChanged
  | gap
  /-- A position, with its age when it is usable. -/
  | position (name : String) (p : Position D) (age : Option UInt64)
  | unavailable (name : String)

structure PositionReader (D : Type) [Double D] where
  model : Model D := {}
  gnssAvailable : Bool := false
  rtkAvailable : Bool := false

variable {D : Type} [Double D]

namespace Model

def usable (m : Model D) (p : Position D) : Bool := p.valid && fresh m.now p.ms 2000

/-- `PositionReader::position`. -/
def position (m : Model D) (p : Position D) (name : String) : Line D :=
  .position name p (if m.usable p then some (m.now - p.ms) else none)

/-- `PositionReader::availability`: the new flag is `usable`. -/
def availability (m : Model D) (p : Position D) (previous : Bool) (name : String) :
    List (Line D) :=
  if previous && !m.usable p then [.unavailable name] else []

/-- The empty batch that `consume` applies first. With a gap the records are not held
against the old cursor. -/
def header (m : Model D) (batch : GnssObservations) : GnssObservations :=
  { session := batch.session
    cursor := if batch.gap then 0 else m.cursor
    deviceMonotonicMs := batch.deviceMonotonicMs
    gap := batch.gap }

/-- The body of the loop of `consume`. -/
def consumeRecord (part : GnssObservations) (state : Model D × List (Line D))
    (record : GnssObservation) : Model D × List (Line D) :=
  if record.sequence ≤ state.1.cursor then state
  else
    let m := state.1.apply { part with cursor := record.sequence, records := [record] }
    (m, state.2 ++ (if m.gnss.sequence = record.sequence then [m.position m.gnss "GGA"] else []) ++
      (if m.rtk.sequence = record.sequence then [m.position m.rtk "RTK"] else []))

end Model

namespace PositionReader

def consume (reader : PositionReader D) (batch : GnssObservations) :
    PositionReader D × List (Line D) :=
  let changed := reader.model.session ≠ 0 ∧ batch.session ≠ reader.model.session
  let reader := if changed then {} else reader
  let part := reader.model.header batch
  let out := (if changed then [.sessionChanged] else []) ++ (if batch.gap then [.gap] else [])
  let part' := { part with gap := false }
  let state := batch.records.foldl (Model.consumeRecord part') (reader.model.apply part, out)
  let m := state.1.apply { part' with records := [], cursor := batch.cursor }
  ({ model := m, gnssAvailable := m.usable m.gnss, rtkAvailable := m.usable m.rtk },
    state.2 ++ m.availability m.gnss reader.gnssAvailable "GGA" ++
      m.availability m.rtk reader.rtkAvailable "RTK")

end PositionReader

namespace Model

variable {m m' : Model D}

/-! ### `finish` between records -/

theorem expire_expire (now : UInt64) (p : Position D) :
    expire now (expire now p) = expire now p := by
  unfold expire
  split_ifs <;> rfl

theorem finish_finish (m : Model D) (c c' : UInt64) : (m.finish c).finish c' = m.finish c' := by
  unfold finish
  simp only [expire_expire]

/-- What `finish` did before a record is done again after it, or overwritten. -/
theorem interpret_finish (m : Model D) (s : Sentence D) (c c' : UInt64) :
    ((m.finish c).interpret s).finish c' = (m.interpret s).finish c' := by
  cases s with
  | corrupt => exact finish_finish { m with rejected := m.rejected + 1 } c c'
  | ignored => exact finish_finish m c c'
  | adrnav p =>
    obtain ⟨ho, hs, h2⟩ := append_congr (m.finish c) m rfl rfl p m.rtkTrack m.lastRtk
    rw [interpret_adrnav, interpret_adrnav]
    simp only [finish, expire_expire] at ho hs h2 ⊢
    rw [ho, hs, h2]
  | gga p =>
    obtain ⟨ho, hs, h2⟩ := append_congr (m.finish c) m rfl rfl p m.gnssTrack m.lastGga
    rw [interpret_gga, interpret_gga]
    simp only [finish, expire_expire] at ho hs h2 ⊢
    rw [ho, hs, h2]
  | gsa system used => exact finish_finish { m with usedBy := m.usedBy.insert system used } c c'
  | gsv g =>
    have h := addPart_congr (m.finish c) m rfl rfl g
    rw [interpret, interpret, addPart_eq, addPart_eq (m := m), h.1, h.2]
    exact finish_finish
      { m with pending := (m.addPart g).pending, complete := (m.addPart g).complete } c c'
  | gsvMisfit key => exact finish_finish { m with pending := m.pending.erase key } c c'

theorem sentence_finish (m : Model D) (r : GnssObservation) (c c' : UInt64) :
    ((m.finish c).sentence r).finish c' = (m.sentence r).finish c' :=
  m.interpret_finish _ c c'

/-- The models that `finish` makes equal. -/
def Alike (m' m : Model D) : Prop := ∀ c, m'.finish c = m.finish c

@[simp] theorem finish_now (m : Model D) (c : UInt64) : (m.finish c).now = m.now := rfl

@[simp] theorem finish_session (m : Model D) (c : UInt64) : (m.finish c).session = m.session := rfl

@[simp] theorem finish_cursor (m : Model D) (c : UInt64) : (m.finish c).cursor = c := rfl

theorem Alike.now (h : Alike m' m) : m'.now = m.now := by
  rw [← finish_now m' 0, h 0, finish_now]

theorem Alike.session (h : Alike m' m) : m'.session = m.session := by
  rw [← finish_session m' 0, h 0, finish_session]

theorem alike_finish (m : Model D) (c : UInt64) : Alike (m.finish c) m := finish_finish m c

theorem Alike.sentence (h : Alike m' m) (r : GnssObservation) (c : UInt64) :
    Alike ((m'.sentence r).finish c) (m.sentence r) := by
  intro c'
  rw [finish_finish, ← sentence_finish m' r c c', h c, sentence_finish]

/-- A batch of the session and time that the model is at, and without a gap. -/
theorem start_same {b : GnssObservations} (hsession : m.session = b.session)
    (hnow : m.now = b.deviceMonotonicMs) (hgap : b.gap = false) : m.start b = m := by
  have henter : m.enter b.session = m := if_neg fun h => h.2 hsession.symm
  rw [start, henter, hgap, ← hsession, ← hnow]
  rfl

theorem start_congr (m : Model D) (b' b : GnssObservations) (hsession : b'.session = b.session)
    (hgap : b'.gap = b.gap) (hnow : b'.deviceMonotonicMs = b.deviceMonotonicMs) :
    m.start b' = m.start b := by
  rw [start, start, hsession, hgap, hnow]

/-- One turn of the loop of `consume` does what one turn of the loop of `apply` does. -/
theorem Alike.consumeRecord {part : GnssObservations} {gap : Bool} {r : GnssObservation}
    {out : List (Line D)} (h : Alike m' m) (hpart : part.gap = false)
    (hsession : m.session = part.session) (hnow : m.now = part.deviceMonotonicMs)
    (hseen : m'.cursor < r.sequence ↔ m.cursor < r.sequence ∨ gap) :
    Alike (Model.consumeRecord part (m', out) r).1 (record gap m r) := by
  unfold Model.consumeRecord
  split_ifs with hle
  · have hold : ¬ (r.sequence > m.cursor ∨ gap) := fun hnew =>
      absurd (hseen.2 hnew) (UInt64.not_lt.2 hle)
    rw [record, if_neg hold]
    exact h
  · have hnew : r.sequence > m.cursor ∨ gap := hseen.1 (UInt64.not_le.1 hle)
    have hstart : m'.start { part with cursor := r.sequence, records := [r] } = m' :=
      start_same (h.session.trans hsession) (h.now.trans hnow) hpart
    have hfirst : m'.record part.gap r =
        if fresh m.now r.receivedMs 5000 then m'.sentence r else m' := by
      rw [record, if_pos (Or.inl (UInt64.not_le.1 hle)), h.now]
    rw [record, if_pos hnew]
    dsimp only
    rw [Model.apply, hstart, List.foldl_cons, List.foldl_nil, hfirst]
    split_ifs with hfresh
    · exact h.sentence r r.sequence
    · exact fun c => (finish_finish m' _ c).trans (h c)

/-- The records that the loop of `consume` has still to print are those that the loop of
`apply` has still to interpret. -/
theorem seen_consumeRecord {part : GnssObservations} {gap : Bool} {r r' : GnssObservation}
    {out : List (Line D)} {cursor : UInt64} (hlt : r.sequence < r'.sequence)
    (hseen : m'.cursor < r.sequence ↔ cursor < r.sequence ∨ gap)
    (hseen' : m'.cursor < r'.sequence ↔ cursor < r'.sequence ∨ gap) :
    (consumeRecord part (m', out) r).1.cursor < r'.sequence ↔ cursor < r'.sequence ∨ gap := by
  unfold consumeRecord
  split_ifs with hle
  · exact hseen'
  · have hnew : cursor < r'.sequence ∨ gap :=
      (hseen.1 (UInt64.not_le.1 hle)).imp_left (UInt64.lt_trans · hlt)
    exact ⟨fun _ => hnew, fun _ => hlt⟩

theorem record_steady (gap : Bool) (m : Model D) (r : GnssObservation) :
    m.Steady (record gap m r) := by
  rw [record_eq]
  split_ifs
  · exact m.sentence_steady r
  · exact Steady.refl m

theorem Alike.consumeRecords {part : GnssObservations} {gap : Bool} {rs : List GnssObservation}
    {out : List (Line D)} (h : Alike m' m) (hpart : part.gap = false)
    (hsession : m.session = part.session) (hnow : m.now = part.deviceMonotonicMs)
    (hinc : rs.Pairwise (fun r r' => r.sequence < r'.sequence))
    (hseen : ∀ r ∈ rs, m'.cursor < r.sequence ↔ m.cursor < r.sequence ∨ gap) :
    Alike (rs.foldl (Model.consumeRecord part) (m', out)).1 (rs.foldl (record gap) m) := by
  induction rs generalizing m m' out with
  | nil => exact h
  | cons r rs ih =>
    rw [List.pairwise_cons] at hinc
    have hr := hseen r List.mem_cons_self
    have hsteady := record_steady gap m r
    rw [List.foldl_cons, List.foldl_cons]
    refine ih (h.consumeRecord hpart hsession hnow hr) (hsteady.session.trans hsession)
      (hsteady.now.trans hnow) hinc.2 fun r' hr' => ?_
    rw [hsteady.cursor]
    exact seen_consumeRecord (hinc.1 r' hr') hr (hseen r' (List.mem_cons_of_mem r hr'))

/-- A batch without records. -/
theorem apply_nil {b : GnssObservations} (h : b.records = []) :
    m.apply b = (m.start b).finish b.cursor := by
  rw [apply, h, List.foldl_nil]

theorem records_steady (gap : Bool) (m : Model D) (rs : List GnssObservation) :
    m.Steady (rs.foldl (record gap) m) := by
  rw [records_eq]
  exact sentences_steady m _

/-- The loop of `consume` and that of `apply`, from where the header batch puts a model that
is in the session of the batch. -/
theorem header_consumeRecords {batch : GnssObservations} (hm : m.enter batch.session = m)
    (h : batch.Valid) (out : List (Line D)) :
    Alike (batch.records.foldl (Model.consumeRecord { m.header batch with gap := false })
        (m.apply (m.header batch), out)).1
      (batch.records.foldl (record batch.gap) (m.start batch)) := by
  have hstart : m.apply (m.header batch) = (m.start batch).finish (m.header batch).cursor := by
    rw [apply_nil rfl, start_congr m (m.header batch) batch rfl rfl rfl]
  rw [hstart]
  refine (alike_finish _ _).consumeRecords rfl rfl rfl h.increasing fun r hr => ?_
  have hpos : 0 < r.sequence := (h.follows r hr).newer
  rw [finish_cursor, start_cursor, hm, header]
  cases batch.gap with
  | false => simp
  | true => simpa using hpos

end Model

namespace PositionReader

/-- For every state of the reader and every accepted batch, `consume` leaves the model as
one `apply` of the batch does. -/
theorem consume_model (reader : PositionReader D) {f : Frame} {batch : GnssObservations}
    (h : parseGnssObservations f = .ok batch) :
    (reader.consume batch).1.model = reader.model.apply batch := by
  obtain ⟨-, -, -, -, hvalid⟩ := sent_of_parse h
  have hreset : (if reader.model.session ≠ 0 ∧ batch.session ≠ reader.model.session then {}
      else reader : PositionReader D).model = reader.model.enter batch.session := by
    unfold Model.enter
    split_ifs <;> rfl
  unfold consume
  dsimp only
  rw [hreset]
  set m := reader.model.enter batch.session with hm
  have hsteady := Model.records_steady batch.gap (m.start batch) batch.records
  have henter : m.enter batch.session = m := by rw [hm, Model.enter_enter]
  -- the trailer starts from the session and time of the batch, so that it only finishes
  have hloop := Model.header_consumeRecords henter hvalid
  rw [Model.apply_nil rfl, Model.start_same, hloop, Model.apply, hm, Model.start_enter]
  · exact (hloop _).session.trans hsteady.session
  · exact (hloop _).now.trans hsteady.now
  · rfl

/-- A replacement snapshot behind the cursor of the reader. -/
def replacement : GnssObservations :=
  { cursor := 2, deviceMonotonicMs := 500, session := 5, gap := true
    records := [{ sequence := 2, receivedMs := 500, sentence := ascii "$GPGGA,,,,,,0,,,,,,*66" }] }

theorem consume_model_replacement :
    (consume (D := Float) { model := { session := 5, cursor := 4 } } replacement).1.model =
      Model.apply { session := 5, cursor := 4 } replacement :=
  consume_model _ (parse_response (by decide) (by decide))

end PositionReader

end PrismSdk.Gnss
