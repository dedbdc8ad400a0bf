import PrismSdk.Gnss.Plot

/-! What `apply` does with a batch, and the model as a transition system. The records of
a batch that are interpreted are known before the first of them is. -/

namespace PrismSdk.Gnss

open Library (System)

namespace Model

variable {D : Type} [Double D] {m m' : Model D}

/-- What the records of a batch leave alone. -/
structure Steady (m m' : Model D) : Prop where
  cursor : m'.cursor = m.cursor
  session : m'.session = m.session
  now : m'.now = m.now
  gaps : m'.gaps = m.gaps

theorem Steady.refl (m : Model D) : m.Steady m := ⟨rfl, rfl, rfl, rfl⟩

theorem Steady.trans {m'' : Model D} (h : m.Steady m') (h' : m'.Steady m'') : m.Steady m'' where
  cursor := h'.cursor.trans h.cursor
  session := h'.session.trans h.session
  now := h'.now.trans h.now
  gaps := h'.gaps.trans h.gaps

/-- A position that reaches `append` may move the origin and the segment only. -/
theorem append_eq (m : Model D) (p : Position D) (track : List (Point D)) (last : Text) :
    (m.append p track last).1 =
      { m with
        origin := (m.append p track last).1.origin
        segment := (m.append p track last).1.segment } := by
  unfold append
  split_ifs <;> rfl

/-- `append` reads the origin and the segment, and nothing else of the model. -/
theorem append_congr (m' m : Model D) (horigin : m'.origin = m.origin)
    (hsegment : m'.segment = m.segment)
    (p : Position D) (track : List (Point D)) (last : Text) :
    (m'.append p track last).1.origin = (m.append p track last).1.origin ∧
      (m'.append p track last).1.segment = (m.append p track last).1.segment ∧
      (m'.append p track last).2 = (m.append p track last).2 := by
  unfold append
  rw [horigin, hsegment]
  split_ifs
  · exact ⟨rfl, rfl, rfl⟩
  · exact ⟨horigin, hsegment, rfl⟩
  · exact ⟨rfl, rfl, rfl⟩
  · exact ⟨rfl, rfl, rfl⟩

theorem interpret_adrnav (m : Model D) (p : Position D) :
    m.interpret (.adrnav p) =
      { m with
        rtk := p
        origin := (m.append p m.rtkTrack m.lastRtk).1.origin
        segment := (m.append p m.rtkTrack m.lastRtk).1.segment
        rtkTrack := (m.append p m.rtkTrack m.lastRtk).2.1
        lastRtk := (m.append p m.rtkTrack m.lastRtk).2.2 } := by
  have h := append_eq { m with rtk := p } p m.rtkTrack m.lastRtk
  obtain ⟨ho, hs, h2⟩ := append_congr { m with rtk := p } m rfl rfl p m.rtkTrack m.lastRtk
  rw [ho, hs] at h
  rw [interpret, h, h2]

theorem interpret_gga (m : Model D) (p : Position D) :
    m.interpret (.gga p) =
      { m with
        gnss := p
        origin := (m.append p m.gnssTrack m.lastGga).1.origin
        segment := (m.append p m.gnssTrack m.lastGga).1.segment
        gnssTrack := (m.append p m.gnssTrack m.lastGga).2.1
        lastGga := (m.append p m.gnssTrack m.lastGga).2.2 } := by
  have h := append_eq { m with gnss := p } p m.gnssTrack m.lastGga
  obtain ⟨ho, hs, h2⟩ := append_congr { m with gnss := p } m rfl rfl p m.gnssTrack m.lastGga
  rw [ho, hs] at h
  rw [interpret, h, h2]

theorem addPart_eq (m : Model D) (g : CyclePart D) :
    m.addPart g =
      { m with pending := (m.addPart g).pending, complete := (m.addPart g).complete } := by
  unfold addPart bound
  dsimp only
  split
  · rfl
  · split_ifs <;> rfl

/-- `addPart` reads the cycles, and nothing else of the model. -/
theorem addPart_congr (m' m : Model D) (hpending : m'.pending = m.pending)
    (hcomplete : m'.complete = m.complete)
    (g : CyclePart D) :
    (m'.addPart g).pending = (m.addPart g).pending ∧
      (m'.addPart g).complete = (m.addPart g).complete := by
  unfold addPart bound
  rw [hpending, hcomplete]
  dsimp only
  split
  · exact ⟨rfl, rfl⟩
  · split_ifs <;> exact ⟨rfl, rfl⟩

theorem interpret_steady (m : Model D) (s : Sentence D) : m.Steady (m.interpret s) := by
  cases s with
  | corrupt => exact ⟨rfl, rfl, rfl, rfl⟩
  | ignored => exact Steady.refl m
  | adrnav p =>
    rw [interpret_adrnav]
    exact ⟨rfl, rfl, rfl, rfl⟩
  | gga p =>
    rw [interpret_gga]
    exact ⟨rfl, rfl, rfl, rfl⟩
  | gsa system used => exact ⟨rfl, rfl, rfl, rfl⟩
  | gsv g =>
    rw [interpret, addPart_eq]
    exact ⟨rfl, rfl, rfl, rfl⟩
  | gsvMisfit key => exact ⟨rfl, rfl, rfl, rfl⟩

theorem sentence_steady (m : Model D) (r : GnssObservation) : m.Steady (m.sentence r) :=
  m.interpret_steady _

theorem sentences_steady (m : Model D) (rs : List GnssObservation) :
    m.Steady (rs.foldl sentence m) := by
  induction rs generalizing m with
  | nil => exact Steady.refl m
  | cons r rs ih => exact (m.sentence_steady r).trans (ih _)

/-- The loop of `apply` interprets the record. -/
def Hears (cursor now : UInt64) (gap : Bool) (r : GnssObservation) : Bool :=
  decide (r.sequence > cursor ∨ gap) && fresh now r.receivedMs 5000

/-- The records of the batch that are interpreted, in order. -/
def heard (m : Model D) (b : GnssObservations) : List GnssObservation :=
  b.records.filter (Hears (m.enter b.session).cursor b.deviceMonotonicMs b.gap)

theorem record_eq (gap : Bool) (m : Model D) (r : GnssObservation) :
    record gap m r = if Hears m.cursor m.now gap r then m.sentence r else m := by
  unfold record Hears
  by_cases h : r.sequence > m.cursor ∨ gap
  · simp [h]
  · simp [h]

theorem records_eq (gap : Bool) (m : Model D) (rs : List GnssObservation) :
    rs.foldl (record gap) m = (rs.filter (Hears m.cursor m.now gap)).foldl sentence m := by
  induction rs generalizing m with
  | nil => rfl
  | cons r rs ih =>
    rw [List.foldl_cons, record_eq, List.filter_cons]
    split_ifs with h
    · rw [ih, (m.sentence_steady r).cursor, (m.sentence_steady r).now, List.foldl_cons]
    · exact ih m

@[simp] theorem start_cursor (m : Model D) (b : GnssObservations) :
    (m.start b).cursor = (m.enter b.session).cursor := by
  unfold start openGap
  split_ifs <;> rfl

@[simp] theorem start_now (m : Model D) (b : GnssObservations) :
    (m.start b).now = b.deviceMonotonicMs := rfl

@[simp] theorem start_session (m : Model D) (b : GnssObservations) :
    (m.start b).session = b.session := rfl

/-- `apply` interprets the records that it hears. -/
theorem apply_eq (m : Model D) (b : GnssObservations) :
    m.apply b = ((m.heard b).foldl sentence (m.start b)).finish b.cursor := by
  rw [apply, records_eq, start_cursor, start_now]
  rfl

@[simp] theorem apply_cursor (m : Model D) (b : GnssObservations) :
    (m.apply b).cursor = b.cursor := rfl

@[simp] theorem apply_now (m : Model D) (b : GnssObservations) :
    (m.apply b).now = b.deviceMonotonicMs := by
  rw [apply_eq]
  exact (sentences_steady _ _).now.trans (start_now m b)

@[simp] theorem apply_session (m : Model D) (b : GnssObservations) :
    (m.apply b).session = b.session := by
  rw [apply_eq]
  exact (sentences_steady _ _).session.trans (start_session m b)

theorem enter_enter (m : Model D) (session : UInt64) :
    (m.enter session).enter session = m.enter session := by
  unfold enter
  split_ifs with h h'
  · rfl
  · rfl
  · rfl

theorem start_enter (m : Model D) (b : GnssObservations) :
    (m.enter b.session).start b = m.start b := by
  rw [start, start, enter_enter]

/-- A batch of another session finds a fresh model. -/
theorem apply_of_session_ne {b : GnssObservations} (h0 : m.session ≠ 0)
    (hne : b.session ≠ m.session) : m.apply b = ({} : Model D).apply b := by
  have henter : m.enter b.session = {} := if_pos ⟨h0, hne⟩
  rw [apply, apply, ← m.start_enter, henter]

end Model

/-- The calls that change a model. -/
inductive PlotCall where
  | apply (b : GnssObservations)
  | clearTracks

variable (D : Type) [Double D] in
/-- `Model`, from a fresh one on. The output of a call is the records it interprets. -/
def plot : System (Model D) PlotCall (List GnssObservation) where
  init := {}
  step m
    | .apply b => (m.apply b, m.heard b)
    | .clearTracks => (m.clearTracks, [])

end PrismSdk.Gnss
