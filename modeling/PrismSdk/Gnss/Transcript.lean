import PrismSdk.Gnss.Origin
import PrismSdk.Gnss.PositionReader
import PrismSdk.Gnss.Repeats

/-! What `PositionReader` prints over a run of polls. The reader asks for what is past its
cursor; while the answers keep to that, a line with coordinates is the reading of a record
that the poll brought, printed once, and no current position goes unprinted. -/

namespace PrismSdk.Gnss

open Library

variable {D : Type} [Double D]

/-- The name a position is printed under. -/
def Solution.name : Solution → String
  | .gnss => "GGA"
  | .rtk => "RTK"

/-- The sequence number of a position line with coordinates. -/
def Line.fix : Line D → Option UInt64
  | .position _ p (some _) => some p.sequence
  | _ => none

/-- The lines with coordinates. -/
def fixes (lines : List (Line D)) : List (Line D) := lines.filter fun line => line.fix.isSome

theorem fixes_append (xs ys : List (Line D)) : fixes (xs ++ ys) = fixes xs ++ fixes ys := by
  simp [fixes]

/-- The line with coordinates that a record is worth at a time. -/
def fixOf (now : UInt64) (r : GnssObservation) : Solution → List (Line D) := fun which =>
  match (readSentence D r).position which with
  | some p => if p.valid && fresh now p.ms 2000 then
      [.position which.name p (some (now - p.ms))] else []
  | none => []

def fixesOf (now : UInt64) (r : GnssObservation) : List (Line D) :=
  fixOf now r .gnss ++ fixOf now r .rtk

variable (D) in
/-- `PositionReader`, from a fresh one on, with the lines that each `consume` prints. -/
def positionReader : System (PositionReader D) GnssObservations (List (Line D)) where
  init := {}
  step reader batch := reader.consume batch

/-- An answer to a query with the cursor and the session of the reader: an accepted
response that does not go back behind that cursor without a gap. -/
def Answers (reader : PositionReader D) (batch : GnssObservations) : Prop :=
  (∃ f, parseGnssObservations f = .ok batch) ∧
    (batch.gap = false → (reader.model.enter batch.session).cursor ≤ batch.cursor)

/-! ### Positions and their records -/

theorem sequence_of_position {r : GnssObservation} {which : Solution} {p : Position D}
    (h : (readSentence D r).position which = some p) :
    p.sequence = r.sequence ∧ p.ms = r.receivedMs := by
  rcases position_cases h with ⟨f, -, rfl⟩ | ⟨header, f, -, rfl⟩ <;> exact ⟨rfl, rfl⟩

namespace Model

variable {m m' : Model D}

/-- No valid position is of a record past the cursor. -/
def Behind (m : Model D) : Prop :=
  ∀ which, (m.shown which).valid → (m.shown which).sequence ≤ m.cursor

/-- A record past the cursor, applied alone as `consume` does. -/
theorem apply_alone {part : GnssObservations} {r : GnssObservation} (hpart : part.gap = false)
    (hsession : m.session = part.session) (hnow : m.now = part.deviceMonotonicMs)
    (hnew : m.cursor < r.sequence) :
    m.apply { part with cursor := r.sequence, records := [r] } =
      (if fresh m.now r.receivedMs 5000 then m.sentence r else m).finish r.sequence := by
  have hstart : m.start { part with cursor := r.sequence, records := [r] } = m :=
    start_same hsession hnow hpart
  rw [apply, hstart, List.foldl_cons, List.foldl_nil, record, if_pos (Or.inl hnew)]

theorem sentence_shown (m : Model D) (r : GnssObservation) (which : Solution) :
    (m.sentence r).shown which = ((readSentence D r).position which).getD (m.shown which) :=
  m.interpret_shown _ which

theorem finish_shown_eq (m : Model D) (c : UInt64) (which : Solution) :
    (m.finish c).shown which = expire m.now (m.shown which) := by
  cases which <;> rfl

theorem expire_sequence (now : UInt64) (p : Position D) : (expire now p).sequence = p.sequence := by
  unfold expire
  split_ifs <;> rfl

theorem usable_expire (m : Model D) (p : Position D) : m.usable (expire m.now p) = m.usable p := by
  unfold usable expire
  by_cases hfresh : fresh m.now p.ms 2000
  · simp [hfresh]
  · simp [hfresh]

/-- What `consume` prints for a record of one of the two positions. -/
def printed (m : Model D) (r : GnssObservation) (which : Solution) : List (Line D) :=
  if (m.shown which).sequence = r.sequence then [m.position (m.shown which) which.name] else []

theorem fixes_position (m : Model D) (p : Position D) (name : String) :
    fixes [m.position p name] =
      if m.usable p then [.position name p (some (m.now - p.ms))] else [] := by
  unfold position fixes
  by_cases h : m.usable p
  · simp [h, Line.fix]
  · simp [h, Line.fix]

/-- The position of the record, just read. -/
theorem fixes_printed_some {r : GnssObservation} {which : Solution} {p : Position D}
    (h : (readSentence D r).position which = some p)
    (hshown : m.shown which = expire m.now p) : fixes (m.printed r which) = fixOf m.now r which := by
  have hsequence : (m.shown which).sequence = r.sequence := by
    rw [hshown, expire_sequence, (sequence_of_position h).1]
  rw [printed, if_pos hsequence, fixes_position, hshown, usable_expire, fixOf, h]
  by_cases husable : m.usable p
  · have hparts := husable
    rw [usable, Bool.and_eq_true] at hparts
    have hsame : expire m.now p = p := by
      rw [expire, hparts.2]
      rfl
    rw [if_pos husable, hsame]
    exact (if_pos husable).symm
  · rw [if_neg husable]
    exact (if_neg husable).symm

/-- A position from before the record has no line with coordinates. -/
theorem fixes_printed_old {r : GnssObservation} {which : Solution}
    (h : (m.shown which).valid → (m.shown which).sequence < r.sequence) :
    fixes (m.printed r which) = [] := by
  unfold printed
  split_ifs with hsequence
  · have hinvalid : ¬ (m.shown which).valid := fun hvalid =>
      absurd (h hvalid) (hsequence ▸ UInt64.lt_irrefl _)
    have hnot : m.usable (m.shown which) = false := by
      rw [usable, Bool.eq_false_of_not_eq_true hinvalid]
      rfl
    rw [fixes_position, hnot]
    rfl
  · rfl

theorem valid_of_expire {now : UInt64} {p : Position D} (h : (expire now p).valid) : p.valid := by
  rwa [(expire_valid h).1] at h

/-- What the loop of `consume` has between two records of a batch without its gap. -/
structure InLoop (part : GnssObservations) (m : Model D) : Prop where
  session : m.session = part.session
  now : m.now = part.deviceMonotonicMs
  behind : m.Behind

/-- A valid position of `m'` is one of `m`, or is among the lines with its coordinates. -/
def Accounted (m m' : Model D) (lines : List (Line D)) : Prop :=
  ∀ which, (m'.shown which).valid → m'.shown which = m.shown which ∨
    ∃ age, Line.position which.name (m'.shown which) (some age) ∈ lines

/-- What a turn of the loop leaves as the position of a kind. -/
def shownAfter (m : Model D) (r : GnssObservation) (which : Solution) : Position D :=
  if Hears m.cursor m.now false r then
    ((readSentence D r).position which).getD (m.shown which) else m.shown which

/-- A turn of the loop on a record past the cursor. -/
theorem InLoop.consumeRecord_new {part : GnssObservations} {r : GnssObservation}
    (out : List (Line D)) (h : m.InLoop part) (hpart : part.gap = false)
    (hnew : m.cursor < r.sequence) :
    ∃ m' : Model D, Model.consumeRecord part (m, out) r =
        (m', out ++ m'.printed r .gnss ++ m'.printed r .rtk) ∧
      m'.session = part.session ∧ m'.now = part.deviceMonotonicMs ∧ m'.cursor = r.sequence ∧
      ∀ which, m'.shown which = expire m'.now (m.shownAfter r which) := by
  set next := if fresh m.now r.receivedMs 5000 then m.sentence r else m with hnext
  have hsteady : m.Steady next := by
    rw [hnext]
    split_ifs
    · exact m.sentence_steady r
    · exact Steady.refl m
  refine ⟨next.finish r.sequence, ?_, hsteady.session.trans h.session,
    hsteady.now.trans h.now, rfl, fun which => ?_⟩
  · rw [Model.consumeRecord, if_neg (UInt64.not_le.2 hnew), apply_alone hpart h.session h.now hnew]
    rfl
  · rw [finish_shown_eq, finish_now, hnext, shownAfter]
    simp only [Hears, gt_iff_lt, hnew, true_or, decide_true, Bool.true_and]
    split_ifs
    · rw [sentence_shown]
    · rfl

/-- The lines of a turn: the reading of a record that is heard, and nothing older with
coordinates. -/
theorem InLoop.fixes_printed {part : GnssObservations} {r : GnssObservation} (h : m.InLoop part)
    (hnew : m.cursor < r.sequence) {which : Solution} (hnow : m'.now = m.now)
    (hshown : m'.shown which = expire m'.now (m.shownAfter r which)) :
    fixes (m'.printed r which) =
      if Hears m.cursor m.now false r then fixOf m.now r which else [] := by
  have hold : (expire m'.now (m.shown which)).valid →
      (expire m'.now (m.shown which)).sequence < r.sequence := fun hvalid => by
    rw [expire_sequence]
    exact UInt64.lt_of_le_of_lt (h.behind which (valid_of_expire hvalid)) hnew
  unfold shownAfter at hshown
  split_ifs at hshown ⊢
  · cases hp : (readSentence D r).position which with
    | none =>
      rw [hp, Option.getD_none] at hshown
      rw [fixes_printed_old (hshown.symm ▸ hold), fixOf, hp]
    | some p =>
      rw [hp, Option.getD_some] at hshown
      rw [fixes_printed_some hp hshown, hnow]
  · exact fixes_printed_old (hshown.symm ▸ hold)

theorem mem_fixOf {now : UInt64} {r : GnssObservation} {which : Solution} {p : Position D}
    (hp : (readSentence D r).position which = some p) (hvalid : p.valid)
    (hfresh : fresh now p.ms 2000) :
    Line.position which.name p (some (now - p.ms)) ∈ fixesOf now r := by
  have hfix : fixOf now r which = [.position which.name p (some (now - p.ms))] := by
    simp [fixOf, hp, hvalid, hfresh]
  cases which with
  | gnss => exact List.mem_append_left _ (hfix ▸ List.mem_singleton_self _)
  | rtk => exact List.mem_append_right _ (hfix ▸ List.mem_singleton_self _)

/-- One record: its own reading is printed, nothing older with coordinates, and what is
valid afterwards was valid before or is printed. -/
theorem InLoop.consumeRecord {part : GnssObservations} {r : GnssObservation}
    (out : List (Line D)) (h : m.InLoop part) (hpart : part.gap = false) :
    (Model.consumeRecord part (m, out) r).1.InLoop part ∧
      fixes (Model.consumeRecord part (m, out) r).2 = fixes out ++
        (if Hears m.cursor m.now false r then fixesOf part.deviceMonotonicMs r else []) ∧
      m.Accounted (Model.consumeRecord part (m, out) r).1
        (if Hears m.cursor m.now false r then fixesOf part.deviceMonotonicMs r else []) := by
  by_cases hle : r.sequence ≤ m.cursor
  · have hsame : Model.consumeRecord part (m, out) r = (m, out) := if_pos hle
    have hdeaf : ¬ Hears m.cursor m.now false r := by
      simp [Hears, UInt64.not_lt.2 hle]
    rw [hsame, if_neg hdeaf, List.append_nil]
    exact ⟨h, rfl, fun which _ => .inl rfl⟩
  have hnew : m.cursor < r.sequence := UInt64.not_le.1 hle
  obtain ⟨m', heq, hsession, hnow, hcursor, hshown⟩ := h.consumeRecord_new out hpart hnew
  rw [heq, ← h.now]
  have hnow' : m'.now = m.now := hnow.trans h.now.symm
  refine ⟨⟨hsession, hnow.trans h.now.symm ▸ h.now, fun which hvalid => ?_⟩, ?_,
    fun which hvalid => ?_⟩
  · rw [hshown] at hvalid
    have hvalid := valid_of_expire hvalid
    rw [hshown, expire_sequence, hcursor]
    unfold shownAfter at hvalid ⊢
    split_ifs at hvalid ⊢
    · cases hp : (readSentence D r).position which with
      | none =>
        rw [hp, Option.getD_none] at hvalid
        exact UInt64.le_of_lt (UInt64.lt_of_le_of_lt (h.behind which hvalid) hnew)
      | some p => exact UInt64.le_of_eq (sequence_of_position hp).1
    · exact UInt64.le_of_lt (UInt64.lt_of_le_of_lt (h.behind which hvalid) hnew)
  · rw [fixes_append, fixes_append, h.fixes_printed hnew hnow' (hshown .gnss),
      h.fixes_printed hnew hnow' (hshown .rtk), List.append_assoc]
    split_ifs <;> rfl
  · dsimp only at hvalid ⊢
    rw [hshown] at hvalid ⊢
    obtain ⟨hsame, hfresh⟩ := expire_valid hvalid
    rw [hsame] at hvalid ⊢
    unfold shownAfter at hvalid hfresh ⊢
    split_ifs at hvalid hfresh ⊢
    · cases hp : (readSentence D r).position which with
      | none => exact .inl rfl
      | some p =>
        rw [hp, Option.getD_some] at hvalid hfresh
        exact .inr ⟨_, mem_fixOf hp hvalid (hnow' ▸ hfresh)⟩
    · exact .inl rfl

theorem Accounted.trans {m'' : Model D} {lines lines' : List (Line D)} (h : m.Accounted m' lines)
    (h' : m'.Accounted m'' lines') : m.Accounted m'' (lines ++ lines') := by
  intro which hvalid
  rcases h' which hvalid with hsame | ⟨age, hnew⟩
  · rw [hsame] at hvalid ⊢
    exact (h which hvalid).imp_right fun ⟨age, hold⟩ => ⟨age, List.mem_append_left _ hold⟩
  · exact .inr ⟨age, List.mem_append_right _ hnew⟩

/-- The loop of `consume` prints the readings of the records that the batch has for it. -/
theorem InLoop.consumeRecords {part : GnssObservations} {gap : Bool} {cursor : UInt64}
    {rs : List GnssObservation} (out : List (Line D)) (h : m.InLoop part)
    (hpart : part.gap = false) (hinc : rs.Pairwise (fun r r' => r.sequence < r'.sequence))
    (hseen : ∀ r ∈ rs, m.cursor < r.sequence ↔ cursor < r.sequence ∨ gap) :
    let lines := (rs.filter (Hears cursor part.deviceMonotonicMs gap)).flatMap
      (fixesOf (D := D) part.deviceMonotonicMs)
    (rs.foldl (Model.consumeRecord part) (m, out)).1.InLoop part ∧
      fixes (rs.foldl (Model.consumeRecord part) (m, out)).2 = fixes out ++ lines ∧
      m.Accounted (rs.foldl (Model.consumeRecord part) (m, out)).1 lines := by
  induction rs generalizing m out with
  | nil => exact ⟨h, by simp, fun which _ => .inl rfl⟩
  | cons r rs ih =>
    rw [List.pairwise_cons] at hinc
    have hr := hseen r List.mem_cons_self
    obtain ⟨hloop, hlines, haccounted⟩ := h.consumeRecord (r := r) out hpart
    have hears : Hears m.cursor m.now false r = Hears cursor part.deviceMonotonicMs gap r := by
      simp only [Hears, h.now, Bool.false_eq_true, or_false, gt_iff_lt, hr]
    obtain ⟨hend, hrest, haccounted'⟩ :=
      ih (Model.consumeRecord part (m, out) r).2 hloop hinc.2 fun r' hr' =>
        seen_consumeRecord (hinc.1 r' hr') hr (hseen r' (List.mem_cons_of_mem r hr'))
    have hfilter : ((r :: rs).filter (Hears cursor part.deviceMonotonicMs gap)).flatMap
        (fixesOf (D := D) part.deviceMonotonicMs) =
        (if Hears cursor part.deviceMonotonicMs gap r then
          fixesOf part.deviceMonotonicMs r else []) ++
        (rs.filter (Hears cursor part.deviceMonotonicMs gap)).flatMap
          (fixesOf part.deviceMonotonicMs) := by
      rw [List.filter_cons]
      split_ifs
      · rw [List.flatMap_cons]
      · rw [List.nil_append]
    rw [hears] at hlines haccounted
    refine ⟨hend, hrest.trans ?_, hfilter ▸ haccounted.trans haccounted'⟩
    rw [hlines, hfilter, List.append_assoc]

theorem cursor_consumeRecord_le {part : GnssObservations} {r : GnssObservation}
    {out : List (Line D)} {c : UInt64} (hm : m.cursor ≤ c) (hr : r.sequence ≤ c) :
    (Model.consumeRecord part (m, out) r).1.cursor ≤ c := by
  unfold Model.consumeRecord
  split_ifs
  · exact hm
  · exact hr

theorem cursor_consumeRecords_le {part : GnssObservations} {rs : List GnssObservation}
    {out : List (Line D)} {c : UInt64} (hm : m.cursor ≤ c) (hrs : ∀ r ∈ rs, r.sequence ≤ c) :
    (rs.foldl (Model.consumeRecord part) (m, out)).1.cursor ≤ c := by
  induction rs generalizing m out with
  | nil => exact hm
  | cons r rs ih =>
    obtain ⟨hr, hrs⟩ := List.forall_mem_cons.1 hrs
    exact ih (cursor_consumeRecord_le hm hr) hrs

theorem Behind.enter (h : m.Behind) (session : UInt64) : (m.enter session).Behind := by
  unfold Model.enter
  split_ifs
  · rintro (_ | _) ⟨⟩
  · exact h

/-- The batch that `consume` applies first leads into its loop. -/
theorem Behind.header (h : m.Behind) (batch : GnssObservations) :
    (m.apply (m.header batch)).InLoop { m.header batch with gap := false } := by
  refine ⟨apply_session m _, apply_now m _, fun which hvalid => ?_⟩
  rw [apply_nil rfl, finish_shown_eq] at hvalid ⊢
  have hvalid := valid_of_expire hvalid
  obtain ⟨hsame, hgap, -⟩ := start_shown hvalid
  have hcursor : (m.header batch).cursor = m.cursor := by
    show (if batch.gap then 0 else m.cursor) = m.cursor
    rw [show batch.gap = false from hgap]
    rfl
  rw [expire_sequence, hsame, finish_cursor, hcursor]
  rw [hsame] at hvalid
  exact h which hvalid

theorem heard_enter (batch : GnssObservations) :
    (m.enter batch.session).heard batch = m.heard batch := by
  rw [Model.heard, Model.enter_enter]
  rfl

/-- `consume`, from the loop on, for a model that is in the session of the batch. -/
theorem Behind.consume (h : m.Behind) {batch : GnssObservations} (hm : m.enter batch.session = m)
    (hvalid : batch.Valid) (hcursor : batch.gap = false → m.cursor ≤ batch.cursor)
    (out : List (Line D)) :
    let part := { m.header batch with gap := false }
    let state := batch.records.foldl (Model.consumeRecord part) (m.apply (m.header batch), out)
    let m' := state.1.apply { part with records := [], cursor := batch.cursor }
    let lines := (m.heard batch).flatMap (fixesOf (D := D) batch.deviceMonotonicMs)
    m'.Behind ∧ fixes state.2 = fixes out ++ lines ∧ m.Accounted m' lines := by
  intro part state m' lines
  have hle : (m.header batch).cursor ≤ batch.cursor := by
    show (if batch.gap then 0 else m.cursor) ≤ batch.cursor
    cases hgap : batch.gap with
    | false => exact hcursor hgap
    | true => exact UInt64.zero_le
  have hseen : ∀ r ∈ batch.records, (m.apply (m.header batch)).cursor < r.sequence ↔
      m.cursor < r.sequence ∨ batch.gap := by
    intro r hr
    have hpos : 0 < r.sequence := (hvalid.follows r hr).newer
    show (if batch.gap then 0 else m.cursor) < r.sequence ↔ _
    cases batch.gap with
    | false => simp
    | true => simpa using hpos
  obtain ⟨hloop, hlines, haccounted⟩ :=
    (h.header batch).consumeRecords out rfl hvalid.increasing hseen
  have hend : state.1.cursor ≤ batch.cursor :=
    cursor_consumeRecords_le hle fun r hr => (hvalid.follows r hr).le_cursor
  have hstart : state.1.start { part with records := [], cursor := batch.cursor } = state.1 :=
    start_same hloop.session hloop.now rfl
  have hshown : ∀ which, m'.shown which = expire state.1.now (state.1.shown which) := by
    intro which
    show (state.1.apply _).shown which = _
    rw [apply_nil rfl, hstart, finish_shown_eq]
  have heard : lines = (batch.records.filter
      (Hears m.cursor batch.deviceMonotonicMs batch.gap)).flatMap
        (fixesOf batch.deviceMonotonicMs) := by
    show (m.heard batch).flatMap _ = _
    rw [Model.heard, hm]
  refine ⟨fun which hvalid' => ?_, ?_, fun which hvalid' => ?_⟩
  · rw [hshown] at hvalid' ⊢
    rw [expire_sequence]
    exact UInt64.le_trans (hloop.behind which (valid_of_expire hvalid')) hend
  · rw [heard]
    exact hlines
  · rw [hshown] at hvalid' ⊢
    have hsame := (expire_valid hvalid').1
    rw [hsame] at hvalid' ⊢
    rw [heard]
    refine (haccounted which hvalid').imp_left fun hold => ?_
    rw [hold] at hvalid' ⊢
    rw [apply_nil rfl, finish_shown_eq] at hvalid' ⊢
    have hfirst := (expire_valid hvalid').1
    rw [hfirst] at hvalid' ⊢
    exact (start_shown hvalid').1

end Model

namespace PositionReader

/-- The model of the reader that `consume` starts with. -/
theorem model_replaced (reader : PositionReader D) (session : UInt64) :
    (if reader.model.session ≠ 0 ∧ session ≠ reader.model.session then {}
      else reader : PositionReader D).model = reader.model.enter session := by
  unfold Model.enter
  split_ifs <;> rfl

theorem fixes_notices (changed gap : Prop) [Decidable changed] [Decidable gap] :
    fixes ((if changed then [Line.sessionChanged] else []) ++
      (if gap then [Line.gap] else []) : List (Line D)) = [] := by
  split_ifs <;> rfl

theorem fixes_availability (m : Model D) (p : Position D) (previous : Bool) (name : String) :
    fixes (m.availability p previous name) = [] := by
  unfold Model.availability
  split_ifs <;> rfl

/-- What `consume` prints with coordinates, and what the next one can rely on. -/
theorem consume_fixes {reader : PositionReader D} (h : reader.model.Behind)
    {batch : GnssObservations} (hanswers : Answers reader batch) :
    (reader.consume batch).1.model.Behind ∧
      fixes (reader.consume batch).2 =
        (reader.model.heard batch).flatMap (fixesOf batch.deviceMonotonicMs) ∧
      reader.model.Accounted (reader.consume batch).1.model (fixes (reader.consume batch).2) := by
  obtain ⟨⟨f, hf⟩, hcursor⟩ := hanswers
  obtain ⟨-, -, -, -, hvalid⟩ := sent_of_parse hf
  have hreset := reader.model_replaced batch.session
  have hloop := fun out => (h.enter batch.session).consume
    (reader.model.enter_enter batch.session) hvalid hcursor out
  rw [Model.heard_enter] at hloop
  have hlines : fixes (reader.consume batch).2 =
      (reader.model.heard batch).flatMap (fixesOf batch.deviceMonotonicMs) := by
    unfold consume
    dsimp only
    rw [hreset, fixes_append, fixes_append, (hloop _).2.1, fixes_notices, fixes_availability,
      fixes_availability,
      List.nil_append, List.append_nil, List.append_nil]
  refine ⟨?_, hlines, fun which hshown => ?_⟩
  · unfold consume
    dsimp only
    rw [hreset]
    exact (hloop _).1
  · rw [hlines]
    unfold consume at hshown ⊢
    dsimp only at hshown ⊢
    rw [hreset] at hshown ⊢
    refine ((hloop _).2.2 which hshown).imp_left fun hold => ?_
    rw [hold] at hshown ⊢
    unfold Model.enter at hshown ⊢
    split_ifs at hshown ⊢
    · cases which <;> cases hshown
    · rfl

theorem behind_exec (polls : List GnssObservations)
    (h : (positionReader D).Along Answers (positionReader D).init polls) :
    ((positionReader D).exec (positionReader D).init polls).model.Behind :=
  (positionReader D).historyAlong (R := fun _ reader => reader.model.Behind)
    (by rintro (_ | _) ⟨⟩) (fun _ _ hanswers hbehind => (consume_fixes hbehind hanswers).1) polls h

/-- Two fixes, one second and one poll apart. -/
def twoFixes : List GnssObservations :=
  [{ cursor := 1, deviceMonotonicMs := 1000, session := 5
     records := [
      { sequence := 1, receivedMs := 900
        sentence := ascii "$GNGGA,120000,0000.0,N,00000.0,E,4,18,0.8,15,M,5,M,,*5A" }] },
    { cursor := 2, deviceMonotonicMs := 2000, session := 5
      records := [
        { sequence := 2, receivedMs := 1900
          sentence := ascii "$GNGGA,120001,0000.0,N,00000.0,E,4,18,0.8,15,M,5,M,,*5B" }] }]

theorem answers_twoFixes :
    (positionReader Rat).Along Answers (positionReader Rat).init twoFixes :=
  ⟨⟨⟨_, parse_response (by decide) (by decide)⟩, fun _ => by decide⟩,
    ⟨⟨_, parse_response (by decide) (by decide)⟩, fun _ => by decide +kernel⟩, trivial⟩

/-- In every run of polls, each one answered from the cursor of the reader on, a poll prints
with coordinates just the readings of the records that its batch has for the model, in
their order: the valid positions that are at most two seconds old. -/
theorem coordinates_exact (polls : List GnssObservations) (batch : GnssObservations)
    (h : (positionReader D).Along Answers (positionReader D).init (polls ++ [batch])) :
    fixes (((positionReader D).exec (positionReader D).init polls).consume batch).2 =
      (((positionReader D).exec (positionReader D).init polls).model.heard batch).flatMap
        (fixesOf batch.deviceMonotonicMs) := by
  rw [System.along_snoc] at h
  exact (consume_fixes (behind_exec polls h.1) h.2).2.1

theorem coordinates_exact_twoFixes :
    fixes (((positionReader Rat).exec (positionReader Rat).init (twoFixes.take 1)).consume
      twoFixes[1]).2 =
        (((positionReader Rat).exec (positionReader Rat).init (twoFixes.take 1)).model.heard
          twoFixes[1]).flatMap (fixesOf 2000) :=
  coordinates_exact (twoFixes.take 1) twoFixes[1] answers_twoFixes

/-- No position that the reader holds as current went unprinted. -/
theorem current_printed (polls : List GnssObservations)
    (h : (positionReader D).Along Answers (positionReader D).init polls) (which : Solution)
    (hvalid : (((positionReader D).exec (positionReader D).init polls).model.shown which).valid) :
    ∃ age, Line.position which.name
      (((positionReader D).exec (positionReader D).init polls).model.shown which) (some age) ∈
        ((positionReader D).outputs (positionReader D).init polls).flatten := by
  induction polls using List.reverseRecOn with
  | nil => cases which <;> cases hvalid
  | append_singleton polls batch ih =>
    rw [System.along_snoc] at h
    rw [System.exec_snoc] at hvalid ⊢
    rw [System.outputs_snoc, List.flatten_append, List.flatten_singleton]
    rcases (consume_fixes (behind_exec polls h.1) h.2).2.2 which hvalid with hold | ⟨age, hnew⟩
    · have hsame : (((positionReader D).step
          ((positionReader D).exec (positionReader D).init polls) batch).1.model.shown which) =
          ((positionReader D).exec (positionReader D).init polls).model.shown which := hold
      rw [hsame] at hvalid ⊢
      obtain ⟨age, hprinted⟩ := ih h.1 hvalid
      exact ⟨age, List.mem_append_left _ hprinted⟩
    · exact ⟨age, List.mem_append_right _ (List.mem_filter.1 hnew).1⟩

theorem current_printed_twoFixes : ∃ age, Line.position "GGA"
    ((positionReader Rat).exec (positionReader Rat).init twoFixes).model.gnss (some age) ∈
      ((positionReader Rat).outputs (positionReader Rat).init twoFixes).flatten :=
  current_printed twoFixes answers_twoFixes .gnss (by decide +kernel)

/-! ### Each fix once -/

/-- A sentence has at most one position. -/
theorem sequences_fixesOf (now : UInt64) (r : GnssObservation) :
    ((fixesOf (D := D) now r).filterMap Line.fix).Sublist [r.sequence] := by
  have hfix : ∀ which, ((fixOf (D := D) now r which).filterMap Line.fix).Sublist [r.sequence] := by
    intro which
    unfold fixOf
    cases hp : (readSentence D r).position which with
    | none => exact List.nil_sublist _
    | some p =>
      dsimp only
      split_ifs
      · simp [Line.fix, (sequence_of_position hp).1]
      · exact List.nil_sublist _
  rw [fixesOf, List.filterMap_append]
  cases hp : (readSentence D r).position .gnss with
  | none =>
    have hnone : fixOf (D := D) now r .gnss = [] := by rw [fixOf, hp]
    rw [hnone]
    exact hfix .rtk
  | some p =>
    have hother : (readSentence D r).position .rtk = none := by
      cases hread : readSentence D r with
      | gga q => rfl
      | _ =>
        rw [hread] at hp
        cases hp
    have hnone : fixOf (D := D) now r .rtk = [] := by rw [fixOf, hother]
    rw [hnone, List.filterMap_nil, List.append_nil]
    exact hfix .gnss

theorem filterMap_fixes (lines : List (Line D)) :
    (fixes lines).filterMap Line.fix = lines.filterMap Line.fix := by
  rw [fixes, List.filterMap_filter]
  congr 1
  funext line
  cases h : line.fix <;> simp

theorem sequences_heard (now : UInt64) (rs : List GnssObservation) :
    ((rs.flatMap (fixesOf (D := D) now)).filterMap Line.fix).Sublist (rs.map (·.sequence)) := by
  induction rs with
  | nil => exact List.Sublist.refl _
  | cons r rs ih =>
    rw [List.flatMap_cons, List.filterMap_append, List.map_cons]
    exact (sequences_fixesOf now r).append ih

theorem increasing_of_answers (session : UInt64) {reader : PositionReader D}
    (hbehind : reader.model.Behind) {polls : List GnssObservations}
    (h : (positionReader D).Along Answers reader polls) (hgap : ∀ b ∈ polls, b.gap = false)
    (hsession : ∀ b ∈ polls, b.session = session) :
    (∀ n ∈ ((positionReader D).outputs reader polls).flatten.filterMap Line.fix,
      (reader.model.enter session).cursor < n) ∧
      (((positionReader D).outputs reader polls).flatten.filterMap Line.fix).Pairwise (· < ·) := by
  induction polls generalizing reader with
  | nil => exact ⟨by simp, List.Pairwise.nil⟩
  | cons batch polls ih =>
    obtain ⟨hanswers, hrest⟩ := h
    obtain ⟨hbgap, hgap⟩ := List.forall_mem_cons.1 hgap
    obtain ⟨rfl, hsession⟩ := List.forall_mem_cons.1 hsession
    obtain ⟨hnext, hlines, -⟩ := consume_fixes hbehind hanswers
    have hcursor : (reader.consume batch).1.model.cursor = batch.cursor := rfl
    have hsame : (reader.consume batch).1.model.session = batch.session := Model.apply_session _ _
    obtain ⟨hpast, hinc⟩ := ih hnext hrest hgap hsession
    have hvalid : batch.Valid := by
      obtain ⟨f, hf⟩ := hanswers.1
      exact (sent_of_parse hf).2.2.2.2
    have hsub : ((reader.consume batch).2.filterMap Line.fix).Sublist
        ((reader.model.heard batch).map (·.sequence)) := by
      rw [← filterMap_fixes, hlines]
      exact sequences_heard _ _
    have hbounds : ∀ n ∈ (reader.consume batch).2.filterMap Line.fix,
        (reader.model.enter batch.session).cursor < n ∧ n ≤ batch.cursor := by
      intro n hn
      obtain ⟨r, hr, rfl⟩ := List.mem_map.1 (hsub.subset hn)
      exact Model.mem_heard hvalid hbgap hr
    have henter : ((reader.consume batch).1.model.enter batch.session).cursor = batch.cursor := by
      rw [Model.enter, if_neg fun hne => hne.2 hsame.symm, hcursor]
    have hpast' : ∀ n ∈ ((positionReader D).outputs ((positionReader D).step reader batch).1
        polls).flatten.filterMap Line.fix, batch.cursor < n := fun n hn =>
      henter ▸ hpast n hn
    rw [System.outputs_cons, List.flatten_cons, List.filterMap_append]
    refine ⟨fun n hn => ?_, List.pairwise_append.2 ⟨?_, hinc, fun n hn n' hn' => ?_⟩⟩
    · rcases List.mem_append.1 hn with hn | hn
      · exact (hbounds n hn).1
      · exact UInt64.lt_of_le_of_lt (hanswers.2 hbgap) (hpast' n hn)
    · refine List.Pairwise.sublist hsub (List.pairwise_map.2 ?_)
      exact hvalid.increasing.sublist List.filter_sublist
    · exact UInt64.lt_of_le_of_lt (hbounds n hn).2 (hpast' n' hn')

/-- While the polls report no gap and stay in one session, the sequence numbers printed with
coordinates increase from line to line: no record is printed as a new measurement twice. -/
theorem coordinates_increase (before polls : List GnssObservations)
    (h : (positionReader D).Along Answers (positionReader D).init (before ++ polls))
    (hgap : ∀ b ∈ polls, b.gap = false)
    (hsession : ∀ b ∈ polls, ∀ b' ∈ polls, b.session = b'.session) :
    (((positionReader D).outputs ((positionReader D).exec (positionReader D).init before)
      polls).flatten.filterMap Line.fix).Pairwise (· < ·) := by
  rw [System.along_append] at h
  cases polls with
  | nil => exact List.Pairwise.nil
  | cons batch polls =>
    exact (increasing_of_answers batch.session (behind_exec before h.1) h.2 hgap
      fun b hb => hsession b hb batch List.mem_cons_self).2

theorem coordinates_increase_twoFixes :
    (((positionReader Rat).outputs ((positionReader Rat).exec (positionReader Rat).init [])
      twoFixes).flatten.filterMap Line.fix).Pairwise (· < ·) :=
  coordinates_increase [] twoFixes answers_twoFixes (by decide) (by decide)

example : (((positionReader Rat).outputs {} twoFixes).flatten.filterMap Line.fix) = [1, 2] := by
  decide +kernel

end PositionReader

end PrismSdk.Gnss
