import PrismSdk.Gnss.Satellites

/-! What the parts of the display model do not know of each other. The two positions come
from sentences of their own: without the sentences of one, and without any clearing of the
tracks, the other and the sky view are the same. -/

namespace PrismSdk.Gnss

open Library

variable {D : Type} [Double D]

namespace Model

/-- The model without its tracks and one of its positions. -/
def hide (which : Solution) (m : Model D) : Model D :=
  { m with
    lastGga := [], lastRtk := [], segment := 0, origin := {}, gnssTrack := [], rtkTrack := []
    gnss := if which = .gnss then {} else m.gnss
    rtk := if which = .rtk then {} else m.rtk }

variable {m m' : Model D} {which : Solution}

@[simp] theorem hide_hide : (m.hide which).hide which = m.hide which := by
  cases which <;> rfl

/-- What is hidden does not come back into view. -/
theorem hide_interpret (m : Model D) (s : Sentence D) :
    ((m.hide which).interpret s).hide which = (m.interpret s).hide which := by
  cases s with
  | corrupt => cases which <;> rfl
  | ignored => exact hide_hide
  | adrnav p =>
    rw [interpret_adrnav, interpret_adrnav]
    cases which <;> rfl
  | gga p =>
    rw [interpret_gga, interpret_gga]
    cases which <;> rfl
  | gsa system used => cases which <;> rfl
  | gsv g =>
    obtain ⟨hpending, hcomplete⟩ := addPart_congr (m.hide which) m rfl rfl g
    rw [interpret, interpret, addPart_eq, addPart_eq (m := m), hpending, hcomplete]
    cases which <;> rfl
  | gsvMisfit key => cases which <;> rfl

/-- A sentence with a hidden position changes nothing in view. -/
theorem hide_interpret_of_position {s : Sentence D} {p : Position D}
    (h : s.position which = some p) (m : Model D) : (m.interpret s).hide which = m.hide which := by
  unfold Sentence.position at h
  split at h
  · rw [interpret_gga]
    rfl
  · rw [interpret_adrnav]
    rfl
  · cases h

theorem hide_enter (m : Model D) (session : UInt64) :
    (m.hide which).enter session =
      if m.session ≠ 0 ∧ session ≠ m.session then {} else m.hide which := rfl

theorem hide_start (m : Model D) (b : GnssObservations) :
    ((m.hide which).start b).hide which = (m.start b).hide which := by
  unfold start
  rw [hide_enter, enter]
  split_ifs
  · rfl
  · rfl
  · cases which <;> rfl
  · cases which <;> rfl

theorem hide_finish (m : Model D) (c : UInt64) :
    ((m.hide which).finish c).hide which = (m.finish c).hide which := by
  cases which <;> rfl

theorem heard_hide (which : Solution) (m : Model D) (b : GnssObservations) : (m.hide which).heard b = m.heard b := by
  unfold heard
  rw [hide_enter, enter]
  split_ifs <;> rfl

end Model

variable (D) in
/-- The call without the sentences of one of the positions; clearing the tracks goes too. -/
def without (which : Solution) : PlotCall → Option PlotCall
  | .apply b => some (.apply { b with
      records := b.records.filter fun r => ((readSentence D r).position which).isNone })
  | .clearTracks => none

namespace Model

variable {m m' : Model D} {which : Solution}

theorem hide_sentence (h : m.hide which = m'.hide which) (r : GnssObservation) :
    (m.sentence r).hide which = (m'.sentence r).hide which := by
  rw [sentence, sentence, ← hide_interpret, h, hide_interpret]

/-- In view, it does not matter whether sentences with a hidden position come. -/
theorem hide_sentences (h : m.hide which = m'.hide which) (rs : List GnssObservation) :
    (rs.foldl sentence m).hide which =
      ((rs.filter fun r => ((readSentence D r).position which).isNone).foldl sentence m').hide
        which := by
  induction rs generalizing m m' with
  | nil => exact h
  | cons r rs ih =>
    rw [List.foldl_cons, List.filter_cons]
    cases hp : (readSentence D r).position which with
    | none => exact ih (hide_sentence h r)
    | some p => exact ih ((hide_interpret_of_position hp m).trans h)

theorem hide_apply (h : m.hide which = m'.hide which) {b b' : GnssObservations}
    (hb : without D which (.apply b) = some (.apply b')) :
    (m.apply b).hide which = (m'.apply b').hide which := by
  obtain rfl := PlotCall.apply.inj (Option.some.inj hb)
  have hstart : (m.start b).hide which = (m'.start b).hide which := by
    rw [← hide_start, h, hide_start]
  have hheard : m.heard b = m'.heard b := by
    rw [← heard_hide which m, h, heard_hide]
  have hfilter : m'.heard { b with
      records := b.records.filter fun r => ((readSentence D r).position which).isNone } =
      (m.heard b).filter fun r => ((readSentence D r).position which).isNone := by
    rw [hheard]
    exact List.filter_comm _ _ _
  have hrecords := hide_sentences hstart (m.heard b)
  rw [apply_eq, apply_eq, hfilter, ← hide_finish, hrecords, hide_finish]
  rfl

theorem hide_exec (which : Solution) (calls : List PlotCall) :
    ((plot D).exec (plot D).init calls).hide which =
      ((plot D).exec (plot D).init (calls.filterMap (without D which))).hide which := by
  refine (plot D).exec_filterMap (plot D)
    (R := fun m m' : Model D => m.hide which = m'.hide which) ?_ ?_ rfl calls
  · intro m m' c h hc
    cases c with
    | apply b => cases hc
    | clearTracks => exact h
  · intro m m' c c' h hc
    cases c with
    | apply b =>
      cases c' with
      | apply b' => exact hide_apply h hc
      | clearTracks => cases hc
    | clearTracks => cases hc

theorem shown_hide {other : Solution} (m : Model D) (hne : other ≠ which) :
    (m.hide which).shown other = m.shown other := by
  cases which <;> cases other
  · exact absurd rfl hne
  · rfl
  · rfl
  · exact absurd rfl hne

theorem hide_counters (which : Solution) (m : Model D) :
    (m.hide which).cursor = m.cursor ∧ (m.hide which).session = m.session ∧
      (m.hide which).now = m.now ∧ (m.hide which).rejected = m.rejected ∧
      (m.hide which).gaps = m.gaps := by
  cases which <;> exact ⟨rfl, rfl, rfl, rfl, rfl⟩

theorem satellites_hide (m : Model D) (t : UInt64) :
    (m.hide which).satellites t = m.satellites t := by
  cases which <;> rfl

end Model

/-- A position is never made up from the other, nor changed by a clearing of the tracks:
in every run, without the clearings and without all sentences of one position, the other
position, the sky view at any time, and the counters are the same. -/
theorem positions_independent (which : Solution) (calls : List PlotCall) :
    let m := (plot D).exec (plot D).init calls
    let m' := (plot D).exec (plot D).init (calls.filterMap (without D which))
    (∀ other ≠ which, m'.shown other = m.shown other) ∧
      (∀ t, m'.satellites t = m.satellites t) ∧ m'.cursor = m.cursor ∧ m'.session = m.session ∧
      m'.now = m.now ∧ m'.rejected = m.rejected ∧ m'.gaps = m.gaps := by
  intro m m'
  have h : m'.hide which = m.hide which := (Model.hide_exec which calls).symm
  refine ⟨fun other hne => ?_, fun t => ?_, ?_⟩
  · rw [← Model.shown_hide m' hne, h, Model.shown_hide m hne]
  · rw [← Model.satellites_hide m' t, h, Model.satellites_hide m t]
  · obtain ⟨hcursor, hsession, hnow, hrejected, hgaps⟩ := m'.hide_counters which
    rw [← hcursor, ← hsession, ← hnow, ← hrejected, ← hgaps, h]
    exact m.hide_counters which

end PrismSdk.Gnss
