import Mathlib.Data.List.DropRight
import PrismSdk.Gnss.UsedSatellites

/-! The origin of the tracks. The two tracks share one, and it is the first valid position
that the model saw since the tracks were last emptied. -/

namespace PrismSdk.Gnss

open Library

variable {D : Type} [Double D]

/-! ### Positions -/

/-- The position of an ADRNAV sentence is read from its fields. -/
theorem adrnavPosition_of_readAdrnav {r : GnssObservation} {star : ℕ} {p : Position D}
    (h : readAdrnav D r star = .adrnav p) : ∃ header f, p = adrnavPosition header f r := by
  unfold readAdrnav at h
  split at h
  · cases h
  · dsimp only at h
    split_ifs at h
    exact ⟨_, _, (Sentence.adrnav.inj h).symm⟩

/-- A sentence with a position has one that is read from its fields. -/
theorem position_cases {r : GnssObservation} {which : Solution} {p : Position D}
    (h : (readSentence D r).position which = some p) :
    (∃ f, which = .gnss ∧ p = ggaPosition f r) ∨
      ∃ header f, which = .rtk ∧ p = adrnavPosition header f r := by
  unfold readSentence at h
  dsimp only at h
  split_ifs at h
  · cases which <;> cases h
  · rcases readAdrnav_cases (D := D) r (r.sentence.idxOf '*'.toUInt8) with heq | ⟨q, heq⟩
    · rw [heq] at h
      cases which <;> cases h
    · rw [heq] at h
      cases which with
      | gnss => cases h
      | rtk =>
        obtain rfl := Option.some.inj h
        obtain ⟨header, f, hp⟩ := adrnavPosition_of_readAdrnav heq
        exact .inr ⟨header, f, rfl, hp⟩
  · cases which <;> cases h
  · cases which with
    | gnss => exact .inl ⟨_, rfl, (Option.some.inj h).symm⟩
    | rtk => cases h
  · rcases readGsa_cases (D := D) _ _ r with heq | ⟨sys, u, heq⟩ <;> rw [heq] at h <;>
      cases which <;> cases h
  · cases which <;> cases h
  · rcases readGsv_cases (D := D) _ _ r with heq | ⟨key, heq⟩ | ⟨g, heq⟩ <;> rw [heq] at h <;>
      cases which <;> cases h

theorem utcValid_nil : utcValid D [] = false := rfl

/-- A valid position has an epoch, so that it is not taken for a repetition of no position. -/
theorem epoch_ne_nil {r : GnssObservation} {which : Solution} {p : Position D}
    (h : (readSentence D r).position which = some p) (hvalid : p.valid) : p.epoch ≠ [] := by
  rcases position_cases h with ⟨f, -, rfl⟩ | ⟨header, f, -, rfl⟩
  · intro hepoch
    have hutc : utcValid D (field f 1) := (of_decide_eq_true hvalid).2.2.2.2
    rw [show field f 1 = [] from hepoch, utcValid_nil] at hutc
    cases hutc
  · intro hepoch
    have hcolon := (List.append_eq_nil_iff.1 (List.append_eq_nil_iff.1 hepoch).1).2
    cases hcolon

/-- The origin that a position gives to the tracks. -/
def Position.origin (p : Position D) : Origin D where
  valid := true
  heightValid := p.height.isSome
  latitude := p.latitude
  longitude := p.longitude
  height := p.height.getD 0.0

/-! ### What the model has seen since the tracks were emptied -/

/-- The tracks are empty after it. -/
def Seen.Empties : Seen → Bool
  | .reset => true
  | .cleared => true
  | _ => false

variable (D) in
/-- The valid position that the model sees. -/
def Seen.fix : Seen → Option (Position D)
  | .record r =>
    (((readSentence D r).position .gnss).or ((readSentence D r).position .rtk)).filter (·.valid)
  | _ => none

/-- What was seen since the tracks were last emptied. -/
def sinceEmpty (es : List Seen) : List Seen := es.rtakeWhile fun e => !e.Empties

variable (D) in
/-- The origin after the model has seen `es`. -/
def originOf (es : List Seen) : Origin D :=
  ((sinceEmpty es).findSome? (Seen.fix D)).elim {} Position.origin

theorem sinceEmpty_snoc_of_empties (es : List Seen) {e : Seen} (h : e.Empties) :
    sinceEmpty (es ++ [e]) = [] :=
  List.rtakeWhile_concat_neg _ _ _ (by simp [h])

theorem sinceEmpty_snoc (es : List Seen) {e : Seen} (h : e.Empties = false) :
    sinceEmpty (es ++ [e]) = sinceEmpty es ++ [e] :=
  List.rtakeWhile_concat_pos _ _ _ (by simp [h])

theorem originOf_snoc {es : List Seen} {e : Seen} (h : e.Empties = false) :
    originOf D (es ++ [e]) =
      if (originOf D es).valid then originOf D es else (e.fix D).elim {} Position.origin := by
  rw [originOf, originOf, sinceEmpty_snoc es h, List.findSome?_append]
  cases (sinceEmpty es).findSome? (Seen.fix D) with
  | none => simp
  | some p => simp [Position.origin]

theorem originOf_valid_of_none {es : List Seen} (h : (originOf D es).valid = false) :
    originOf D es = {} := by
  unfold originOf at h ⊢
  cases hfix : (sinceEmpty es).findSome? (Seen.fix D) with
  | none => rfl
  | some p =>
    rw [hfix] at h
    cases h

/-- A sentence has one position at most. -/
theorem Sentence.position_unique {s : Sentence D} {which : Solution} {p : Position D}
    (other : Solution) (h : s.position which = some p) (hne : other ≠ which) : s.position other = none := by
  cases s <;> cases which <;> cases other <;> first | exact absurd rfl hne | rfl | cases h

theorem Seen.fix_of_position {r : GnssObservation} {which : Solution} {p : Position D}
    (h : (readSentence D r).position which = some p) :
    (Seen.record r).fix D = if p.valid then some p else none := by
  cases which with
  | gnss => simp [fix, h, Option.filter]
  | rtk =>
    have hnone := Sentence.position_unique .gnss h (by simp)
    simp [fix, h, hnone, Option.filter]

theorem Seen.fix_of_none {r : GnssObservation}
    (h : ∀ which, (readSentence D r).position which = none) : (Seen.record r).fix D = none := by
  simp [fix, h]

/-! ### The model -/

namespace Model

/-- `append` takes the origin from a valid position when there is none. -/
theorem append_origin (m : Model D) (p : Position D) (track : List (Point D)) (last : Text) :
    (m.append p track last).1.origin =
      if p.valid ∧ p.epoch ≠ last ∧ m.origin.valid = false then p.origin else m.origin := by
  unfold append
  by_cases hvalid : p.valid
  · by_cases hepoch : p.epoch = last
    · simp [hvalid, hepoch]
    · cases m.origin.valid <;> simp [hvalid, hepoch, Position.origin]
  · simp [hvalid]

theorem append_last (m : Model D) (p : Position D) (track : List (Point D)) (last : Text) :
    (m.append p track last).2.2 = if p.valid then p.epoch else [] := by
  unfold append
  by_cases hvalid : p.valid
  · by_cases hepoch : p.epoch = last
    · simp [hvalid, hepoch]
    · simp [hvalid, hepoch]
  · simp [hvalid]

/-- What a sentence with a position does to the origin and the epochs. -/
theorem interpret_origin {which : Solution} {s : Sentence D} {p : Position D}
    (h : s.position which = some p) (m : Model D) :
    (m.interpret s).origin =
        (if p.valid ∧ p.epoch ≠ m.lastEpoch which ∧ m.origin.valid = false then p.origin
          else m.origin) ∧
      (m.interpret s).lastEpoch which = (if p.valid then p.epoch else []) ∧
      ∀ other ≠ which, (m.interpret s).lastEpoch other = m.lastEpoch other := by
  unfold Sentence.position at h
  split at h
  · rw [Option.some.inj h, interpret_gga, ← append_origin m p m.gnssTrack, ← append_last m p
      m.gnssTrack m.lastGga]
    refine ⟨rfl, rfl, fun other hne => ?_⟩
    cases other with
    | gnss => exact absurd rfl hne
    | rtk => rfl
  · rw [Option.some.inj h, interpret_adrnav, ← append_origin m p m.rtkTrack, ← append_last m p
      m.rtkTrack m.lastRtk]
    refine ⟨rfl, rfl, fun other hne => ?_⟩
    cases other with
    | gnss => rfl
    | rtk => exact absurd rfl hne
  · cases h

theorem interpret_origin_of_none {s : Sentence D} (h : ∀ which, s.position which = none)
    (m : Model D) : (m.interpret s).origin = m.origin ∧
      ∀ which, (m.interpret s).lastEpoch which = m.lastEpoch which := by
  cases s with
  | gga p => cases h .gnss
  | adrnav p => cases h .rtk
  | gsv g =>
    rw [interpret, addPart_eq]
    exact ⟨rfl, fun which => by cases which <;> rfl⟩
  | corrupt => exact ⟨rfl, fun which => by cases which <;> rfl⟩
  | ignored => exact ⟨rfl, fun which => by cases which <;> rfl⟩
  | gsa system used => exact ⟨rfl, fun which => by cases which <;> rfl⟩
  | gsvMisfit key => exact ⟨rfl, fun which => by cases which <;> rfl⟩

/-- What is pushed is a valid position, in the frame of the origin that the model has from
then on. -/
theorem happens_push_project {m : Model D} {which : Solution} {e : Seen} {x : Point D}
    (h : m.happens which e = .push x) :
    ∃ r p, e = .record r ∧ (readSentence D r).position which = some p ∧ p.valid = true ∧
      x = { (m.see e).origin.project p with segment := x.segment } := by
  cases e with
  | record r =>
    rw [happens] at h
    cases hp : (readSentence D r).position which with
    | none =>
      rw [hp] at h
      cases h
    | some p =>
      simp only [hp, appended] at h
      split_ifs at h with hpush
      obtain rfl := BoundedQueue.Op.push.inj h
      refine ⟨r, p, rfl, hp, hpush.1, ?_⟩
      have horigin := (interpret_origin hp m).1
      rw [see, sentence, horigin, ← append_origin m p (m.track which)]
  | reset => cases h
  | gap => cases h
  | opened session now => cases h
  | closed cursor => cases h
  | cleared => cases h

end Model

/-- What holds of the origin of `m` after the model has seen `es`. -/
structure Located (es : List Seen) (m : Model D) : Prop where
  origin : m.origin = originOf D es
  /-- Without an origin no epoch is remembered, so that the next valid position gives one. -/
  epochs : m.origin.valid = false → ∀ which, m.lastEpoch which = []
  empty : m.origin.valid = false → ∀ which, stored D which es = []
  /-- Each point of the tracks is a valid position that was seen since the tracks were
  emptied, in the frame of the origin. -/
  points : ∀ which, ∀ a ∈ stored D which es, es.length ≤ a.2 + (sinceEmpty es).length ∧
    ∃ r p, es[a.2]? = some (.record r) ∧ (readSentence D r).position which = some p ∧
      p.valid = true ∧ a.1 = { m.origin.project p with segment := a.1.segment }

namespace Located

variable {es : List Seen} {m : Model D} {e : Seen}

/-- What neither empties the tracks nor has a position leaves the origin alone. -/
theorem see_steady (he : e.Empties = false)
    (hnone : ∀ r, e = .record r → ∀ which, (readSentence D r).position which = none) :
    (m.see e).origin = m.origin ∧ (∀ which, (m.see e).lastEpoch which = m.lastEpoch which) ∧
      e.fix D = none := by
  cases e with
  | record r =>
    have hr := hnone r rfl
    obtain ⟨horigin, hlast⟩ := Model.interpret_origin_of_none hr m
    exact ⟨horigin, hlast, Seen.fix_of_none hr⟩
  | reset => cases he
  | cleared => cases he
  | gap => exact ⟨rfl, fun which => by cases which <;> rfl, rfl⟩
  | opened session now => exact ⟨rfl, fun which => by cases which <;> rfl, rfl⟩
  | closed cursor => exact ⟨rfl, fun which => by cases which <;> rfl, rfl⟩

theorem see_origin (h : Located es m) (he : e.Empties = false) :
    (m.see e).origin = originOf D (es ++ [e]) ∧
      ((m.see e).origin.valid = false → ∀ which, (m.see e).lastEpoch which = []) := by
  rw [originOf_snoc he, ← h.origin]
  by_cases hpos : ∃ r which p, e = .record r ∧ (readSentence D r).position which = some p
  · obtain ⟨r, which, p, rfl, hp⟩ := hpos
    obtain ⟨horigin, hlast, hother⟩ := Model.interpret_origin hp m
    rw [Model.see, Model.sentence, horigin, Seen.fix_of_position hp]
    cases hvalid : m.origin.valid with
    | true => simp [hvalid]
    | false =>
      have hempty : m.origin = {} := h.origin.trans (originOf_valid_of_none (h.origin ▸ hvalid))
      have hepochs := h.epochs hvalid
      cases hfix : p.valid with
      | true =>
        have hepoch := epoch_ne_nil hp hfix
        simp [hepochs, hepoch, Position.origin]
      | false =>
        refine ⟨by simp [hempty], fun _ other => ?_⟩
        by_cases hne : other = which
        · rw [hne, hlast, hfix]
          rfl
        · rw [hother other hne, hepochs]
  · obtain ⟨horigin, hlast, hfix⟩ := see_steady (m := m) he fun r hr which =>
      Option.eq_none_iff_forall_ne_some.2 fun p hp => hpos ⟨r, which, p, hr, hp⟩
    rw [horigin, hfix]
    refine ⟨?_, fun hvalid which => (hlast which).trans (h.epochs hvalid which)⟩
    cases hvalid : m.origin.valid with
    | true => rfl
    | false => exact h.origin.trans (originOf_valid_of_none (h.origin ▸ hvalid))

/-- An origin is kept until the tracks are emptied. -/
theorem see_origin_of_valid (h : Located es m) (he : e.Empties = false)
    (hvalid : m.origin.valid) : (m.see e).origin = m.origin := by
  rw [(h.see_origin he).1, originOf_snoc he, ← h.origin, if_pos hvalid]

theorem snoc_of_empties (he : e.Empties) (hm : (sights D).exec (sights D).init es = m) :
    Located (es ++ [e]) (m.see e) := by
  have hsince := sinceEmpty_snoc_of_empties es he
  have horigin : originOf D (es ++ [e]) = {} := by rw [originOf, hsince]; rfl
  have hstored : ∀ which, stored D which (es ++ [e]) = [] := by
    intro which
    rw [stored_snoc, hm]
    cases e <;> first | rfl | cases he
  have hsee : (m.see e).origin = {} ∧ ∀ which, (m.see e).lastEpoch which = [] := by
    cases e with
    | reset => exact ⟨rfl, fun which => by cases which <;> rfl⟩
    | cleared => exact ⟨rfl, fun which => by cases which <;> rfl⟩
    | gap => cases he
    | record r => cases he
    | opened session now => cases he
    | closed cursor => cases he
  exact {
    origin := hsee.1.trans horigin.symm
    epochs := fun _ => hsee.2
    empty := fun _ => hstored
    points := fun which a ha => by
      rw [hstored] at ha
      cases ha }

theorem snoc (h : Located es m) (hm : (sights D).exec (sights D).init es = m) :
    Located (es ++ [e]) (m.see e) := by
  cases he : e.Empties with
  | true => exact snoc_of_empties he hm
  | false =>
    obtain ⟨horigin, hepochs⟩ := h.see_origin he
    have hsince := sinceEmpty_snoc es he
    -- A point is an old one, in the frame of an origin that is kept, or the new one.
    have hmem : ∀ which, ∀ a ∈ stored D which (es ++ [e]),
        (a ∈ stored D which es ∧ (m.see e).origin = m.origin) ∨
          m.happens which e = .push a.1 ∧ a.2 = es.length := by
      intro which a ha
      rw [stored_snoc, hm] at ha
      rcases BoundedQueue.mem_act ha with ⟨hold, -⟩ | hnew
      · refine .inl ⟨hold, h.see_origin_of_valid he ?_⟩
        by_contra hvalid
        rw [h.empty (Bool.not_eq_true _ ▸ hvalid)] at hold
        cases hold
      · obtain ⟨x, hx, rfl⟩ := BoundedQueue.Op.map_eq_push.1 hnew
        exact .inr ⟨hx, rfl⟩
    refine ⟨horigin, hepochs, fun hvalid which => ?_, fun which a ha => ?_⟩
    · refine List.eq_nil_iff_forall_not_mem.2 fun a ha => ?_
      rcases hmem which a ha with ⟨hold, hsame⟩ | ⟨hnew, -⟩
      · rw [h.empty (hsame ▸ hvalid)] at hold
        cases hold
      · obtain ⟨r, p, rfl, hp, hfix, -⟩ := Model.happens_push_project hnew
        have hgives := (h.see_origin he).1
        rw [originOf_snoc he, Seen.fix_of_position hp, if_pos hfix, ← h.origin] at hgives
        rw [hgives] at hvalid
        split_ifs at hvalid with hold
        · rw [hold] at hvalid
          cases hvalid
        · cases hvalid
    · rcases hmem which a ha with ⟨hold, hsame⟩ | ⟨hnew, hat⟩
      · obtain ⟨hlen, r, p, hr, hp, hvalid, heq⟩ := h.points which a hold
        refine ⟨by simp only [hsince, List.length_append]; omega, r, p, ?_, hp, hvalid, ?_⟩
        · rw [List.getElem?_append_left (lt_of_mem_stored hold)]
          exact hr
        · rw [hsame]
          exact heq
      · obtain ⟨r, p, rfl, hp, hvalid, heq⟩ := Model.happens_push_project hnew
        refine ⟨by simp [hsince, hat], r, p, ?_, hp, hvalid, heq⟩
        rw [hat, List.getElem?_concat_length]

end Located

theorem located_exec (es : List Seen) : Located (D := D) es ((sights D).exec (sights D).init es) := by
  refine (sights D).history (R := Located) ?_ (fun es e h => h.snoc rfl) es
  exact ⟨rfl, fun _ which => by cases which <;> rfl, fun _ which => rfl,
    fun which a ha => by cases ha⟩

/-- The two tracks are drawn in one frame: in every run of `apply` and `clearTracks` calls,
the origin is the first valid position that the model saw since the tracks were last emptied,
by a clearing or by another session, and each point of either track is a valid position seen
since then, projected from that origin. -/
theorem tracks_shareOrigin (calls : List PlotCall) :
    let es := sightsOf D (plot D).init calls
    let m := (plot D).exec (plot D).init calls
    m.origin = originOf D es ∧ (m.origin.valid = false → ∀ which, m.track which = []) ∧
      ∀ which, (stored D which es).map Prod.fst = m.track which ∧
        ∀ a ∈ stored D which es, es.length ≤ a.2 + (sinceEmpty es).length ∧
          ∃ r p, es[a.2]? = some (.record r) ∧ (readSentence D r).position which = some p ∧
            p.valid = true ∧ a.1 = { m.origin.project p with segment := a.1.segment } := by
  intro es m
  have hlocated := located_exec (D := D) es
  have hstored := fun which => map_fst_stored (D := D) which es
  rw [exec_seen] at hlocated
  simp only [es, exec_seen] at hstored
  refine ⟨hlocated.origin, fun hvalid which => ?_, fun which => ⟨hstored which,
    hlocated.points which⟩⟩
  rw [← hstored which, hlocated.empty hvalid, List.map_nil]

end PrismSdk.Gnss
