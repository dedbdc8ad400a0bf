import PrismSdk.Gnss.Apply

/-! A position is shown as valid only while it is the receiver's latest word: the parse of
the last sentence of its kind, interpreted since the last reset and in or after the last
gap, and at most two seconds old. -/

namespace PrismSdk.Gnss

open Library

/-- The two positions of a model. -/
inductive Solution where
  | gnss | rtk
  deriving DecidableEq

variable {D : Type} [Double D]

/-- The position a sentence brings to `append`: GGA for `gnss`, ADRNAV for `rtk`. -/
def Sentence.position : Solution → Sentence D → Option (Position D)
  | .gnss, .gga p => some p
  | .rtk, .adrnav p => some p
  | _, _ => none

namespace Model

def shown (m : Model D) : Solution → Position D
  | .gnss => m.gnss
  | .rtk => m.rtk

/-- The call makes the model a fresh one first. -/
def Resets (m : Model D) : PlotCall → Prop
  | .apply b => m.session ≠ 0 ∧ b.session ≠ m.session
  | .clearTracks => False

end Model

/-- A batch that reports a gap. -/
def PlotCall.IsGap : PlotCall → Prop
  | .apply b => b.gap
  | .clearTracks => False

/-- Among the records that the calls interpreted, the last one with a position of the kind
has the position `p`; no call after its batch resets the model or reports a gap. -/
def IsLatest (which : Solution) (calls : List PlotCall) (p : Position D) : Prop :=
  ∃ before b after pre r post, calls = before ++ .apply b :: after ∧
    Model.heard ((plot D).exec (plot D).init before) b = pre ++ r :: post ∧
    (readSentence D r).position which = some p ∧
    (∀ r' ∈ post ++
        ((plot D).outputs ((plot D).exec (plot D).init (before ++ [.apply b])) after).flatten,
      (readSentence D r').position which = none) ∧
    (∀ c ∈ after, ¬ c.IsGap) ∧
    (plot D).Along (fun m c => ¬ m.Resets c)
      ((plot D).exec (plot D).init (before ++ [.apply b])) after

namespace Model

variable {m : Model D} {which : Solution}

theorem interpret_shown (m : Model D) (s : Sentence D) (which : Solution) :
    (m.interpret s).shown which = (s.position which).getD (m.shown which) := by
  cases s with
  | corrupt => cases which <;> rfl
  | ignored => cases which <;> rfl
  | adrnav p =>
    rw [interpret_adrnav]
    cases which <;> rfl
  | gga p =>
    rw [interpret_gga]
    cases which <;> rfl
  | gsa system used => cases which <;> rfl
  | gsv g =>
    rw [interpret, addPart_eq]
    cases which <;> rfl
  | gsvMisfit key => cases which <;> rfl

/-- The position after some records: that of the last of its kind, if there is one. -/
theorem sentences_shown (m : Model D) (rs : List GnssObservation) (which : Solution) :
    (∃ pre r post, rs = pre ++ r :: post ∧
      (readSentence D r).position which = some ((rs.foldl sentence m).shown which) ∧
      ∀ r' ∈ post, (readSentence D r').position which = none) ∨
    (rs.foldl sentence m).shown which = m.shown which ∧
      ∀ r' ∈ rs, (readSentence D r').position which = none := by
  induction rs using List.reverseRecOn with
  | nil => exact Or.inr ⟨rfl, by simp⟩
  | append_singleton rs r ih =>
    have hshown : ((rs ++ [r]).foldl sentence m).shown which =
        ((readSentence D r).position which).getD ((rs.foldl sentence m).shown which) := by
      rw [List.foldl_append]
      exact interpret_shown _ _ which
    cases hr : (readSentence D r).position which with
    | some p =>
      rw [hr] at hshown
      exact Or.inl ⟨rs, r, [], rfl, by rw [hr, hshown, Option.getD_some], by simp⟩
    | none =>
      rw [hr, Option.getD_none] at hshown
      rw [hshown]
      obtain ⟨pre, r₀, post, rfl, hr₀, hpost⟩ | ⟨hsame, hnone⟩ := ih
      · refine Or.inl ⟨pre, r₀, post ++ [r], by simp, hr₀, fun r' hr' => ?_⟩
        rcases List.mem_append.1 hr' with hr' | hr'
        · exact hpost r' hr'
        · rwa [List.mem_singleton.1 hr']
      · refine Or.inr ⟨hsame, fun r' hr' => ?_⟩
        rcases List.mem_append.1 hr' with hr' | hr'
        · exact hnone r' hr'
        · rwa [List.mem_singleton.1 hr']

/-- A position that is valid at the start of a batch was there before: the batch has no
gap and does not reset the model. -/
theorem start_shown {b : GnssObservations} (h : ((m.start b).shown which).valid) :
    (m.start b).shown which = m.shown which ∧ b.gap = false ∧ ¬ m.Resets (.apply b) := by
  have hopen : ∀ m : Model D, (m.openGap.shown which).valid = false := by
    intro m
    cases which <;> rfl
  have hfresh : ((({} : Model D)).shown which).valid = false := by
    cases which <;> rfl
  have hstart : (m.start b).shown which =
      (if b.gap then (m.enter b.session).openGap else m.enter b.session).shown which := by
    cases which <;> rfl
  rw [hstart] at h ⊢
  cases hgap : b.gap with
  | true =>
    rw [hgap, if_pos rfl, hopen] at h
    cases h
  | false =>
    rw [hgap, if_neg Bool.false_ne_true, enter] at h
    rw [if_neg Bool.false_ne_true, enter]
    split_ifs at h ⊢ with hreset
    · rw [hfresh] at h
      cases h
    · exact ⟨rfl, rfl, hreset⟩

theorem expire_valid {now : UInt64} {p : Position D} (h : (expire now p).valid) :
    expire now p = p ∧ fresh now p.ms 2000 := by
  unfold expire at *
  by_cases hfresh : fresh now p.ms 2000
  · simp [hfresh]
  · simp [hfresh] at h

theorem finish_shown {c : UInt64} (h : ((m.finish c).shown which).valid) :
    (m.finish c).shown which = m.shown which ∧ fresh m.now (m.shown which).ms 2000 := by
  cases which with
  | gnss => exact expire_valid h
  | rtk => exact expire_valid h

theorem clearTracks_shown (m : Model D) (which : Solution) :
    m.clearTracks.shown which = m.shown which := by
  cases which <;> rfl

end Model

theorem fresh_iff {now ms max : UInt64} :
    fresh now ms max = true ↔ ms ≤ now ∧ now - ms ≤ max := by
  simp [fresh]

/-- A call that does not replace the position leaves it the latest. -/
theorem IsLatest.snoc {which : Solution} {calls : List PlotCall} {p : Position D} {c : PlotCall}
    (h : IsLatest which calls p) (hgap : ¬ c.IsGap)
    (hreset : ¬ Model.Resets ((plot D).exec (plot D).init calls) c)
    (hheard : ∀ r ∈ ((plot D).step ((plot D).exec (plot D).init calls) c).2,
      (readSentence D r).position which = none) :
    IsLatest which (calls ++ [c]) p := by
  obtain ⟨before, b, after, pre, r, post, rfl, hb, hr, hlast, hgaps, hresets⟩ := h
  have hend : (plot D).exec ((plot D).exec (plot D).init (before ++ [.apply b])) after =
      (plot D).exec (plot D).init (before ++ .apply b :: after) := by
    rw [← System.exec_append, List.append_assoc, List.singleton_append]
  refine ⟨before, b, after ++ [c], pre, r, post, by simp, hb, hr, fun r' hr' => ?_,
    fun c' hc' => ?_, ?_⟩
  · rw [System.outputs_snoc, hend, List.flatten_append, List.flatten_singleton,
      ← List.append_assoc] at hr'
    exact (List.mem_append.1 hr').elim (hlast r') (hheard r')
  · rcases List.mem_append.1 hc' with hc' | hc'
    · exact hgaps c' hc'
    · rwa [List.mem_singleton.1 hc']
  · rw [System.along_snoc, hend]
    exact ⟨hresets, hreset⟩

/-- What a batch leaves valid is its own last word, or was valid and the latest before it. -/
theorem IsLatest.apply {which : Solution} {calls : List PlotCall} {b : GnssObservations}
    {m : Model D} (hm : (plot D).exec (plot D).init calls = m)
    (ih : (m.shown which).valid → IsLatest which calls (m.shown which))
    (h : ((m.apply b).shown which).valid) :
    IsLatest which (calls ++ [.apply b]) ((m.apply b).shown which) := by
  rw [Model.apply_eq] at h ⊢
  have hfinish := (Model.finish_shown h).1
  rw [hfinish] at h ⊢
  obtain ⟨pre, r, post, hheard, hr, hpost⟩ | ⟨hsame, hnone⟩ :=
    Model.sentences_shown (m.start b) (m.heard b) which
  · refine ⟨calls, b, [], pre, r, post, rfl, hm ▸ hheard, hr, ?_, by simp, trivial⟩
    simpa using hpost
  · rw [hsame] at h ⊢
    obtain ⟨hshown, hgap, hreset⟩ := Model.start_shown h
    rw [hshown] at h ⊢
    exact (ih h).snoc (by simp [PlotCall.IsGap, hgap]) (hm ▸ hreset) (hm ▸ hnone)

theorem isLatest_of_valid (which : Solution) (calls : List PlotCall) :
    (Model.shown ((plot D).exec (plot D).init calls) which).valid →
      IsLatest which calls (Model.shown ((plot D).exec (plot D).init calls) which) := by
  refine (plot D).history (R := fun calls m => (m.shown which).valid →
    IsLatest which calls (m.shown which)) ?_ ?_ calls
  · intro h
    cases which <;> cases h
  · intro calls c ih h
    cases c with
    | apply b => exact IsLatest.apply rfl ih h
    | clearTracks =>
      change (Model.shown (Model.clearTracks _) which).valid at h
      change IsLatest which _ (Model.shown (Model.clearTracks _) which)
      rw [Model.clearTracks_shown] at h ⊢
      exact (ih h).snoc id id (by simp [plot])

/-- Every `apply` takes the validity of positions that are too old. -/
theorem fresh_of_valid (which : Solution) (calls : List PlotCall) :
    (Model.shown ((plot D).exec (plot D).init calls) which).valid →
      fresh ((plot D).exec (plot D).init calls).now
        (Model.shown ((plot D).exec (plot D).init calls) which).ms 2000 := by
  refine System.Reachable.invariant (plot D)
    (I := fun m => (m.shown which).valid → fresh m.now (m.shown which).ms 2000) ?_ ?_
    ((plot D).reachable_exec calls)
  · intro h
    cases which <;> cases h
  · intro m c ih h
    cases c with
    | apply b =>
      change ((m.apply b).shown which).valid at h
      change fresh (m.apply b).now ((m.apply b).shown which).ms 2000
      rw [Model.apply_eq] at h ⊢
      obtain ⟨hsame, hfresh⟩ := Model.finish_shown h
      rw [hsame]
      exact hfresh
    | clearTracks =>
      change (Model.shown (Model.clearTracks m) which).valid at h
      change fresh m.now (Model.shown (Model.clearTracks m) which).ms 2000
      rw [Model.clearTracks_shown] at h ⊢
      exact ih h

/-- In every run of `apply` and `clearTracks` calls on a fresh model, a position that is
shown as valid is the latest word of the receiver, and at most two seconds old. -/
theorem valid_latestWord (which : Solution) (calls : List PlotCall)
    (h : (Model.shown ((plot D).exec (plot D).init calls) which).valid) :
    IsLatest which calls (Model.shown ((plot D).exec (plot D).init calls) which) ∧
      (Model.shown ((plot D).exec (plot D).init calls) which).ms ≤
        ((plot D).exec (plot D).init calls).now ∧
      ((plot D).exec (plot D).init calls).now -
        (Model.shown ((plot D).exec (plot D).init calls) which).ms ≤ 2000 :=
  ⟨isLatest_of_valid which calls h, fresh_iff.1 (fresh_of_valid which calls h)⟩

/-- A fix that arrives after a gap, and a clearing of the tracks. -/
def fixAfterGap : List PlotCall :=
  [.apply { cursor := 1, deviceMonotonicMs := 1000, session := 5, gap := true
            records := [
              { sequence := 1, receivedMs := 900
                sentence := ascii "$GNGGA,120000,0000.0,N,00000.0,E,4,18,0.8,15,M,5,M,,*5A" }] },
    .clearTracks]

theorem valid_latestWord_fixAfterGap :
    IsLatest .gnss fixAfterGap ((plot Rat).exec (plot Rat).init fixAfterGap).gnss ∧
      ((plot Rat).exec (plot Rat).init fixAfterGap).gnss.ms ≤
        ((plot Rat).exec (plot Rat).init fixAfterGap).now ∧
      ((plot Rat).exec (plot Rat).init fixAfterGap).now -
        ((plot Rat).exec (plot Rat).init fixAfterGap).gnss.ms ≤ 2000 :=
  valid_latestWord .gnss fixAfterGap (by decide +kernel)

end PrismSdk.Gnss
