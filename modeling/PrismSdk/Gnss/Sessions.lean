import PrismSdk.Gnss.Apply

/-! Sessions of the agent in the display model. A batch of another session resets the
model, unless the model has seen session 0 last: that is also the value of a model no
batch was applied to. -/

namespace PrismSdk.Gnss

variable {D : Type} [Double D]

namespace Model

/-- The batches, applied in order. -/
def applyAll (m : Model D) (bs : List GnssObservations) : Model D := bs.foldl apply m

theorem applyAll_snoc (m : Model D) (bs : List GnssObservations) (b : GnssObservations) :
    m.applyAll (bs ++ [b]) = (m.applyAll bs).apply b := by
  rw [applyAll, List.foldl_append]
  rfl

end Model

/-- The batches since the session of the last one began. -/
def currentSession (bs : List GnssObservations) (session : UInt64) : List GnssObservations :=
  bs.rtakeWhile (fun b => b.session = session)

theorem currentSession_snoc (bs : List GnssObservations) (b : GnssObservations) :
    currentSession (bs ++ [b]) b.session = currentSession bs b.session ++ [b] :=
  List.rtakeWhile_concat_pos _ _ _ (by simp)

/-- The model keeps no trace of the sessions before that of the last batch. -/
def Separate (D : Type) [Double D] (bs : List GnssObservations) (b : GnssObservations) : Prop :=
  ({} : Model D).applyAll (bs ++ [b]) =
    ({} : Model D).applyAll (currentSession (bs ++ [b]) b.session)

/-- A batch of session 0 is not followed by one of another session. -/
def KeepsZero (b b' : GnssObservations) : Prop := b.session = 0 → b'.session = 0

theorem separate_of_keepsZero (bs : List GnssObservations) (b : GnssObservations)
    (h : (bs ++ [b]).IsChain KeepsZero) : Separate D bs b := by
  induction bs using List.reverseRecOn generalizing b with
  | nil =>
    rw [Separate, currentSession_snoc]
    rfl
  | append_singleton bs last ih =>
    have ih : Separate D bs last := ih last h.left_of_append
    rw [Separate, currentSession_snoc, Model.applyAll_snoc _ (bs ++ [last]),
      Model.applyAll_snoc _ (currentSession _ _)]
    by_cases hsame : last.session = b.session
    · rw [Separate, hsame] at ih
      rw [ih]
    · have hzero : KeepsZero last b := (List.isChain_append.1 h).2.2 last (by simp) b (by simp)
      have hnil : currentSession (bs ++ [last]) b.session = [] :=
        List.rtakeWhile_concat_neg _ _ _ (by simpa using hsame)
      have hsession : (({} : Model D).applyAll (bs ++ [last])).session = last.session := by
        rw [Model.applyAll_snoc, Model.apply_session]
      rw [hnil]
      refine Model.apply_of_session_ne ?_ ?_
      · rw [hsession]
        exact fun h0 => hsame (h0.trans (hzero h0).symm)
      · rw [hsession]
        exact fun heq => hsame heq.symm

/-- In every run in which no batch of session 0 comes right before one of another session,
the state after each batch is that of its session alone. -/
theorem sessions_separate (bs : List GnssObservations) (h : bs.IsChain KeepsZero) :
    ∀ before b, before ++ [b] <+: bs → Separate D before b :=
  fun before b hprefix => separate_of_keepsZero before b ( List.IsChain.prefix h hprefix)

/-- A batch without records that puts the cursor to 7. -/
def idle (session : UInt64) : GnssObservations :=
  { session, cursor := 7, deviceMonotonicMs := 900 }

/-- A first batch of session 6, with a fix. -/
def firstFix : GnssObservations :=
  { session := 6, cursor := 1, deviceMonotonicMs := 500
    records := [{ sequence := 1, receivedMs := 500
                  sentence := ascii "$GNGGA,120000,0000.0,N,00000.0,E,4,18,0.8,15,M,5,M,,*5A" }] }

theorem sessions_separate_restart : Separate Rat [idle 5] firstFix :=
  sessions_separate [idle 5, firstFix] (by simp [KeepsZero, idle]) [idle 5] firstFix
    (List.prefix_refl _)

/-- After session 0 the first fix is held against the old cursor, and is not interpreted. -/
theorem firstFix_suppressed :
    (∀ b ∈ [idle 0, firstFix], ∃ f, parseGnssObservations f = .ok b) ∧
      ¬ Separate Rat [idle 0] firstFix ∧
      (({} : Model Rat).applyAll [idle 0, firstFix]).gnss.valid = false ∧
      (({} : Model Rat).applyAll [firstFix]).gnss.valid = true := by
  have hlost : (({} : Model Rat).applyAll [idle 0, firstFix]).gnss.valid = false := by
    decide +kernel
  have hshown : (({} : Model Rat).applyAll [firstFix]).gnss.valid = true := by decide +kernel
  refine ⟨?_, fun h => ?_, hlost, hshown⟩
  · simp only [List.forall_mem_cons]
    exact ⟨⟨_, parse_response (by decide) (by decide)⟩, ⟨_, parse_response (by decide) (by decide)⟩,
      by simp⟩
  · have hvalid := congrArg (fun m : Model Rat => m.gnss.valid) h
    exact absurd (hlost.symm.trans (hvalid.trans hshown)) Bool.false_ne_true

end PrismSdk.Gnss
