import PrismSdk.Gnss.Apply

/-! Repeated and reordered batches of one session. The cursor is both what records are
held against and a value taken from each batch, so that batches may be repeated as long as
their cursors do not go back. -/

namespace PrismSdk.Gnss

open Library

variable {D : Type} [Double D]

/-- The records that a run of `apply` calls interprets, in order. -/
def interpreted (m : Model D) (bs : List GnssObservations) : List GnssObservation :=
  ((plot D).outputs m (bs.map .apply)).flatten

/-- The cursor never decreases. -/
def CursorGrows (m : Model D) (bs : List GnssObservations) : Prop :=
  (plot D).Along (fun m c => m.cursor ≤ ((plot D).step m c).1.cursor) m (bs.map .apply)

theorem interpreted_cons (m : Model D) (b : GnssObservations) (bs : List GnssObservations) :
    interpreted m (b :: bs) = m.heard b ++ interpreted (m.apply b) bs := rfl

theorem cursorGrows_iff (m : Model D) (bs : List GnssObservations) :
    CursorGrows m bs ↔ (m.cursor :: bs.map (·.cursor)).IsChain (· ≤ ·) := by
  induction bs generalizing m with
  | nil => exact ⟨fun _ => List.isChain_singleton _, fun _ => trivial⟩
  | cons b bs ih =>
    rw [List.map_cons, List.isChain_cons_cons]
    exact and_congr Iff.rfl (ih (m.apply b))

/-- What is heard of a batch without a gap is past the cursor and not past the batch's. -/
theorem Model.mem_heard {m : Model D} {b : GnssObservations} {r : GnssObservation} (h : b.Valid)
    (hgap : b.gap = false) (hr : r ∈ m.heard b) :
    (m.enter b.session).cursor < r.sequence ∧ r.sequence ≤ b.cursor := by
  obtain ⟨hmem, hhears⟩ := List.mem_filter.1 hr
  rw [Model.Hears, hgap, Bool.and_eq_true, decide_eq_true_eq] at hhears
  exact ⟨hhears.1.resolve_right Bool.false_ne_true, (h.follows r hmem).le_cursor⟩

theorem Model.nodup_heard {m : Model D} {b : GnssObservations} (h : b.Valid) :
    ((m.heard b).map (·.sequence)).Nodup := by
  have hinc : (m.heard b).Pairwise (fun r r' => r.sequence < r'.sequence) :=
    h.increasing.sublist List.filter_sublist
  exact List.pairwise_map.2 (hinc.imp fun hlt => UInt64.ne_of_lt hlt)

theorem Model.enter_cursor_le (m : Model D) (session : UInt64) :
    (m.enter session).cursor ≤ m.cursor := by
  unfold Model.enter
  split_ifs
  · exact UInt64.zero_le
  · exact UInt64.le_refl _

/-- While the cursors do not go back, what is interpreted is past the cursor, and each
number once. -/
theorem interpreted_past (m : Model D) {session : UInt64} {bs : List GnssObservations}
    (hvalid : ∀ b ∈ bs, b.Valid) (hgap : ∀ b ∈ bs, b.gap = false)
    (hsession : ∀ b ∈ bs, b.session = session)
    (hchain : (m.cursor :: bs.map (·.cursor)).IsChain (· ≤ ·)) :
    (∀ r ∈ interpreted m bs, (m.enter session).cursor < r.sequence) ∧
      ((interpreted m bs).map (·.sequence)).Nodup := by
  induction bs generalizing m with
  | nil => exact ⟨by simp [interpreted], List.nodup_nil⟩
  | cons b bs ih =>
    rw [List.map_cons, List.isChain_cons_cons] at hchain
    obtain ⟨hb, hvalid⟩ := List.forall_mem_cons.1 hvalid
    obtain ⟨hbgap, hgap⟩ := List.forall_mem_cons.1 hgap
    obtain ⟨rfl, hsession⟩ := List.forall_mem_cons.1 hsession
    obtain ⟨hpast, hnodup⟩ := ih (m.apply b) hvalid hgap hsession hchain.2
    have henter : (m.apply b).enter b.session = m.apply b :=
      if_neg fun h => h.2 (Model.apply_session m b).symm
    rw [henter, Model.apply_cursor] at hpast
    rw [interpreted_cons]
    constructor
    · intro r hr
      rcases List.mem_append.1 hr with hr | hr
      · exact (Model.mem_heard hb hbgap hr).1
      · exact UInt64.lt_of_le_of_lt (UInt64.le_trans (m.enter_cursor_le b.session) hchain.1)
          (hpast r hr)
    · rw [List.map_append, List.nodup_append']
      refine ⟨Model.nodup_heard hb, hnodup, fun n hold hnew => ?_⟩
      obtain ⟨r, hr, rfl⟩ := List.mem_map.1 hold
      obtain ⟨r', hr', heq⟩ := List.mem_map.1 hnew
      have hlt := UInt64.lt_of_le_of_lt (Model.mem_heard hb hbgap hr).2 (hpast r' hr')
      exact absurd (heq ▸ hlt) (UInt64.lt_irrefl _)

/-- For batches of one session without gaps: no sequence number is interpreted twice and
the cursor never decreases, exactly when the batches' cursors do not go back. -/
theorem repeats_harmless_iff (m : Model D) (session : UInt64) (bs : List GnssObservations)
    (haccepted : ∀ b ∈ bs, ∃ f, parseGnssObservations f = .ok b)
    (hgap : ∀ b ∈ bs, b.gap = false) (hsession : ∀ b ∈ bs, b.session = session) :
    (((interpreted m bs).map (·.sequence)).Nodup ∧ CursorGrows m bs) ↔
      (m.cursor :: bs.map (·.cursor)).IsChain (· ≤ ·) := by
  have hvalid : ∀ b ∈ bs, b.Valid := by
    intro b hb
    obtain ⟨f, hf⟩ := haccepted b hb
    exact (sent_of_parse hf).2.2.2.2
  rw [cursorGrows_iff]
  constructor
  · exact And.right
  · intro hchain
    exact ⟨(interpreted_past m hvalid hgap hsession hchain).2, hchain⟩

/-- The first records of session 5. -/
def upTo (n : ℕ) : GnssObservations :=
  { session := 5, cursor := UInt64.ofNat n, deviceMonotonicMs := 900
    records := (List.range' 1 n).map fun i =>
      { sequence := UInt64.ofNat i, receivedMs := 900, sentence := [UInt8.ofNat i] } }

theorem repeats_harmless_iff_upTo :
    (((interpreted (D := Float) {} [upTo 1, upTo 1, upTo 2]).map (·.sequence)).Nodup ∧
        CursorGrows (D := Float) {} [upTo 1, upTo 1, upTo 2]) ↔
      ([0, 1, 1, 2] : List UInt64).IsChain (· ≤ ·) :=
  repeats_harmless_iff {} 5 [upTo 1, upTo 1, upTo 2]
    (by
      simp only [List.forall_mem_cons]
      exact ⟨⟨_, parse_response (by decide) (by decide)⟩,
        ⟨_, parse_response (by decide) (by decide)⟩,
        ⟨_, parse_response (by decide) (by decide)⟩, by simp⟩)
    (by decide) (by decide)

/-- A late copy of an older batch takes the cursor back, and record 2 is interpreted again. -/
theorem upTo_repeated :
    (∀ b ∈ [upTo 2, upTo 1, upTo 2], (∃ f, parseGnssObservations f = .ok b) ∧ b.gap = false ∧
      b.session = 5) ∧
    (∀ b ∈ [upTo 2, upTo 1, upTo 2], ∀ r ∈ b.records, ∀ b' ∈ [upTo 2, upTo 1, upTo 2],
      ∀ r' ∈ b'.records, r.sequence = r'.sequence → r = r') ∧
    (interpreted (D := Float) {} [upTo 2, upTo 1, upTo 2]).map (·.sequence) = [1, 2, 2] ∧
    ¬ CursorGrows (D := Float) {} [upTo 2, upTo 1, upTo 2] := by
  refine ⟨?_, by decide, by decide +kernel, ?_⟩
  · simp only [List.forall_mem_cons]
    exact ⟨⟨⟨_, parse_response (by decide) (by decide)⟩, rfl, rfl⟩,
      ⟨⟨_, parse_response (by decide) (by decide)⟩, rfl, rfl⟩,
      ⟨⟨_, parse_response (by decide) (by decide)⟩, rfl, rfl⟩, by simp⟩
  · rw [cursorGrows_iff]
    decide

end PrismSdk.Gnss
