import PrismSdk.Gnss.LatestWord
import PrismSdk.Library.BoundedQueue

/-! The tracks of the display model, against everything the model has seen. A call is
broken up into the things that it shows to the model. Each of them does one thing to
each track, and a track is a bounded queue of points. -/

namespace PrismSdk.Gnss

open Library
open Library.BoundedQueue (Op act run stamped)

/-- What a model sees, one thing at a time. -/
inductive Seen where
  /-- The batch is of another session. -/
  | reset
  | gap
  | opened (session now : UInt64)
  | record (r : GnssObservation)
  | closed (cursor : UInt64)
  | cleared

namespace Model

variable {D : Type} [Double D]

def see (m : Model D) : Seen → Model D
  | .reset => {}
  | .gap => m.openGap
  | .opened session now => { m with session, now }
  | .record r => m.sentence r
  | .closed cursor => m.finish cursor
  | .cleared => m.clearTracks

/-- What a call shows to the model. -/
def seen (m : Model D) : PlotCall → List Seen
  | .apply b =>
    (if m.session ≠ 0 ∧ b.session ≠ m.session then [.reset] else []) ++
      (if b.gap then [.gap] else []) ++
      .opened b.session b.deviceMonotonicMs :: (m.heard b).map .record ++ [.closed b.cursor]
  | .clearTracks => [.cleared]

theorem see_start (m : Model D) (b : GnssObservations) :
    ((if m.session ≠ 0 ∧ b.session ≠ m.session then [Seen.reset] else []) ++
      (if b.gap then [Seen.gap] else []) ++
      [Seen.opened b.session b.deviceMonotonicMs]).foldl see m = m.start b := by
  unfold start enter
  split_ifs <;> rfl

/-- Seen one by one, the things that a call shows do what the call does. -/
theorem foldl_seen (m : Model D) (c : PlotCall) :
    (m.seen c).foldl see m = ((plot D).step m c).1 := by
  cases c with
  | clearTracks => rfl
  | apply b =>
    have hsplit : m.seen (.apply b) =
        (if m.session ≠ 0 ∧ b.session ≠ m.session then [Seen.reset] else []) ++
          (if b.gap then [Seen.gap] else []) ++ [Seen.opened b.session b.deviceMonotonicMs] ++
          ((m.heard b).map .record ++ [.closed b.cursor]) := by
      simp only [seen, List.append_assoc, List.cons_append, List.nil_append]
    rw [hsplit, List.foldl_append, see_start, List.foldl_append, List.foldl_map]
    exact (m.apply_eq b).symm

/-- What `append` does to the track. -/
def appended (m : Model D) (p : Position D) (track : List (Point D)) (last : Text) :
    Op (Point D) :=
  if p.valid ∧ p.epoch ≠ last then
    let next := (m.append p track last).1
    .push { next.origin.project p with segment := next.segment }
  else .keep

theorem append_track (m : Model D) (p : Position D) (track : List (Point D)) (last : Text) :
    (m.append p track last).2.1 = act 20000 track (m.appended p track last) := by
  unfold appended append
  by_cases hvalid : p.valid
  · by_cases hepoch : p.epoch = last
    · simp [hvalid, hepoch, act]
    · simp [hvalid, hepoch, act]
  · simp [hvalid, act]

def track (m : Model D) : Solution → List (Point D)
  | .gnss => m.gnssTrack
  | .rtk => m.rtkTrack

def lastEpoch (m : Model D) : Solution → Text
  | .gnss => m.lastGga
  | .rtk => m.lastRtk

/-- What the model does to a track when it sees something. -/
def happens (m : Model D) (which : Solution) : Seen → Op (Point D)
  | .reset => .clear
  | .cleared => .clear
  | .record r =>
    match (readSentence D r).position which with
    | none => .keep
    | some p => m.appended p (m.track which) (m.lastEpoch which)
  | _ => .keep

/-- A sentence with a position does to its track what `append` does. -/
theorem interpret_of_position {which : Solution} {s : Sentence D} {p : Position D}
    (h : s.position which = some p) (m : Model D) :
    (m.interpret s).segment = (m.append p (m.track which) (m.lastEpoch which)).1.segment ∧
      (m.interpret s).track which = (m.append p (m.track which) (m.lastEpoch which)).2.1 := by
  unfold Sentence.position at h
  split at h
  · rw [Option.some.inj h, interpret_gga]
    exact ⟨rfl, rfl⟩
  · rw [Option.some.inj h, interpret_adrnav]
    exact ⟨rfl, rfl⟩
  · cases h

theorem interpret_of_position_none {which : Solution} {s : Sentence D}
    (h : s.position which = none) (m : Model D) :
    (m.interpret s).track which = m.track which := by
  cases s with
  | gga p =>
    rw [interpret_gga]
    cases which with
    | gnss => cases h
    | rtk => rfl
  | adrnav p =>
    rw [interpret_adrnav]
    cases which with
    | gnss => rfl
    | rtk => cases h
  | gsv g =>
    rw [interpret, addPart_eq]
    cases which <;> rfl
  | corrupt => cases which <;> rfl
  | ignored => cases which <;> rfl
  | gsa system used => cases which <;> rfl
  | gsvMisfit key => cases which <;> rfl

/-- A track is a bounded queue. -/
theorem track_see (m : Model D) (which : Solution) (e : Seen) :
    (m.see e).track which = act 20000 (m.track which) (m.happens which e) := by
  cases e with
  | record r =>
    rw [see, sentence, happens]
    cases hp : (readSentence D r).position which with
    | none => exact interpret_of_position_none hp m
    | some p =>
      rw [(interpret_of_position hp m).2]
      exact m.append_track p _ _
  | reset => cases which <;> rfl
  | gap => cases which <;> rfl
  | opened session now => cases which <;> rfl
  | closed cursor => cases which <;> rfl
  | cleared => cases which <;> rfl

end Model

variable (D : Type) [Double D]

/-- The model, one thing seen after the other. The output tells what happens to each
track. -/
def sights : System (Model D) Seen (Solution → Op (Point D)) where
  init := {}
  step m e := (m.see e, fun which => m.happens which e)

/-- What a run of calls shows to the model. -/
def sightsOf (m : Model D) : List PlotCall → List Seen
  | [] => []
  | c :: calls => m.seen c ++ sightsOf ((plot D).step m c).1 calls

/-- The sentence reaches `append` as invalid, or the tracks are cut in another way. -/
def Seen.Breaks : Seen → Prop
  | .reset => True
  | .gap => True
  | .cleared => True
  | .record r => ∃ which p, (readSentence D r).position which = some p ∧ p.valid = false
  | _ => False

/-- The segment counter does not wrap when the model sees `e`. -/
def Unwrapped (m : Model D) (e : Seen) : Prop := e ≠ .reset → m.segment ≤ (m.see e).segment

/-- The points of the track, each with the number of things that the model had seen when
it appended the point. -/
def stored (which : Solution) (es : List Seen) : List (Point D × ℕ) :=
  stamped 20000 (((sights D).outputs (sights D).init es).map fun happens => happens which)

variable {D}

theorem foldl_see (m : Model D) (es : List Seen) : es.foldl Model.see m = (sights D).exec m es := by
  induction es generalizing m with
  | nil => rfl
  | cons e es ih => exact ih (m.see e)

/-- What a run of calls shows to the model does what the run does. -/
theorem exec_sightsOf (m : Model D) (calls : List PlotCall) :
    (sights D).exec m (sightsOf D m calls) = (plot D).exec m calls := by
  induction calls generalizing m with
  | nil => rfl
  | cons c calls ih =>
    rw [sightsOf, System.exec_append, ← foldl_see m, m.foldl_seen, ih]
    rfl

theorem exec_seen (calls : List PlotCall) :
    (sights D).exec (sights D).init (sightsOf D (plot D).init calls) =
      (plot D).exec (plot D).init calls :=
  exec_sightsOf _ calls

theorem length_outputs (m : Model D) (es : List Seen) :
    ((sights D).outputs m es).length = es.length := by
  induction es generalizing m with
  | nil => rfl
  | cons e es ih => exact congrArg (· + 1) (ih (m.see e))

theorem stored_snoc (which : Solution) (es : List Seen) (e : Seen) :
    stored D which (es ++ [e]) = act 20000 (stored D which es)
      ((Model.happens ((sights D).exec (sights D).init es) which e).map
        fun x => (x, es.length)) := by
  rw [stored, System.outputs_snoc, List.map_append, List.map_singleton,
    BoundedQueue.stamped_snoc, List.length_map, length_outputs]
  rfl

/-- A track is the queue of what happened to it. -/
theorem track_exec (which : Solution) (es : List Seen) :
    Model.track ((sights D).exec (sights D).init es) which =
      run 20000 (((sights D).outputs (sights D).init es).map fun happens => happens which) := by
  induction es using List.reverseRecOn with
  | nil => cases which <;> rfl
  | append_singleton es e ih =>
    rw [System.exec_snoc, System.outputs_snoc, List.map_append, List.map_singleton,
      BoundedQueue.run_snoc, ← ih]
    exact Model.track_see _ which e

/-- Without their times, the stored points are the track. -/
theorem map_fst_stored (which : Solution) (es : List Seen) :
    (stored D which es).map Prod.fst = Model.track ((sights D).exec (sights D).init es) which := by
  rw [track_exec, stored, BoundedQueue.map_fst_stamped]

/-! ### The segments -/

/-- A pushed point has the segment that the model has from then on, a new one when the
point is late. -/
theorem Model.appended_push {m : Model D} {p : Position D} {track : List (Point D)}
    {last : Text} {x : Point D} (h : m.appended p track last = .push x) :
    x.segment = (m.append p track last).1.segment ∧
      ∀ y ∈ track.getLast?, fresh x.ms y.ms 2000 = false → x.segment = m.segment + 1 := by
  unfold appended at h
  split_ifs at h with hp
  obtain rfl := Op.push.inj h
  refine ⟨rfl, fun y hy hlate => ?_⟩
  have hany : track.getLast?.any (fun back => !fresh p.ms back.ms 2000) = true := by
    rw [Option.mem_def.1 hy, Option.any_some, Bool.not_eq_true']
    exact hlate
  simp [append, hp.1, hp.2, hany]

theorem Model.happens_push {m : Model D} {which : Solution} {e : Seen} {x : Point D}
    (h : m.happens which e = .push x) :
    x.segment = (m.see e).segment ∧
      ∀ y ∈ (m.track which).getLast?, fresh x.ms y.ms 2000 = false →
        x.segment = m.segment + 1 := by
  cases e with
  | record r =>
    rw [happens] at h
    cases hp : (readSentence D r).position which with
    | none =>
      rw [hp] at h
      cases h
    | some p =>
      rw [hp] at h
      obtain ⟨hsegment, hlate⟩ := appended_push h
      exact ⟨hsegment.trans (interpret_of_position hp m).1.symm, hlate⟩
  | reset => cases h
  | gap => cases h
  | opened session now => cases h
  | closed cursor => cases h
  | cleared => cases h

/-- What breaks the tracks opens a segment. -/
theorem Seen.Breaks.segment_see {e : Seen} (h : e.Breaks D) (hreset : e ≠ .reset) (m : Model D) :
    (m.see e).segment = m.segment + 1 := by
  cases e with
  | record r =>
    obtain ⟨which, p, hp, hinvalid⟩ := h
    rw [Model.see, Model.sentence, (Model.interpret_of_position hp m).1]
    simp [Model.append, hinvalid]
  | reset => exact absurd rfl hreset
  | gap => rfl
  | cleared => rfl
  | opened session now => exact h.elim
  | closed cursor => exact h.elim

variable (D) in
/-- Nothing stands between the points `a` and `b`: `b` was appended after `a` and is at most
two seconds later, and nothing that the model saw in between breaks the tracks. -/
structure Continues (es : List Seen) (a b : Point D × ℕ) : Prop where
  after : a.2 < b.2
  le : a.1.ms.toNat ≤ b.1.ms.toNat
  near : b.1.ms.toNat ≤ a.1.ms.toNat + 2000
  unbroken : ∀ e ∈ (es.take b.2).drop (a.2 + 1), ¬ e.Breaks D

theorem Continues.snoc {es : List Seen} {a b : Point D × ℕ} (h : Continues D es a b)
    (hb : b.2 ≤ es.length) (e : Seen) : Continues D (es ++ [e]) a b where
  after := h.after
  le := h.le
  near := h.near
  unbroken := by
    rw [List.take_append_of_le_length hb]
    exact h.unbroken

theorem toNat_of_fresh {now ms max : UInt64} (h : fresh now ms max = true) :
    ms.toNat ≤ now.toNat ∧ now.toNat ≤ ms.toNat + max.toNat := by
  obtain ⟨hle, hmax⟩ := fresh_iff.1 h
  rw [UInt64.le_iff_toNat_le, UInt64.toNat_sub_of_le _ _ hle] at hmax
  exact ⟨UInt64.le_iff_toNat_le.1 hle, by omega⟩

theorem lt_add_one_of_le {s : UInt64} (h : s ≤ s + 1) : s < s + 1 := by
  refine UInt64.lt_of_le_of_ne h fun heq => ?_
  have hnat := congrArg UInt64.toNat heq
  rw [UInt64.toNat_add, UInt64.toNat_one] at hnat
  have := s.toNat_lt
  omega

/-- What holds of the track of `m` after the model has seen `es`. -/
structure Whole (which : Solution) (es : List Seen) (m : Model D) : Prop where
  /-- No point is of a later segment, -/
  le : ∀ a ∈ stored D which es, a.1.segment ≤ m.segment
  /-- and a point before a break is of an earlier one. -/
  lt : ∀ a ∈ stored D which es, ∀ e ∈ es.drop (a.2 + 1), e.Breaks D → a.1.segment < m.segment
  chain : (stored D which es).IsChain fun a b =>
    a.1.segment ≤ b.1.segment ∧ (a.1.segment = b.1.segment → Continues D es a b)

variable {which : Solution} {es : List Seen} {m : Model D} {e : Seen}

theorem lt_of_mem_stored {a : Point D × ℕ} (h : a ∈ stored D which es) : a.2 < es.length := by
  have hlt := BoundedQueue.lt_of_mem_stamped h
  rwa [List.length_map, length_outputs] at hlt

theorem Seen.Breaks.lt_segment (h : e.Breaks D) (hreset : e ≠ .reset) (hu : Unwrapped D m e) :
    m.segment < (m.see e).segment := by
  have hle := hu hreset
  rw [h.segment_see hreset] at hle ⊢
  exact lt_add_one_of_le hle

/-- The point that is pushed goes on from the back of the track, unless it opens a
segment. -/
theorem Whole.push (h : Whole which es m) (hm : (sights D).exec (sights D).init es = m)
    (hu : Unwrapped D m e) {x : Point D} (hpush : m.happens which e = .push x)
    {a : Point D × ℕ} (ha : a ∈ (stored D which es).getLast?) :
    a.1.segment ≤ x.segment ∧
      (a.1.segment = x.segment → Continues D (es ++ [e]) a (x, es.length)) := by
  have hmem := List.mem_of_getLast? ha
  have hreset : e ≠ .reset := by
    rintro rfl
    cases hpush
  obtain ⟨hx, hlate⟩ := Model.happens_push hpush
  have hback : a.1 ∈ (m.track which).getLast? := by
    rw [← hm, ← map_fst_stored, List.getLast?_map, Option.mem_def.1 ha]
    rfl
  have hle : a.1.segment ≤ m.segment := h.le a hmem
  have hgrow : m.segment ≤ x.segment := hx ▸ hu hreset
  refine ⟨UInt64.le_trans hle hgrow, fun heq => ?_⟩
  -- The counter has not moved since `a`, so that nothing has broken the track.
  have hsame : a.1.segment = m.segment := UInt64.le_antisymm hle (heq ▸ hgrow)
  have hfresh : fresh x.ms a.1.ms 2000 = true := by
    by_contra hstale
    have hnext := hlate a.1 hback (Bool.not_eq_true _ ▸ hstale)
    have hlt := lt_add_one_of_le (hnext ▸ hgrow)
    rw [← hnext, ← hsame, heq] at hlt
    exact UInt64.lt_irrefl _ hlt
  obtain ⟨hms, hnear⟩ := toNat_of_fresh hfresh
  refine ⟨lt_of_mem_stored hmem, hms, hnear, fun e' he' hbreaks => ?_⟩
  rw [List.take_left] at he'
  have hlt := h.lt a hmem e' he' hbreaks
  rw [hsame] at hlt
  exact UInt64.lt_irrefl _ hlt

theorem Whole.snoc (h : Whole which es m) (hm : (sights D).exec (sights D).init es = m)
    (hu : Unwrapped D m e) : Whole which (es ++ [e]) (m.see e) := by
  have hstored : stored D which (es ++ [e]) =
      act 20000 (stored D which es) ((m.happens which e).map fun x => (x, es.length)) := by
    rw [stored_snoc, hm]
  -- A point of the track is an old one, and the model was not reset, or the new one.
  have hmem : ∀ a ∈ stored D which (es ++ [e]), a ∈ stored D which es ∧ e ≠ .reset ∨
      m.happens which e = .push a.1 ∧ a.2 = es.length := by
    intro a ha
    rw [hstored] at ha
    rcases BoundedQueue.mem_act ha with ⟨hold, hclear⟩ | hnew
    · refine .inl ⟨hold, ?_⟩
      rintro rfl
      exact hclear rfl
    · obtain ⟨x, hx, rfl⟩ := BoundedQueue.Op.map_eq_push.1 hnew
      exact .inr ⟨hx, rfl⟩
  refine ⟨fun a ha => ?_, fun a ha e' he' hbreaks => ?_, ?_⟩
  · rcases hmem a ha with ⟨hold, hreset⟩ | ⟨hnew, -⟩
    · exact UInt64.le_trans (h.le a hold) (hu hreset)
    · exact UInt64.le_of_eq (Model.happens_push hnew).1
  · rcases hmem a ha with ⟨hold, hreset⟩ | ⟨-, hat⟩
    · rw [List.drop_append_of_le_length (lt_of_mem_stored hold)] at he'
      rcases List.mem_append.1 he' with hbefore | hnow
      · exact UInt64.lt_of_lt_of_le (h.lt a hold e' hbefore hbreaks) (hu hreset)
      · rw [List.mem_singleton.1 hnow] at hbreaks
        exact UInt64.lt_of_le_of_lt (h.le a hold) (hbreaks.lt_segment hreset hu)
    · rw [hat, List.drop_of_length_le (by simp)] at he'
      cases he'
  · rw [hstored]
    refine BoundedQueue.isChain_act ?_ fun y hy a ha => ?_
    · refine h.chain.imp_of_mem_imp fun a b _ hb hab => ⟨hab.1, fun heq => ?_⟩
      exact (hab.2 heq).snoc (lt_of_mem_stored hb).le e
    · obtain ⟨x, hx, rfl⟩ := BoundedQueue.Op.map_eq_push.1 hy
      exact h.push hm hu hx ha

theorem whole_exec (which : Solution) (es : List Seen)
    (h : (sights D).Along (Unwrapped D) (sights D).init es) :
    Whole which es ((sights D).exec (sights D).init es) := by
  refine (sights D).historyAlong (R := Whole which) ?_ ?_ es h
  · exact ⟨by simp [stored, stamped, run], by simp [stored, stamped, run], List.isChain_nil⟩
  · intro es e hu ih
    exact ih.snoc rfl hu

/-! ### How often the counter moves -/

theorem Model.segment_append (m : Model D) (p : Position D) (track : List (Point D))
    (last : Text) :
    (m.append p track last).1.segment = m.segment ∨
      (m.append p track last).1.segment = m.segment + 1 := by
  unfold append
  dsimp only
  split_ifs
  all_goals first | exact .inl rfl | exact .inr rfl

theorem Model.segment_interpret (m : Model D) (s : Sentence D) :
    (m.interpret s).segment = m.segment ∨ (m.interpret s).segment = m.segment + 1 := by
  cases s with
  | gga p =>
    rw [interpret_gga]
    exact m.segment_append p _ _
  | adrnav p =>
    rw [interpret_adrnav]
    exact m.segment_append p _ _
  | gsv g =>
    rw [interpret, addPart_eq]
    exact .inl rfl
  | corrupt => exact .inl rfl
  | ignored => exact .inl rfl
  | gsa system used => exact .inl rfl
  | gsvMisfit key => exact .inl rfl

theorem Model.segment_see (m : Model D) (e : Seen) (hreset : e ≠ .reset) :
    (m.see e).segment = m.segment ∨ (m.see e).segment = m.segment + 1 := by
  cases e with
  | record r => exact m.segment_interpret (readSentence D r)
  | reset => exact absurd rfl hreset
  | gap => exact .inr rfl
  | cleared => exact .inr rfl
  | opened session now => exact .inl rfl
  | closed cursor => exact .inl rfl

/-- The counter does not wrap while less than `2 ^ 64` things are seen. -/
theorem unwrapped_of_lt (m : Model D) (es : List Seen)
    (h : m.segment.toNat + es.length < 2 ^ 64) : (sights D).Along (Unwrapped D) m es := by
  induction es generalizing m with
  | nil => trivial
  | cons e es ih =>
    rw [List.length_cons] at h
    have hnext : (m.segment + 1).toNat = m.segment.toNat + 1 := by
      rw [UInt64.toNat_add, UInt64.toNat_one]
      omega
    refine ⟨fun hreset => ?_, ih (m.see e) ?_⟩
    · rw [UInt64.le_iff_toNat_le]
      rcases m.segment_see e hreset with hseg | hseg
      · exact hseg.symm ▸ le_rfl
      · rw [hseg, hnext]
        exact Nat.le_succ _
    · by_cases hreset : e = .reset
      · subst hreset
        change 0 + es.length < 2 ^ 64
        omega
      · have hle : (m.see e).segment.toNat ≤ m.segment.toNat + 1 := by
          rcases m.segment_see e hreset with hseg | hseg
          · exact hseg.symm ▸ Nat.le_succ _
          · rw [hseg, hnext]
        omega

/-- In every run of `apply` and `clearTracks` calls on a fresh model, while the segment
counter does not wrap: a track has at most 20000 points, its segments do not decrease, and
where two neighbours are of one segment, the later is at most two seconds after the
earlier, and between their appends the model saw no gap, no clearing of the tracks, no
other session and no invalid position. The points are those that `stored` has with the
times of their appends. -/
theorem segments_unbroken (which : Solution) (calls : List PlotCall)
    (hwrap : (sights D).Along (Unwrapped D) (sights D).init
      (sightsOf D (plot D).init calls)) :
    (((plot D).exec (plot D).init calls).track which).length ≤ 20000 ∧
      (((plot D).exec (plot D).init calls).track which).Pairwise
        (fun a b => a.segment ≤ b.segment) ∧
      (stored D which (sightsOf D (plot D).init calls)).map Prod.fst =
        ((plot D).exec (plot D).init calls).track which ∧
      (∀ a ∈ stored D which (sightsOf D (plot D).init calls),
        ((sights D).outputs (sights D).init (sightsOf D (plot D).init calls))[a.2]?.map
          (fun happens => happens which) = some (.push a.1)) ∧
      (stored D which (sightsOf D (plot D).init calls)).IsChain (fun a b =>
        a.1.segment = b.1.segment → Continues D (sightsOf D (plot D).init calls) a b) := by
  have hwhole := whole_exec which _ hwrap
  have hstored := map_fst_stored (D := D) which (sightsOf D (plot D).init calls)
  rw [exec_seen] at hstored
  refine ⟨?_, ?_, hstored, fun a ha => ?_, hwhole.chain.imp fun a b h => h.2⟩
  · rw [← hstored, List.length_map]
    exact BoundedQueue.length_run_le _ _
  · have htrans : IsTrans (Point D) (fun a b => a.segment ≤ b.segment) :=
      ⟨fun _ _ _ => UInt64.le_trans⟩
    rw [← hstored, ← List.isChain_iff_pairwise, List.isChain_map]
    exact hwhole.chain.imp fun a b h => h.1
  · rw [← List.getElem?_map]
    exact BoundedQueue.getElem?_of_mem_stamped ha

/-- Two fixes one second apart, and one after a gap. -/
def threeFixes : List PlotCall :=
  [.apply { cursor := 2, deviceMonotonicMs := 2000, session := 5
            records := [
              { sequence := 1, receivedMs := 900
                sentence := ascii "$GNGGA,120000,0000.0,N,00000.0,E,4,18,0.8,15,M,5,M,,*5A" },
              { sequence := 2, receivedMs := 1900
                sentence := ascii "$GNGGA,120001,0000.0,N,00000.0,E,4,18,0.8,15,M,5,M,,*5B" }] },
    .apply { cursor := 3, deviceMonotonicMs := 3000, session := 5, gap := true
             records := [
              { sequence := 3, receivedMs := 2900
                sentence := ascii "$GNGGA,120002,0000.0,N,00000.0,E,4,18,0.8,15,M,5,M,,*58" }] }]

theorem segments_unbroken_threeFixes :
    (((plot Rat).exec (plot Rat).init threeFixes).track .gnss).length ≤ 20000 ∧
      (((plot Rat).exec (plot Rat).init threeFixes).track .gnss).Pairwise
        (fun a b => a.segment ≤ b.segment) ∧
      (stored Rat .gnss (sightsOf Rat (plot Rat).init threeFixes)).map Prod.fst =
        ((plot Rat).exec (plot Rat).init threeFixes).track .gnss ∧
      (∀ a ∈ stored Rat .gnss (sightsOf Rat (plot Rat).init threeFixes),
        ((sights Rat).outputs (sights Rat).init (sightsOf Rat (plot Rat).init threeFixes))[a.2]?.map
          (fun happens => happens .gnss) = some (.push a.1)) ∧
      (stored Rat .gnss (sightsOf Rat (plot Rat).init threeFixes)).IsChain (fun a b =>
        a.1.segment = b.1.segment →
          Continues Rat (sightsOf Rat (plot Rat).init threeFixes) a b) :=
  segments_unbroken .gnss threeFixes (unwrapped_of_lt _ _ (by decide +kernel))

end PrismSdk.Gnss
