import PrismSdk.Gnss.Segments

/-! The cycles of GSV sentences. A cycle of satellites comes in numbered parts, which are
put together key by key; a table of whole cycles is what the sky view shows. A cycle gets
into the table when its last part arrives and all parts before it have arrived in order. -/

namespace PrismSdk.Gnss

open Library
open Std (ExtTreeMap)

variable (D : Type) [Double D]

/-! ### Parts -/

/-- The fields of a sentence that starts with a dollar. -/
def sentenceFields (r : GnssObservation) : List Text :=
  split (substr r.sentence 1 (r.sentence.idxOf '*'.toUInt8 - 1))

/-- The satellite slots of a GSV sentence; a slot without a valid number has no satellite. -/
def gsvSlots (r : GnssObservation) : List (Option (Satellite D)) :=
  let f := sentenceFields r
  let rest := f.length - 4
  (List.range (rest / 4)).map
    (readSlot ((field f 0).take 2) (if rest % 4 ≠ 0 then f.getLastD [] else []) f r)

/-- The key of a GSV sentence that passes the checks on its numbers. -/
def gsvKey (r : GnssObservation) : Option Text :=
  match readSentence D r with
  | .gsv g => some g.key
  | .gsvMisfit key => some key
  | _ => none

variable {D}

theorem readAdrnav_cases (r : GnssObservation) (star : ℕ) :
    readAdrnav D r star = .ignored ∨ ∃ p, readAdrnav D r star = .adrnav p := by
  unfold readAdrnav
  split
  · exact .inl rfl
  · dsimp only
    split_ifs
    · exact .inl rfl
    · exact .inl rfl
    · exact .inr ⟨_, rfl⟩

theorem readGsa_cases (talk : Text) (f : List Text) (r : GnssObservation) :
    readGsa D talk f r = .ignored ∨ ∃ sys u, readGsa D talk f r = .gsa sys u := by
  unfold readGsa
  dsimp only
  generalize (if f.length > 18 then integer D (field f 18) 1 6 else 0) = sid
  split
  · exact .inl rfl
  split
  · exact .inl rfl
  · exact .inr ⟨_, _, rfl⟩

/-- A part of a cycle is what the branch for GSV sentences reads. -/
theorem readGsv_of_readSentence {r : GnssObservation} {g : CyclePart D}
    (h : readSentence D r = .gsv g) : (field (sentenceFields r) 0).length = 5 ∧
      readGsv D ((field (sentenceFields r) 0).take 2) (sentenceFields r) r = .gsv g := by
  unfold readSentence at h
  dsimp only at h
  split_ifs at h with _ _ hfields
  · rcases readAdrnav_cases (D := D) r _ with heq | ⟨p, heq⟩ <;> rw [heq] at h <;> cases h
  · rcases readGsa_cases (D := D) _ _ r with heq | ⟨sys, u, heq⟩ <;> rw [heq] at h <;> cases h
  · exact ⟨not_not.1 (not_or.1 hfields).2, h⟩

/-- What is known of a part that fits. -/
structure CyclePart.Fits (g : CyclePart D) (r : GnssObservation) : Prop where
  one_le : 1 ≤ g.part
  le_total : g.part ≤ g.total
  total : g.total = max 1 ((g.count + 3) / 4)
  count_nonneg : 0 ≤ g.count
  slots : ((gsvSlots D r).length : ℤ) = min 4 (max 0 (g.count - 4 * (g.part - 1)))
  ms : g.ms = r.receivedMs
  sats : g.sats = (gsvSlots D r).filterMap id

theorem fits_of_readSentence {r : GnssObservation} {g : CyclePart D}
    (h : readSentence D r = .gsv g) : g.Fits r := by
  have hread := (readGsv_of_readSentence h).2
  unfold readGsv at hread
  dsimp only at hread
  split at hread
  · cases hread
  split at hread
  · cases hread
  rename_i hnumbers hsize
  obtain rfl := Sentence.gsv.inj hread
  simp only [not_or, not_lt] at hnumbers
  obtain ⟨-, hpart, hle, hcount, -⟩ := hnumbers
  simp only [not_or, not_not] at hsize
  refine ⟨hpart, hle, hsize.1, hcount, ?_, rfl, ?_⟩
  · rw [gsvSlots, List.length_map, List.length_range]
    exact hsize.2
  · rw [gsvSlots, List.filterMap_map]
    rfl

theorem gsvKey_of_gsv {r : GnssObservation} {g : CyclePart D} (h : readSentence D r = .gsv g) :
    gsvKey D r = some g.key := by
  rw [gsvKey, h]

/-! ### What a part does -/

namespace Model

/-- The cycle under way is dropped, and nothing else is changed. -/
structure Drops (m m' : Model D) (key : Text) : Prop where
  complete : m'.complete = m.complete
  pending : ∀ k, m'.pending[k]? = if k = key then none else m.pending[k]?
  size : m'.pending.size ≤ m.pending.size

/-- `g` is the next part of the cycle `c`, which begins with it or is under way. -/
structure Takes (m : Model D) (g : CyclePart D) (c : Cycle D) : Prop where
  source : g.part = 1 ∧ c = { total := g.total, next := 1, count := g.count, ms := g.ms } ∨
    g.part ≠ 1 ∧ m.pending[g.key]? = some c
  next : c.next = g.part
  total : c.total = g.total
  count : c.count = g.count
  recent : fresh g.ms c.ms 2000 = true

end Model

/-- The cycle with one more part. -/
def Cycle.extend (c : Cycle D) (g : CyclePart D) : Cycle D :=
  { c with next := c.next + 1, sats := c.sats ++ g.sats }

/-- What `addPart` does with the cycle `c` that it has extended. -/
def Model.store (m : Model D) (key : Text) (total : ℤ) (c : Cycle D) : Model D :=
  if c.next > total then
    bound { m with complete := m.complete.insert key c, pending := m.pending.erase key }
  else bound { m with pending := m.pending.insert key c }

theorem fresh_self (ms max : UInt64) : fresh ms ms max = true := by
  simp [fresh]

theorem getElem?_erase_eq {V : Type} (t : ExtTreeMap Text V) (key k : Text) :
    (t.erase key)[k]? = if k = key then none else t[k]? := by
  simp only [ExtTreeMap.getElem?_erase, Std.compare_eq_iff_eq, eq_comm (a := key)]

theorem getElem?_insert_eq {V : Type} (t : ExtTreeMap Text V) (key k : Text) (v : V) :
    (t.insert key v)[k]? = if k = key then some v else t[k]? := by
  simp only [ExtTreeMap.getElem?_insert, Std.compare_eq_iff_eq, eq_comm (a := key)]

namespace Model

theorem drops_erase (m : Model D) (key : Text) :
    m.Drops { m with pending := m.pending.erase key } key :=
  ⟨rfl, getElem?_erase_eq _ _, ExtTreeMap.size_erase_le⟩

theorem drops_of_none {m : Model D} {key : Text} (h : m.pending[key]? = none) :
    m.Drops m key := by
  refine ⟨rfl, fun k => ?_, le_rfl⟩
  split_ifs with hk
  · rw [hk, h]
  · rfl

theorem erase_insert_self {V : Type} (t : ExtTreeMap Text V) (key : Text) (c : V) :
    (t.insert key c).erase key = t.erase key := by
  apply ExtTreeMap.ext_getElem?
  intro k
  rw [getElem?_erase_eq, getElem?_erase_eq, getElem?_insert_eq]
  split_ifs <;> rfl

theorem insert_insert_self {V : Type} (t : ExtTreeMap Text V) (key : Text) (c c' : V) :
    (t.insert key c).insert key c' = t.insert key c' := by
  apply ExtTreeMap.ext_getElem?
  intro k
  rw [getElem?_insert_eq, getElem?_insert_eq, getElem?_insert_eq]
  split_ifs <;> rfl

/-- The first part of a cycle is always taken, over whatever is under way. -/
theorem addPart_first {m : Model D} {g : CyclePart D} (h : g.part = 1) :
    ∃ c, m.Takes g c ∧ m.addPart g = m.store g.key g.total (c.extend g) := by
  refine ⟨{ total := g.total, next := 1, count := g.count, ms := g.ms },
    ⟨.inl ⟨h, rfl⟩, h.symm, rfl, rfl, fresh_self _ _⟩, ?_⟩
  simp only [addPart, store, Cycle.extend, h, if_true, ExtTreeMap.getElem?_insert_self, fresh_self,
    erase_insert_self, insert_insert_self, ne_eq, not_true, false_or, Bool.not_true,
    Bool.false_eq_true, if_false]
  rfl

/-- A later part is taken by the cycle under way or drops it. -/
theorem addPart_later {m : Model D} {g : CyclePart D} (h : g.part ≠ 1) :
    m.Drops (m.addPart g) g.key ∨
      ∃ c, m.Takes g c ∧ m.addPart g = m.store g.key g.total (c.extend g) := by
  rw [addPart]
  simp only [h, if_false]
  cases hc : m.pending[g.key]? with
  | none => exact .inl (drops_of_none hc)
  | some c =>
    by_cases hmisfit : c.next ≠ g.part ∨ c.total ≠ g.total ∨ c.count ≠ g.count ∨
        !fresh g.ms c.ms 2000
    · simp only [if_pos hmisfit]
      exact .inl (m.drops_erase g.key)
    · simp only [if_neg hmisfit]
      simp only [not_or, not_not, Bool.not_eq_true', Bool.not_eq_false] at hmisfit
      obtain ⟨hnext, htotal, hcount, hfresh⟩ := hmisfit
      exact .inr ⟨c, ⟨.inr ⟨h, hc⟩, hnext, htotal, hcount, hfresh⟩, rfl⟩

theorem addPart_cases (m : Model D) (g : CyclePart D) :
    m.Drops (m.addPart g) g.key ∨
      ∃ c, m.Takes g c ∧ m.addPart g = m.store g.key g.total (c.extend g) := by
  by_cases h : g.part = 1
  · exact .inr (addPart_first h)
  · exact addPart_later h

/-- What a sentence does to the cycles: it has no key and leaves them as they are, or the
cycle of its key is dropped or takes it. -/
theorem sentence_cases (m : Model D) (r : GnssObservation) :
    (gsvKey D r = none ∧ (m.sentence r).pending = m.pending ∧
        (m.sentence r).complete = m.complete) ∨
      (∃ key, gsvKey D r = some key ∧ m.Drops (m.sentence r) key) ∨
      ∃ g c, readSentence D r = .gsv g ∧ m.Takes g c ∧
        m.sentence r = m.store g.key g.total (c.extend g) := by
  rw [sentence, gsvKey]
  cases hread : readSentence D r with
  | gsv g =>
    rcases m.addPart_cases g with hdrops | ⟨c, ht, hstore⟩
    · exact .inr (.inl ⟨g.key, rfl, hdrops⟩)
    · exact .inr (.inr ⟨g, c, rfl, ht, hstore⟩)
  | gsvMisfit key => exact .inr (.inl ⟨key, rfl, m.drops_erase key⟩)
  | adrnav p =>
    rw [interpret_adrnav]
    exact .inl ⟨rfl, rfl, rfl⟩
  | gga p =>
    rw [interpret_gga]
    exact .inl ⟨rfl, rfl, rfl⟩
  | corrupt => exact .inl ⟨rfl, rfl, rfl⟩
  | ignored => exact .inl ⟨rfl, rfl, rfl⟩
  | gsa sys used => exact .inl ⟨rfl, rfl, rfl⟩

end Model

/-! ### The sentences of a key -/

variable (D) in
/-- A GSV sentence of key `k` among what a model sees. -/
def Seen.sentenceOf (k : Text) : Seen → Option GnssObservation
  | .record r => if gsvKey D r = some k then some r else none
  | _ => none

variable (D) in
/-- The GSV sentences of key `k` that pass the checks on their numbers, in order. -/
def sentencesOf (k : Text) (es : List Seen) : List GnssObservation :=
  es.filterMap (Seen.sentenceOf D k)

theorem sentencesOf_snoc (k : Text) (es : List Seen) (e : Seen) :
    sentencesOf D k (es ++ [e]) = sentencesOf D k es ++ (e.sentenceOf D k).toList := by
  rw [sentencesOf, List.filterMap_append, sentencesOf]
  cases h : e.sentenceOf D k with
  | none => simp [h]
  | some r => simp [h]

/-- The cycle `c` of key `k` was put together from the sentences `rs`. -/
structure Gathered (k : Text) (c : Cycle D) (rs : List GnssObservation) : Prop where
  parts : ∀ (i : ℕ) r, rs[i]? = some r → ∃ g, readSentence D r = .gsv g ∧ g.key = k ∧
    g.part = i + 1 ∧ g.total = c.total ∧ g.count = c.count ∧
    c.ms.toNat ≤ r.receivedMs.toNat ∧ r.receivedMs.toNat ≤ c.ms.toNat + 2000
  first : ∀ r ∈ rs.head?, r.receivedMs = c.ms
  next : c.next = rs.length + 1
  slots : ((rs.flatMap (gsvSlots D)).length : ℤ) = min (4 * (rs.length : ℤ)) c.count
  sats : c.sats = (rs.flatMap (gsvSlots D)).filterMap id

/-- A cycle begins with no sentence. -/
theorem gathered_nil {k : Text} {g : CyclePart D} {r : GnssObservation} (h : g.Fits r) :
    Gathered k ({ total := g.total, next := 1, count := g.count, ms := g.ms } : Cycle D) [] where
  parts i r h := by cases h
  first r h := by cases h
  next := rfl
  slots := by
    have := h.count_nonneg
    simpa using this
  sats := rfl

theorem Gathered.snoc {c : Cycle D} {rs : List GnssObservation} {g : CyclePart D}
    {r : GnssObservation} (h : Gathered g.key c rs) (hread : readSentence D r = .gsv g)
    (hnext : c.next = g.part) (htotal : c.total = g.total) (hcount : c.count = g.count)
    (hfresh : fresh g.ms c.ms 2000 = true) (hfirst : rs = [] → r.receivedMs = c.ms) :
    Gathered g.key (c.extend g) (rs ++ [r]) := by
  have hfits := fits_of_readSentence hread
  obtain ⟨hle, hnear⟩ := toNat_of_fresh hfresh
  rw [hfits.ms] at hle hnear
  have hpart : g.part = rs.length + 1 := hnext.symm.trans h.next
  refine ⟨fun i r' hi => ?_, fun r' hr' => ?_, ?_, ?_, ?_⟩
  · rw [List.getElem?_append] at hi
    split_ifs at hi with hlt
    · exact h.parts i r' hi
    · rw [List.getElem?_singleton] at hi
      split_ifs at hi with hzero
      obtain rfl := Option.some.inj hi
      obtain rfl : i = rs.length := by omega
      exact ⟨g, hread, rfl, hpart, htotal.symm, hcount.symm, hle, hnear⟩
  · cases rs with
    | nil =>
      obtain rfl := Option.some.inj hr'
      exact hfirst rfl
    | cons r₀ rs => exact h.first r' hr'
  · rw [Cycle.extend, List.length_append, List.length_singleton, h.next]
    push_cast
    rfl
  · have hslots := h.slots
    have hnew := hfits.slots
    have := hfits.count_nonneg
    rw [List.flatMap_append, List.length_append, List.flatMap_singleton, List.length_append,
      List.length_singleton]
    change _ = min _ c.count
    push_cast
    rw [hslots, hnew, hpart, hcount]
    omega
  · rw [Cycle.extend, h.sats, hfits.sats, List.flatMap_append, List.filterMap_append,
      List.flatMap_singleton]

/-- A whole cycle: all its parts in order, and with them as many slots as it counts. -/
structure WholeCycle (k : Text) (c : Cycle D) (rs : List GnssObservation) : Prop
    extends Gathered k c rs where
  length : (rs.length : ℤ) = c.total
  total : c.total = max 1 ((c.count + 3) / 4)
  full : ((rs.flatMap (gsvSlots D)).length : ℤ) = c.count

/-- A cycle is whole when its last part is there. -/
theorem Gathered.whole {c : Cycle D} {rs : List GnssObservation} {g : CyclePart D}
    {r : GnssObservation} (h : Gathered g.key (c.extend g) rs) (hread : readSentence D r = .gsv g)
    (hnext : c.next = g.part) (htotal : c.total = g.total) (hcount : c.count = g.count)
    (hover : (c.extend g).next > g.total) : WholeCycle g.key (c.extend g) rs := by
  have hfits := fits_of_readSentence hread
  have hle := hfits.le_total
  have htotal' := hfits.total
  have := hfits.count_nonneg
  have hlength : (rs.length : ℤ) = g.total := by
    have hrs := h.next
    simp only [Cycle.extend] at hover hrs
    omega
  refine { h with length := hlength.trans htotal.symm, total := ?_, full := ?_ }
  · change c.total = max 1 ((c.count + 3) / 4)
    rw [htotal, hcount, htotal']
  · have hslots := h.slots
    change _ = c.count
    change _ = min _ c.count at hslots
    omega

/-! ### Runs -/

/-- What holds of the cycles after the model has seen `es`. -/
structure Cycles (es : List Seen) (m : Model D) : Prop where
  /-- A cycle under way has the last sentences of its key, -/
  pending : ∀ k c, m.pending[k]? = some c →
    ∃ rs, rs ≠ [] ∧ rs <:+ sentencesOf D k es ∧ Gathered k c rs
  /-- and one in the table has sentences of its key that came one after the other. -/
  complete : ∀ k c, m.complete[k]? = some c → ∃ rs, rs <:+: sentencesOf D k es ∧ WholeCycle k c rs
  pending_le : m.pending.size ≤ 128
  complete_le : m.complete.size ≤ 128

variable {es : List Seen} {m m' : Model D} {r : GnssObservation} {g : CyclePart D}

theorem sentencesOf_record (k : Text) (es : List Seen) (r : GnssObservation) :
    sentencesOf D k (es ++ [.record r]) =
      sentencesOf D k es ++ if gsvKey D r = some k then [r] else [] := by
  rw [sentencesOf_snoc, Seen.sentenceOf]
  split_ifs <;> rfl

theorem Cycles.keep {e : Seen} (h : Cycles es m) (he : ∀ k, e.sentenceOf D k = none)
    (hpending : m'.pending = m.pending) (hcomplete : m'.complete = m.complete) :
    Cycles (es ++ [e]) m' := by
  have hsame : ∀ k, sentencesOf D k (es ++ [e]) = sentencesOf D k es := by
    intro k
    rw [sentencesOf_snoc, he k, Option.toList_none, List.append_nil]
  refine ⟨?_, ?_, hpending ▸ h.pending_le, hcomplete ▸ h.complete_le⟩
  · simpa only [hsame, hpending] using h.pending
  · simpa only [hsame, hcomplete] using h.complete

theorem Cycles.complete_record (h : Cycles es m) (r : GnssObservation) {k : Text} {c : Cycle D}
    (hc : m.complete[k]? = some c) :
    ∃ rs, rs <:+: sentencesOf D k (es ++ [.record r]) ∧ WholeCycle k c rs := by
  obtain ⟨rs, hrs, hwhole⟩ := h.complete k c hc
  rw [sentencesOf_record]
  exact ⟨rs, hrs.trans (List.prefix_append _ _).isInfix, hwhole⟩

theorem Cycles.pending_record (h : Cycles es m) {k : Text} {c : Cycle D}
    (hkey : gsvKey D r ≠ some k) (hc : m.pending[k]? = some c) :
    ∃ rs, rs ≠ [] ∧ rs <:+ sentencesOf D k (es ++ [.record r]) ∧ Gathered k c rs := by
  rw [sentencesOf_record, if_neg hkey, List.append_nil]
  exact h.pending k c hc

theorem Cycles.drops {key : Text} (h : Cycles es m) (hkey : gsvKey D r = some key)
    (hdrops : m.Drops m' key) : Cycles (es ++ [.record r]) m' := by
  refine ⟨fun k c hc => ?_, fun k c hc => ?_, hdrops.size.trans h.pending_le, ?_⟩
  · rw [hdrops.pending] at hc
    split_ifs at hc with hk
    exact h.pending_record (fun heq => hk (Option.some.inj (heq.symm.trans hkey))) hc
  · rw [hdrops.complete] at hc
    exact h.complete_record r hc
  · rw [hdrops.complete]
    exact h.complete_le

/-- The part that a cycle takes is the next sentence of its key. -/
theorem Cycles.taken {c : Cycle D} (h : Cycles es m) (hread : readSentence D r = .gsv g)
    (ht : m.Takes g c) :
    ∃ rs, rs ++ [r] <:+ sentencesOf D g.key (es ++ [.record r]) ∧
      Gathered g.key (c.extend g) (rs ++ [r]) := by
  have hfits := fits_of_readSentence hread
  rw [sentencesOf_record, if_pos (gsvKey_of_gsv hread)]
  rcases ht.source with ⟨-, rfl⟩ | ⟨hlater, hc⟩
  · refine ⟨[], List.suffix_append _ _, ?_⟩
    exact (gathered_nil hfits).snoc hread ht.next ht.total ht.count ht.recent
      fun _ => hfits.ms.symm
  · obtain ⟨rs, hne, hrs, hgathered⟩ := h.pending g.key c hc
    refine ⟨rs, List.suffix_append_self_iff.2 hrs, ?_⟩
    exact hgathered.snoc hread ht.next ht.total ht.count ht.recent fun hnil => absurd hnil hne

theorem getElem?_of_capped {V : Type} {t : ExtTreeMap Text V} {k : Text} {v : V} {n : ℕ}
    (h : (if t.size > n then ∅ else t)[k]? = some v) : t[k]? = some v := by
  split_ifs at h
  · exact absurd h (by simp)
  · exact h

theorem size_capped_le {V : Type} (t : ExtTreeMap Text V) (n : ℕ) :
    (if t.size > n then ∅ else t).size ≤ n := by
  split_ifs with hsize
  · exact Nat.zero_le n
  · exact Nat.not_lt.1 hsize

theorem Model.bound_le (m : Model D) :
    m.bound.pending.size ≤ 128 ∧ m.bound.complete.size ≤ 128 :=
  ⟨size_capped_le m.pending 128, size_capped_le m.complete 128⟩

theorem Cycles.stores {c : Cycle D} (h : Cycles es m) (hread : readSentence D r = .gsv g)
    (ht : m.Takes g c) :
    Cycles (es ++ [.record r]) (m.store g.key g.total (c.extend g)) := by
  obtain ⟨rs, hrs, hgathered⟩ := h.taken hread ht
  have hother : ∀ k, k ≠ g.key → gsvKey D r ≠ some k := by
    intro k hk heq
    rw [gsvKey_of_gsv hread] at heq
    exact hk (Option.some.inj heq).symm
  unfold Model.store
  split_ifs with hover
  · refine ⟨fun k c' hc => ?_, fun k c' hc => ?_, (Model.bound_le _).1, (Model.bound_le _).2⟩
    · have hc := getElem?_of_capped hc
      rw [getElem?_erase_eq] at hc
      split_ifs at hc with hk
      exact h.pending_record (hother k hk) hc
    · have hc := getElem?_of_capped hc
      rw [getElem?_insert_eq] at hc
      split_ifs at hc with hk
      · obtain rfl := Option.some.inj hc
        subst hk
        exact ⟨_, hrs.isInfix, hgathered.whole hread ht.next ht.total ht.count hover⟩
      · exact h.complete_record r hc
  · refine ⟨fun k c' hc => ?_, fun k c' hc => ?_, (Model.bound_le _).1, (Model.bound_le _).2⟩
    · have hc := getElem?_of_capped hc
      rw [getElem?_insert_eq] at hc
      split_ifs at hc with hk
      · obtain rfl := Option.some.inj hc
        subst hk
        exact ⟨_, by simp, hrs, hgathered⟩
      · exact h.pending_record (hother k hk) hc
    · exact h.complete_record r (getElem?_of_capped hc)

theorem Cycles.record (h : Cycles es m) (r : GnssObservation) :
    Cycles (es ++ [.record r]) (m.sentence r) := by
  rcases m.sentence_cases r with ⟨hnone, hpending, hcomplete⟩ | ⟨key, hkey, hdrops⟩ |
    ⟨g, c, hread, ht, hstore⟩
  · refine h.keep (fun k => ?_) hpending hcomplete
    rw [Seen.sentenceOf, hnone, if_neg (by simp)]
  · exact h.drops hkey hdrops
  · rw [hstore]
    exact h.stores hread ht

theorem Cycles.of_empty (es : List Seen) (hpending : m.pending = ∅) (hcomplete : m.complete = ∅) :
    Cycles es m := by
  refine ⟨fun k c hc => ?_, fun k c hc => ?_, ?_, ?_⟩
  · simp [hpending] at hc
  · simp [hcomplete] at hc
  · simp [hpending]
  · simp [hcomplete]

theorem Cycles.snoc (h : Cycles es m) (e : Seen) : Cycles (es ++ [e]) (m.see e) := by
  cases e with
  | record r => exact h.record r
  | reset => exact .of_empty _ rfl rfl
  | gap => exact .of_empty _ rfl rfl
  | opened session now => exact h.keep (fun k => rfl) rfl rfl
  | closed cursor => exact h.keep (fun k => rfl) rfl rfl
  | cleared => exact h.keep (fun k => rfl) rfl rfl

variable (D) in
theorem cycles_exec (es : List Seen) : Cycles es ((sights D).exec (sights D).init es) :=
  (sights D).history (Cycles.of_empty [] rfl rfl) (fun _ e h => h.snoc e) es

variable (D) in
theorem cycles_run (calls : List PlotCall) :
    Cycles (sightsOf D (plot D).init calls) ((plot D).exec (plot D).init calls) := by
  rw [← exec_seen]
  exact cycles_exec D _

/-- The sentence `r` is the last of a whole cycle, which is put into the table. -/
def Publishes (es : List Seen) (m : Model D) (r : GnssObservation) : Prop :=
  ∃ k c rs, rs ++ [r] <:+ sentencesOf D k (es ++ [.record r]) ∧ WholeCycle k c (rs ++ [r]) ∧
    (m.sentence r).complete =
      if (m.complete.insert k c).size > 128 then ∅ else m.complete.insert k c

/-- No other sentence changes the table. -/
theorem Cycles.publishes (h : Cycles es m) (r : GnssObservation) :
    (m.sentence r).complete = m.complete ∨ Publishes es m r := by
  rcases m.sentence_cases r with ⟨-, -, hcomplete⟩ | ⟨key, -, hdrops⟩ | ⟨g, c, hread, ht, hstore⟩
  · exact .inl hcomplete
  · exact .inl hdrops.complete
  · obtain ⟨rs, hrs, hgathered⟩ := h.taken hread ht
    rw [Publishes, hstore, Model.store]
    split_ifs with hover
    · exact .inr ⟨g.key, c.extend g, rs, hrs,
        hgathered.whole hread ht.next ht.total ht.count hover, rfl⟩
    · exact .inl (if_neg (Nat.not_lt.2 h.complete_le))

variable (D) in
/-- In every run of `apply` and `clearTracks` calls on a fresh model, an entry of the table
of whole cycles was put together from sentences of its key that came one right after the
other and are a whole cycle; a sentence that is not the last of a whole cycle leaves the
table as it is; and after a sentence neither map has more than 128 keys. -/
theorem cycles_whole (calls : List PlotCall) :
    (∀ k c, ((plot D).exec (plot D).init calls).complete[k]? = some c →
      ∃ rs, rs <:+: sentencesOf D k (sightsOf D (plot D).init calls) ∧ WholeCycle k c rs) ∧
    ∀ before r after, sightsOf D (plot D).init calls = before ++ .record r :: after →
      let m := (sights D).exec (sights D).init before
      ((m.sentence r).complete = m.complete ∨ Publishes before m r) ∧
        (m.sentence r).pending.size ≤ 128 ∧ (m.sentence r).complete.size ≤ 128 := by
  constructor
  · exact (cycles_run D calls).complete
  · intro before r after _
    have h := cycles_exec D before
    exact ⟨h.publishes r, (h.record r).pending_le, (h.record r).complete_le⟩

end PrismSdk.Gnss
