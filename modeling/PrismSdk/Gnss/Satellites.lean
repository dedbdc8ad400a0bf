import PrismSdk.Gnss.Cycles
import PrismSdk.Library.KeyedMerge

/-! The satellites that the sky view shows. The fresh cycles of the table are merged
satellite by satellite. A satellite is told by its id, and an id by itself tells the
constellation and the number, whatever talker reported it. -/

namespace PrismSdk.Gnss

open Library
open Std (ExtTreeMap)

section

variable {D : Type} [Double D]

namespace Model

/-- `used_` lists the satellite, lately. -/
def isUsed (m : Model D) (current : UInt64) (v : Satellite D) : Bool :=
  match m.usedBy[v.system]? with
  | none => false
  | some u => fresh current u.ms 3000 && u.prns.contains v.prn

end Model

/-- What `satellites` does with `a`, which has the id of `v`, once `v` is there as well. -/
def Satellite.join (a v : Satellite D) : Satellite D :=
  { a with
    cn0 := match v.cn0 with
      | none => a.cn0
      | some x => match a.cn0 with
        | none => some x
        | some y => if Double.less y x then some x else a.cn0
    signalIds := if a.signalIds ≠ v.signalIds ∧ v.signalIds ≠ [] then
        a.signalIds ++ ascii "," ++ v.signalIds
      else a.signalIds }

namespace Model

/-- The body of the inner loop of `satellites`. -/
def showSatellite (m : Model D) (current : UInt64) (all : ExtTreeMap Text (Satellite D))
    (v : Satellite D) : ExtTreeMap Text (Satellite D) :=
  let v := { v with used := m.isUsed current v }
  match all[v.id]? with
  | none => all.insert v.id v
  | some old => all.insert v.id (old.join v)

def satellites (m : Model D) (current : UInt64) : List (Satellite D) :=
  let all := m.complete.toList.foldl (fun all entry =>
    if !fresh current entry.2.ms 3000 then all
    else entry.2.sats.foldl (m.showSatellite current) all) ∅
  all.toList.map Prod.snd

end Model

end

/-! ### Ids -/

/-- The texts that `system` returns for a talker. -/
def systems : List Text :=
  ["GPS", "SBAS", "GLONASS", "Galileo", "BeiDou", "QZSS", "NavIC", "Unknown"].map ascii

theorem ite_mem_systems {p : Prop} [Decidable p] {s s' : Text} (h : s ∈ systems)
    (h' : s' ∈ systems) : (if p then s else s') ∈ systems := by
  split_ifs
  · exact h
  · exact h'

theorem system_mem (talk : Text) (prn id : ℤ) : system talk prn id ∈ systems := by
  unfold system
  repeat' apply ite_mem_systems
  all_goals exact List.mem_map_of_mem (by decide)

/-- The id of a satellite with its number in its constellation. -/
def satelliteId (talk sys : Text) (number : ℤ) : Text :=
  (if sys = ascii "Unknown" then talk else sys) ++ ascii ":" ++ ascii (toString number)

/-- A literal of bytes, back from its text. -/
theorem toList_of_ascii {literal : String} (h : ∀ c ∈ literal.toList, c.toNat < 256) :
    (ascii literal).map (fun c => Char.ofNat c.toNat) = literal.toList := by
  rw [ascii, List.map_map]
  refine (List.map_congr_left fun c hc => ?_).trans (List.map_id _)
  have hc := h c hc
  simp only [Function.comp, UInt8.toNat_ofNat', Nat.reducePow, id]
  rw [Nat.mod_eq_of_lt hc, Char.ofNat_toNat]

theorem mem_toString {number : ℤ} {c : Char} (h : c ∈ (toString number).toList) :
    c = '-' ∨ c.isDigit := by
  have hdigit : ∀ n : ℕ, c ∈ n.repr.toList → c.isDigit := by
    intro n hc
    rw [Nat.repr, String.toList_ofList] at hc
    exact Nat.isDigit_of_mem_toDigits (by decide) (by decide) hc
  cases number with
  | ofNat n => exact .inr (hdigit n h)
  | negSucc n =>
    change c ∈ ("-" ++ n.succ.repr).toList at h
    rw [String.toList_append, List.mem_append] at h
    rcases h with hminus | hc
    · exact .inl (by simpa using hminus)
    · exact .inr (hdigit _ hc)

theorem toString_toNat_lt {number : ℤ} {c : Char} (h : c ∈ (toString number).toList) :
    c.toNat < 58 := by
  rcases mem_toString h with rfl | hdigit
  · decide
  · rw [Char.isDigit, Bool.and_eq_true, decide_eq_true_eq, decide_eq_true_eq] at hdigit
    exact Nat.lt_succ_of_le hdigit.2

theorem ascii_toString_inj {n n' : ℤ} (h : ascii (toString n) = ascii (toString n')) : n = n' := by
  have hlt : ∀ n : ℤ, ∀ c ∈ (toString n).toList, c.toNat < 256 := fun n c hc =>
    (toString_toNat_lt hc).trans (by decide)
  refine Int.repr_injective (String.toList_injective ?_)
  change (toString n).toList = (toString n').toList
  rw [← toList_of_ascii (hlt n), h, toList_of_ascii (hlt n')]

theorem colon_notMem_number (n : ℤ) : ':'.toUInt8 ∉ ascii (toString n) := by
  intro h
  obtain ⟨c, hc, heq⟩ := List.mem_map.1 h
  have hlt := toString_toNat_lt hc
  have hnat := congrArg UInt8.toNat heq
  rw [UInt8.toNat_ofNat', Nat.mod_eq_of_lt (by omega)] at hnat
  change c.toNat = 58 at hnat
  omega

/-- The name of a constellation has no colon, and is longer than a talker. -/
theorem colon_notMem_system : ∀ sys ∈ systems, ':'.toUInt8 ∉ sys ∧ 2 < sys.length := by decide

/-- Where the constellation is unknown, the colon comes right after the talker, -/
theorem third_of_unknown {talk : Text} (ht : talk.length = 2) (n : ℤ) :
    (satelliteId talk (ascii "Unknown") n)[2]? = some ':'.toUInt8 := by
  rw [satelliteId, if_pos rfl, List.append_assoc, List.getElem?_append_right ht.le, ht]
  rfl

/-- and the name of a constellation goes on there. -/
theorem third_of_known {sys : Text} (hsys : sys ∈ systems) (hne : sys ≠ ascii "Unknown")
    (talk : Text) (n : ℤ) : (satelliteId talk sys n)[2]? ≠ some ':'.toUInt8 := by
  intro hcolon
  obtain ⟨hnot, hlt⟩ := colon_notMem_system sys hsys
  rw [satelliteId, if_neg hne, List.append_assoc, List.getElem?_append_left hlt] at hcolon
  exact hnot (List.mem_of_getElem? hcolon)

/-- An id tells the constellation and the number. -/
theorem satelliteId_inj {talk talk' sys sys' : Text} {n n' : ℤ} (ht : talk.length = 2)
    (ht' : talk'.length = 2) (hsys : sys ∈ systems) (hsys' : sys' ∈ systems)
    (h : satelliteId talk sys n = satelliteId talk' sys' n') : sys = sys' ∧ n = n' := by
  by_cases hs : sys = ascii "Unknown"
  · by_cases hs' : sys' = ascii "Unknown"
    · rw [hs, hs', satelliteId, satelliteId, if_pos rfl, if_pos rfl] at h
      have htail := (List.append_inj h (by simp [ht, ht'])).2
      exact ⟨hs.trans hs'.symm, ascii_toString_inj htail⟩
    · subst hs
      exact absurd (h ▸ third_of_unknown ht n) (third_of_known hsys' hs' talk' n')
  · by_cases hs' : sys' = ascii "Unknown"
    · subst hs'
      exact absurd (h ▸ third_of_unknown ht' n') (third_of_known hsys hs talk n)
    · have hcolon : ascii ":" = [':'.toUInt8] := rfl
      rw [satelliteId, satelliteId, if_neg hs, if_neg hs', hcolon, List.append_assoc,
        List.append_assoc, List.singleton_append, List.singleton_append] at h
      have hparts := (List.append_cons_inj_of_notMem (colon_notMem_system sys hsys).1
        (colon_notMem_number n)).1 h
      exact ⟨hparts.1, ascii_toString_inj hparts.2.2⟩

section

variable {D : Type} [Double D] {m : Model D} {t : UInt64} {v : Satellite D}

/-- The id of a satellite is made of its constellation and its number, and of a talker. -/
structure Satellite.Named (v : Satellite D) : Prop where
  system : v.system ∈ systems
  id : ∃ talk : Text, talk.length = 2 ∧ v.id = satelliteId talk v.system v.prn

theorem id_of_readSlot {talk signal : Text} {f : List Text} {r : GnssObservation} {i : ℕ}
    (h : readSlot talk signal f r i = some v) :
    v.system ∈ systems ∧ v.id = satelliteId talk v.system v.prn := by
  unfold readSlot at h
  dsimp only at h
  split at h
  · cases h
  · obtain rfl := Option.some.inj h
    exact ⟨system_mem talk _ 0, rfl⟩

theorem named_of_mem_gsvSlots {r : GnssObservation} {g : CyclePart D}
    (hread : readSentence D r = .gsv g) (h : some v ∈ gsvSlots D r) : v.Named := by
  obtain ⟨i, -, hslot⟩ := List.mem_map.1 h
  obtain ⟨hsystem, hid⟩ := id_of_readSlot hslot
  refine ⟨hsystem, _, ?_, hid⟩
  rw [List.length_take, (readGsv_of_readSentence hread).1]
  rfl

omit [Double D] in
/-- Satellites of one id are of one constellation and have one number. -/
theorem Satellite.Named.inj {v' : Satellite D} (h : v.Named) (h' : v'.Named)
    (hid : v.id = v'.id) : v.system = v'.system ∧ v.prn = v'.prn := by
  obtain ⟨talk, ht, hv⟩ := h.id
  obtain ⟨talk', ht', hv'⟩ := h'.id
  exact satelliteId_inj ht ht' h.system h'.system (hv.symm.trans (hid.trans hv'))

namespace Model

/-- The table has `v` in a cycle that began at most three seconds before `t`. -/
def Occurs (m : Model D) (t : UInt64) (v : Satellite D) : Prop :=
  ∃ (k : Text) (c : Cycle D), m.complete[k]? = some c ∧ c.ms.toNat ≤ t.toNat ∧ t.toNat ≤ c.ms.toNat + 3000 ∧
    v ∈ c.sats

/-- The satellites of the fresh cycles, cycle by cycle. -/
def occurrences (m : Model D) (t : UInt64) : List (Satellite D) :=
  (m.complete.toList.filter fun entry => fresh t entry.2.ms 3000).flatMap (·.2.sats)

/-- How `satellites` merges them. -/
def merging (m : Model D) (t : UInt64) : Merging Text (Satellite D) (Satellite D) where
  key v := v.id
  make v := { v with used := m.isUsed t v }
  merge a v := a.join v

theorem showSatellite_eq (m : Model D) (t : UInt64) : m.showSatellite t = (m.merging t).add := by
  funext all v
  unfold showSatellite Merging.add merging
  dsimp only
  cases all[v.id]? with
  | none => rfl
  | some old => rfl

theorem satellites_eq (m : Model D) (t : UInt64) :
    m.satellites t = (m.merging t).results (m.occurrences t) := by
  rw [Merging.results, occurrences, List.foldl_flatMap, List.foldl_filter, satellites,
    showSatellite_eq]
  congr 3
  funext all entry
  cases fresh t entry.2.ms 3000 <;> rfl

end Model

theorem fresh_iff_toNat {now ms max : UInt64} :
    fresh now ms max = true ↔ ms.toNat ≤ now.toNat ∧ now.toNat ≤ ms.toNat + max.toNat := by
  refine ⟨toNat_of_fresh, fun ⟨hle, hmax⟩ => fresh_iff.2 ?_⟩
  have hle := UInt64.le_iff_toNat_le.2 hle
  refine ⟨hle, ?_⟩
  rw [UInt64.le_iff_toNat_le, UInt64.toNat_sub_of_le _ _ hle]
  omega

theorem Model.mem_occurrences : v ∈ m.occurrences t ↔ m.Occurs t v := by
  simp only [occurrences, Occurs, List.mem_flatMap, List.mem_filter, Prod.exists, fresh_iff_toNat,
    ExtTreeMap.mem_toList_iff_getElem?_eq_some, and_assoc]
  rfl

/-! ### The merge -/

omit [Double D] in
theorem Text.lt_of_compare : ∀ {a b : Text}, compare a b = .lt → a < b
  | [], [], h => by simp at h
  | [], _ :: _, _ => List.nil_lt_cons _ _
  | _ :: _, [], h => by simp at h
  | c :: a, c' :: b, h => by
    rw [List.compare_cons_cons, Ordering.then_eq_lt, Std.compare_eq_lt,
      Std.compare_eq_iff_eq] at h
    rw [List.cons_lt_cons_iff]
    exact h.imp_right fun h => ⟨h.1, lt_of_compare h.2⟩

theorem Satellite.join_cn0 (a v : Satellite D) :
    (a.join v).cn0 = better Double.less a.cn0 v.cn0 := by
  cases hv : v.cn0 with
  | none => cases ha : a.cn0 <;> simp [join, better, hv, ha]
  | some x => cases ha : a.cn0 <;> simp [join, better, hv, ha]

/-- A satellite is used when its constellation has a recent list with its number. -/
theorem Model.isUsed_iff : m.isUsed t v = true ↔ ∃ u, m.usedBy[v.system]? = some u ∧
    u.ms.toNat ≤ t.toNat ∧ t.toNat ≤ u.ms.toNat + 3000 ∧ v.prn ∈ u.prns := by
  unfold isUsed
  cases m.usedBy[v.system]? with
  | none => simp
  | some u =>
    simp only [Bool.and_eq_true, fresh_iff_toNat, and_assoc, Option.some.injEq, exists_eq_left',
      Std.ExtTreeSet.contains_iff_mem]
    rfl

/-- A satellite is shown with what its first occurrence has, -/
theorem Model.source_of_value {vs : List (Satellite D)} {s : Satellite D}
    (h : (m.merging t).value vs = some s) :
    ∃ v ∈ vs, s.system = v.system ∧ s.prn = v.prn ∧ s.used = m.isUsed t v := by
  refine (m.merging t).value_induction
    (P := fun vs s => ∃ v ∈ vs, s.system = v.system ∧ s.prn = v.prn ∧ s.used = m.isUsed t v)
    ?_ ?_ h
  · intro v
    exact ⟨v, List.mem_singleton_self v, rfl, rfl, rfl⟩
  · intro vs s v ⟨first, hfirst, hsource⟩
    exact ⟨first, List.mem_append_left _ hfirst, hsource⟩

/-- and with the greatest strength of all. -/
theorem Model.isBest_of_value [LinearOrder D]
    (hless : ∀ x y : D, Double.less x y = decide (x < y)) {vs : List (Satellite D)}
    {s : Satellite D} (h : (m.merging t).value vs = some s) :
    IsBest (vs.map (·.cn0)) s.cn0 := by
  refine (m.merging t).value_induction (P := fun vs s => IsBest (vs.map (·.cn0)) s.cn0) ?_ ?_ h
  · intro v
    exact isBest_singleton v.cn0
  · intro vs s v ih
    rw [List.map_append, List.map_singleton]
    exact (s.join_cn0 v).symm ▸ ih.snoc hless v.cn0

theorem Model.Occurs.named (calls : List PlotCall)
    (h : ((plot D).exec (plot D).init calls).Occurs t v) : v.Named := by
  obtain ⟨k, c, hc, -, -, hv⟩ := h
  obtain ⟨rs, -, hwhole⟩ := (cycles_run D calls).complete k c hc
  rw [hwhole.sats, List.mem_filterMap] at hv
  obtain ⟨slot, hslot, rfl⟩ := hv
  obtain ⟨r, hr, hslot⟩ := List.mem_flatMap.1 hslot
  obtain ⟨i, hi⟩ := List.mem_iff_getElem?.1 hr
  obtain ⟨g, hread, -⟩ := hwhole.parts i r hi
  exact named_of_mem_gsvSlots hread hslot

/-- `satellites` is the merge of the cycles that are fresh at `t`. -/
structure Model.ShowsMerge [LinearOrder D] (m : Model D) (t : UInt64) : Prop where
  /-- There is one satellite for each id of a fresh cycle, by increasing ids. -/
  sorted : ((m.satellites t).map (·.id)).Pairwise (· < ·)
  mem_iff : ∀ id, id ∈ (m.satellites t).map (·.id) ↔ ∃ v, m.Occurs t v ∧ v.id = id
  /-- The strength of its signal is the greatest of its occurrences. -/
  cn0_none : ∀ s ∈ m.satellites t,
    (s.cn0 = none ↔ ∀ v, m.Occurs t v → v.id = s.id → v.cn0 = none)
  cn0_some : ∀ s ∈ m.satellites t, ∀ x, s.cn0 = some x →
    IsGreatest {y | ∃ v, m.Occurs t v ∧ v.id = s.id ∧ v.cn0 = some y} x
  /-- All occurrences are of its constellation and have its number, -/
  same : ∀ s ∈ m.satellites t, ∀ v, m.Occurs t v → v.id = s.id →
    v.system = s.system ∧ v.prn = s.prn
  /-- and it is used when the list of its constellation is fresh and has that number. -/
  used_iff : ∀ s ∈ m.satellites t, (s.used = true ↔ ∃ u, m.usedBy[s.system]? = some u ∧
    u.ms.toNat ≤ t.toNat ∧ t.toNat ≤ u.ms.toNat + 3000 ∧ s.prn ∈ u.prns)

theorem Model.merging_key (m : Model D) (t : UInt64) (v : Satellite D) :
    (m.merging t).key v = v.id := rfl

theorem Model.merging_make (m : Model D) (t : UInt64) (v : Satellite D) :
    ((m.merging t).make v).id = (m.merging t).key v := rfl

theorem Model.merging_merge (m : Model D) (t : UInt64) (a v : Satellite D) :
    ((m.merging t).merge a v).id = a.id := rfl

/-- What is shown of a satellite is merged from the occurrences of its id. -/
theorem Model.value_of_mem {s : Satellite D} (hs : s ∈ m.satellites t) :
    ∃ vs, (m.merging t).value vs = some s ∧ ∀ v, v ∈ vs ↔ m.Occurs t v ∧ v.id = s.id := by
  rw [m.satellites_eq t, Merging.mem_results_iff (m.merging_make t) (m.merging_merge t)] at hs
  refine ⟨_, hs, fun v => ?_⟩
  rw [List.mem_filter, mem_occurrences, decide_eq_true_eq, merging_key]

theorem Model.source_of_mem {s : Satellite D} (hs : s ∈ m.satellites t) :
    ∃ v, m.Occurs t v ∧ v.id = s.id ∧ s.system = v.system ∧ s.prn = v.prn := by
  obtain ⟨vs, hvalue, hmem⟩ := Model.value_of_mem hs
  obtain ⟨first, hfirst, hsystem, hprn, -⟩ := Model.source_of_value hvalue
  obtain ⟨hoccurs, hid⟩ := (hmem first).1 hfirst
  exact ⟨first, hoccurs, hid, hsystem, hprn⟩

theorem Model.used_of_mem {s : Satellite D} (hs : s ∈ m.satellites t) :
    s.used = m.isUsed t s := by
  obtain ⟨vs, hvalue, -⟩ := Model.value_of_mem hs
  obtain ⟨first, -, hsystem, hprn, hused⟩ := Model.source_of_value hvalue
  rw [hused, isUsed, isUsed, hsystem, hprn]

theorem Model.mem_map_id {id : Text} :
    id ∈ (m.satellites t).map (·.id) ↔ ∃ v, m.Occurs t v ∧ v.id = id := by
  simp only [m.satellites_eq t, Merging.mem_map_results (m.merging_make t) (m.merging_merge t),
    Model.mem_occurrences, Model.merging_key]

/-- All occurrences of an id are of the constellation, and have the number, that is shown. -/
theorem same_of_occurs {calls : List PlotCall} {s : Satellite D}
    (hs : s ∈ ((plot D).exec (plot D).init calls).satellites t)
    (hv : ((plot D).exec (plot D).init calls).Occurs t v) (hid : v.id = s.id) :
    v.system = s.system ∧ v.prn = s.prn := by
  obtain ⟨first, hfirst, hfirstid, hsystem, hprn⟩ := Model.source_of_mem hs
  rw [hsystem, hprn]
  exact (hv.named calls).inj (hfirst.named calls) (hid.trans hfirstid.symm)

/-- In every run of `apply` and `clearTracks` calls on a fresh model, `satellites` is at every
time the merge of the fresh cycles, when the comparison of doubles is a linear order. -/
theorem satellites_exact [LinearOrder D] (hless : ∀ x y : D, Double.less x y = decide (x < y))
    (calls : List PlotCall) (t : UInt64) :
    ((plot D).exec (plot D).init calls).ShowsMerge t := by
  refine ⟨?_, fun id => Model.mem_map_id, fun s hs => ?_, fun s hs x hx => ?_,
    fun s hs v hv hid => same_of_occurs hs hv hid, fun s hs => ?_⟩
  · rw [Model.satellites_eq]
    exact (Merging.pairwise_results (Model.merging_make _ t) (Model.merging_merge _ t) _).imp
      Text.lt_of_compare
  · obtain ⟨vs, hvalue, hmem⟩ := Model.value_of_mem hs
    rw [(Model.isBest_of_value hless hvalue).eq_none_iff]
    simp only [List.forall_mem_map, hmem, and_imp]
  · obtain ⟨vs, hvalue, hmem⟩ := Model.value_of_mem hs
    have hbest := Model.isBest_of_value hless hvalue
    rw [hx] at hbest
    simpa [IsBest, hmem, and_assoc] using hbest
  · rw [Model.used_of_mem hs]
    exact Model.isUsed_iff

end

/-- A satellite that is used, reported by two talkers with two strengths. -/
def twoTalkers : List PlotCall :=
  [.apply { cursor := 3, deviceMonotonicMs := 2000, session := 5
            records := [
              { sequence := 1, receivedMs := 1900
                sentence := ascii "$GNGSA,A,3,05,,,,,,,,,,,,1.5,0.8,1.2,1*3B" },
              { sequence := 2, receivedMs := 1900
                sentence := ascii "$GPGSV,1,1,02,05,40,100,30,07,10,050,41*7E" },
              { sequence := 3, receivedMs := 1900
                sentence := ascii "$GNGSV,1,1,01,05,40,100,35*50" }] }]

theorem satellites_exact_twoTalkers :
    ((plot Rat).exec (plot Rat).init twoTalkers).ShowsMerge 2000 :=
  satellites_exact (fun _ _ => rfl) twoTalkers 2000

example : (((plot Rat).exec (plot Rat).init twoTalkers).satellites 2000).map
    (fun s => (s.id, s.used, s.cn0)) =
      [(ascii "GPS:5", true, some 35), (ascii "GPS:7", false, some 41)] := by
  decide +kernel

end PrismSdk.Gnss
