import PrismSdk.Gnss.Satellites
import PrismSdk.Library.KeyedWrites

/-! The satellites that the receiver reports as used, against those shown as used. A GSA
sentence replaces what earlier ones said of its constellation, also where it only goes on
with their list. -/

namespace PrismSdk.Gnss

open Library
open Library.KeyedWrite (act run sinceClear valuesAt)
open Std (ExtTreeMap ExtTreeSet)

variable (D : Type) [Double D]

/-- The sentence lists the satellite `p` of `sys` as used in a fix of two or three
dimensions. -/
def Lists (r : GnssObservation) (sys : Text) (p : ℤ) : Prop :=
  let f := sentenceFields r
  integer D (field f 2) 1 3 > 1 ∧ ∃ i, 3 ≤ i ∧ i < 15 ∧
    integer D (field f i) 1 999 > 0 ∧ canonical sys (integer D (field f i) 1 999) = p

/-- What a model does to `used_`, with the sentences in place of their lists. -/
def Seen.write : Seen → KeyedWrite Text GnssObservation
  | .reset => .clear
  | .gap => .clear
  | .record r =>
    match readSentence D r with
    | .gsa sys _ => .put sys r
    | _ => .keep
  | _ => .keep

/-- The GSA sentences of the constellation `sys`, in order. -/
def gsas (sys : Text) (es : List Seen) : List GnssObservation :=
  valuesAt sys (es.map (Seen.write D))

/-- Those since the last gap or other session. -/
def currentGsas (sys : Text) (es : List Seen) : List GnssObservation :=
  valuesAt sys (sinceClear (es.map (Seen.write D)))

/-- Those that were received at the time of the last one. -/
def lastGsas (sys : Text) (es : List Seen) : List GnssObservation :=
  match (gsas D sys es).getLast? with
  | none => []
  | some last => (gsas D sys es).filter (·.receivedMs = last.receivedMs)

variable {D}

/-! ### What a sentence lists -/

theorem mem_foldl_insert {f g : ℕ → ℤ} (is : List ℕ) (prns : ExtTreeSet ℤ) (p : ℤ) :
    p ∈ is.foldl (fun prns i => if f i > 0 then prns.insert (g i) else prns) prns ↔
      p ∈ prns ∨ ∃ i ∈ is, f i > 0 ∧ g i = p := by
  induction is generalizing prns with
  | nil => simp
  | cons i is ih =>
    rw [List.foldl_cons, ih]
    split_ifs with h
    · simp [ExtTreeSet.mem_insert, h, or_assoc, or_left_comm]
    · simp [h]

theorem readGsv_cases (talk : Text) (f : List Text) (r : GnssObservation) :
    readGsv D talk f r = .ignored ∨ (∃ key, readGsv D talk f r = .gsvMisfit key) ∨
      ∃ g, readGsv D talk f r = .gsv g := by
  unfold readGsv
  dsimp only
  split
  · exact .inl rfl
  split
  · exact .inr (.inl ⟨_, rfl⟩)
  · exact .inr (.inr ⟨_, rfl⟩)

theorem readGsa_of_readSentence {r : GnssObservation} {sys : Text} {u : Used}
    (h : readSentence D r = .gsa sys u) :
    readGsa D ((field (sentenceFields r) 0).take 2) (sentenceFields r) r = .gsa sys u := by
  unfold readSentence at h
  dsimp only at h
  split_ifs at h
  · rcases readAdrnav_cases (D := D) r _ with heq | ⟨p, heq⟩ <;> rw [heq] at h <;> cases h
  · exact h
  · rcases readGsv_cases (D := D) _ _ r with heq | ⟨key, heq⟩ | ⟨g, heq⟩ <;>
      rw [heq] at h <;> cases h

/-- A GSA sentence has the set of the satellites that it lists. -/
theorem gsa_of_readSentence {r : GnssObservation} {sys : Text} {u : Used}
    (h : readSentence D r = .gsa sys u) :
    u.ms = r.receivedMs ∧ ∀ p, p ∈ u.prns ↔ Lists D r sys p := by
  have hread := readGsa_of_readSentence h
  unfold readGsa at hread
  dsimp only at hread
  generalize (if (sentenceFields r).length > 18 then integer D (field (sentenceFields r) 18) 1 6
    else 0) = sid at hread
  split at hread
  · cases hread
  split at hread
  · cases hread
  obtain ⟨rfl, rfl⟩ := Sentence.gsa.inj hread
  refine ⟨rfl, fun p => ?_⟩
  dsimp only [Lists]
  split_ifs with hmode
  · rw [mem_foldl_insert (f := fun i => integer D (field (sentenceFields r) i) 1 999)]
    simp [hmode, List.mem_range'_1, and_assoc]
  · simp [hmode]

/-! ### What the model has of it -/

variable (D) in
/-- What a GSA sentence leaves in `used_`. -/
def usedOf (r : GnssObservation) : Option Used :=
  match readSentence D r with
  | .gsa _ u => some u
  | _ => none

theorem gsa_of_mem_gsas {es : List Seen} {sys : Text} {r : GnssObservation}
    (h : r ∈ gsas D sys es) : ∃ u, readSentence D r = .gsa sys u := by
  obtain ⟨w, hw, hvalue⟩ := List.mem_filterMap.1 h
  obtain ⟨e, -, rfl⟩ := List.mem_map.1 hw
  cases e with
  | record r' =>
    rw [Seen.write] at hvalue
    cases hread : readSentence D r' with
    | gsa sys' u =>
      rw [hread, KeyedWrite.valueAt] at hvalue
      split_ifs at hvalue with hsys
      obtain rfl := Option.some.inj hvalue
      exact ⟨u, hsys ▸ hread⟩
    | _ =>
      rw [hread] at hvalue
      cases hvalue
  | _ => cases hvalue

theorem Model.usedBy_interpret (m : Model D) (s : Sentence D) :
    (m.interpret s).usedBy = match s with
      | .gsa sys u => m.usedBy.insert sys u
      | _ => m.usedBy := by
  cases s with
  | adrnav p => rw [interpret_adrnav]
  | gga p => rw [interpret_gga]
  | gsv g => rw [interpret, addPart_eq]
  | gsa sys u => rfl
  | gsvMisfit key => rfl
  | corrupt => rfl
  | ignored => rfl

/-- What is done to `used_` is done to the map of the sentences. -/
theorem Model.usedBy_see {m : Model D} {heard : ExtTreeMap Text GnssObservation}
    (h : ∀ sys : Text, m.usedBy[sys]? = heard[sys]?.bind (usedOf D)) (e : Seen) (sys : Text) :
    (m.see e).usedBy[sys]? = (act heard (e.write D))[sys]?.bind (usedOf D) := by
  cases e with
  | record r =>
    rw [see, sentence, usedBy_interpret, Seen.write]
    cases hread : readSentence D r with
    | gsa sys' u =>
      have hused : usedOf D r = some u := by rw [usedOf, hread]
      simp only [act, getElem?_insert_eq]
      split_ifs
      · exact hused.symm
      · exact h sys
    | _ => exact h sys
  | reset => simp [see, Seen.write, act]
  | gap => simp [see, Seen.write, act, openGap]
  | opened session now => exact h sys
  | closed cursor => exact h sys
  | cleared => exact h sys

/-- `used_` has the lists of the last sentences since it was cleared. -/
theorem usedBy_exec (es : List Seen) (sys : Text) :
    ((sights D).exec (sights D).init es).usedBy[sys]? =
      (currentGsas D sys es).getLast?.bind (usedOf D) := by
  rw [currentGsas, ← KeyedWrite.getElem?_run]
  revert sys
  refine (sights D).history (R := fun es m => ∀ sys : Text,
    m.usedBy[sys]? = (run (es.map (Seen.write D)))[sys]?.bind (usedOf D)) ?_ ?_ es
  · intro sys
    simp [run, sights]
  · intro es e ih
    rw [List.map_append, List.map_singleton, KeyedWrite.run_snoc]
    exact Model.usedBy_see ih e

theorem currentGsas_suffix (sys : Text) (es : List Seen) :
    currentGsas D sys es <:+ gsas D sys es :=
  KeyedWrite.valuesAt_sinceClear_suffix sys _

/-- A sentence of the time of the last one, and the last one since `used_` was cleared, are
of one time. -/
theorem receivedMs_eq {sys : Text} {es : List Seen} {r last : GnssObservation}
    (hr : r ∈ lastGsas D sys es) (hlast : (currentGsas D sys es).getLast? = some last) :
    r.receivedMs = last.receivedMs := by
  obtain ⟨before, hsplit⟩ := currentGsas_suffix (D := D) sys es
  have hall : (gsas D sys es).getLast? = some last := by
    rw [← hsplit, List.getLast?_append, hlast]
    rfl
  rw [lastGsas, hall] at hr
  exact of_decide_eq_true (List.mem_filter.1 hr).2

/-- A satellite is used when the last sentence lists it, at the times at which that is
fresh. -/
theorem isUsed_iff_lists (calls : List PlotCall) (t : UInt64) (s : Satellite D) :
    ((plot D).exec (plot D).init calls).isUsed t s = true ↔
      ∃ last, (currentGsas D s.system (sightsOf D (plot D).init calls)).getLast? = some last ∧
        last.receivedMs.toNat ≤ t.toNat ∧ t.toNat ≤ last.receivedMs.toNat + 3000 ∧
        Lists D last s.system s.prn := by
  rw [Model.isUsed_iff, ← exec_seen, usedBy_exec]
  cases hlast : (currentGsas D s.system (sightsOf D (plot D).init calls)).getLast? with
  | none => simp
  | some last =>
    have hmem := (currentGsas_suffix (D := D) s.system _).subset (List.mem_of_getLast? hlast)
    obtain ⟨u, hread⟩ := gsa_of_mem_gsas hmem
    obtain ⟨hms, hprns⟩ := gsa_of_readSentence hread
    have hused : usedOf D last = some u := by rw [usedOf, hread]
    simp only [Option.bind_some, hused, Option.some.injEq, exists_eq_left', hms, hprns]

/-! ### The satellites of the last list -/

/-- The satellites that the last GSA sentences of a constellation list, all of one time, are
shown as used while they are fresh. -/
def ShowsUsed (es : List Seen) (m : Model D) : Prop :=
  ∀ sys, 1 < (lastGsas D sys es).length → ∀ r ∈ lastGsas D sys es, ∀ p, Lists D r sys p →
    ∀ t : UInt64, r.receivedMs.toNat ≤ t.toNat → t.toNat ≤ r.receivedMs.toNat + 3000 →
      ∀ s ∈ m.satellites t, s.system = sys → s.prn = p → s.used = true

/-- Each satellite that the last GSA sentences of a constellation list, all of one time, and
that is in a fresh cycle, is in the list of the last sentence, and neither a gap nor another
session came after that. -/
def LastListsAll (es : List Seen) (m : Model D) : Prop :=
  ∀ sys, 1 < (lastGsas D sys es).length → ∀ r ∈ lastGsas D sys es, ∀ p, Lists D r sys p →
    ∀ t : UInt64, r.receivedMs.toNat ≤ t.toNat → t.toNat ≤ r.receivedMs.toNat + 3000 →
      ∀ v, m.Occurs t v → v.system = sys → v.prn = p →
        ∃ last, (currentGsas D sys es).getLast? = some last ∧ Lists D last sys p

variable (D) in
/-- After every run of `apply` and `clearTracks` calls on a fresh model, the satellites that
several GSA sentences of one time list are all shown as used exactly when the last of the
sentences lists them all by itself. -/
theorem used_shown_iff (calls : List PlotCall) :
    ShowsUsed (sightsOf D (plot D).init calls) ((plot D).exec (plot D).init calls) ↔
      LastListsAll (sightsOf D (plot D).init calls) ((plot D).exec (plot D).init calls) := by
  constructor
  · intro h sys hmany r hr p hp t hle hnear v hv hsystem hprn
    obtain ⟨s, hs, hid⟩ := List.mem_map.1 (Model.mem_map_id.2 ⟨v, hv, rfl⟩)
    obtain ⟨hsame, hnumber⟩ := same_of_occurs hs hv hid.symm
    have hsys : s.system = sys := hsame.symm.trans hsystem
    have hnum : s.prn = p := hnumber.symm.trans hprn
    have hused := h sys hmany r hr p hp t hle hnear s hs hsys hnum
    rw [Model.used_of_mem hs, isUsed_iff_lists, hsys, hnum] at hused
    obtain ⟨last, hlast, -, -, hlists⟩ := hused
    exact ⟨last, hlast, hlists⟩
  · intro h sys hmany r hr p hp t hle hnear s hs hsystem hprn
    obtain ⟨v, hv, -, hsame, hnumber⟩ := Model.source_of_mem hs
    obtain ⟨last, hlast, hlists⟩ := h sys hmany r hr p hp t hle hnear v hv
      (hsame.symm.trans hsystem) (hnumber.symm.trans hprn)
    rw [Model.used_of_mem hs, isUsed_iff_lists, hsystem, hprn]
    rw [receivedMs_eq hr hlast] at hle hnear
    exact ⟨last, hlast, hle, hnear, hlists⟩

/-- The first twelve satellites of a fix. -/
def firstTwelve : GnssObservation where
  sequence := 1
  receivedMs := 1900
  sentence := ascii "$GNGSA,A,3,01,02,03,04,05,06,07,08,09,10,11,12,1.5,0.8,1.2,1*3D"

/-- The rest of them. -/
def thirteenth : GnssObservation where
  sequence := 2
  receivedMs := 1900
  sentence := ascii "$GNGSA,A,3,13,,,,,,,,,,,,1.5,0.8,1.2,1*3C"

/-- Thirteen satellites in view, all of them used. -/
def thirteenUsed : GnssObservations where
  cursor := 6
  session := 5
  deviceMonotonicMs := 2000
  records := [firstTwelve, thirteenth,
    { sequence := 3, receivedMs := 1900
      sentence := ascii "$GPGSV,4,1,13,01,40,100,30,02,40,100,30,03,40,100,30,04,40,100,30*7A" },
    { sequence := 4, receivedMs := 1900
      sentence := ascii "$GPGSV,4,2,13,05,40,100,30,06,40,100,30,07,40,100,30,08,40,100,30*71" },
    { sequence := 5, receivedMs := 1900
      sentence := ascii "$GPGSV,4,3,13,09,40,100,30,10,40,100,30,11,40,100,30,12,40,100,30*77" },
    { sequence := 6, receivedMs := 1900
      sentence := ascii "$GPGSV,4,4,13,13,40,100,30*4F" }]

/-- The satellites of the first sentence are in view and are not shown as used. -/
theorem thirteenUsed_lost :
    (∃ f, parseGnssObservations f = .ok thirteenUsed) ∧
      ¬ ShowsUsed (sightsOf Rat (plot Rat).init [.apply thirteenUsed])
        ((plot Rat).exec (plot Rat).init [.apply thirteenUsed]) := by
  refine ⟨⟨_, parse_response (by decide +kernel) (by decide +kernel)⟩, fun h => ?_⟩
  have hlast : lastGsas Rat (ascii "GPS")
      (sightsOf Rat (plot Rat).init [.apply thirteenUsed]) = [firstTwelve, thirteenth] := by
    decide +kernel
  have hlists : Lists Rat firstTwelve (ascii "GPS") 1 :=
    ⟨by decide +kernel, 3, by decide, by decide, by decide +kernel, by decide +kernel⟩
  have hshown : ∃ s ∈ ((plot Rat).exec (plot Rat).init [.apply thirteenUsed]).satellites 2000,
      s.system = ascii "GPS" ∧ s.prn = 1 ∧ s.used = false := by
    decide +kernel
  obtain ⟨s, hs, hsystem, hnumber, hunused⟩ := hshown
  have hused := h (ascii "GPS") (by rw [hlast]; decide) firstTwelve (by rw [hlast]; simp) 1 hlists
    2000 (by decide) (by decide) s hs hsystem hnumber
  exact Bool.false_ne_true (hunused.symm.trans hused)

end PrismSdk.Gnss
