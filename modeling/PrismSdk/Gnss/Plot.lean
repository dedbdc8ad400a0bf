import Mathlib
import PrismSdk.Gnss.Observation
import PrismSdk.Gnss.Text
import PrismSdk.Library.Transition

/-! The display model of `gnss_plot.hpp`: what a sentence says, and `Model` with
`apply` and `clearTracks`. A sentence is read first, whatever the state of the model,
and then interpreted. -/

namespace PrismSdk.Gnss

open Std (ExtTreeMap ExtTreeSet)

structure Satellite (D : Type) where
  id : Text := []
  system : Text := []
  signalIds : Text := []
  prn : ℤ := 0
  azimuth : Option D := none
  elevation : Option D := none
  cn0 : Option D := none
  used : Bool := false
  ms : UInt64 := 0

structure Position (D : Type) [Double D] where
  valid : Bool := false
  source : Text := []
  epoch : Text := []
  solution : Text := ascii "INVALID"
  quality : ℤ := 0
  satellites : ℤ := 0
  ms : UInt64 := 0
  sequence : UInt64 := 0
  latitude : D := 0.0
  longitude : D := 0.0
  height : Option D := none
  hdop : Option D := none
  northSigma : Option D := none
  eastSigma : Option D := none
  upSigma : Option D := none

def fresh (now at' max : UInt64) : Bool := now ≥ at' && now - at' ≤ max

structure Point (D : Type) [Double D] where
  e : D := 0.0
  n : D := 0.0
  u : D := 0.0
  heightValid : Bool := false
  ms : UInt64 := 0
  segment : UInt64 := 0
  quality : ℤ := 0

structure Origin (D : Type) [Double D] where
  valid : Bool := false
  heightValid : Bool := false
  latitude : D := 0.0
  longitude : D := 0.0
  height : D := 0.0

structure Cycle (D : Type) where
  total : ℤ := 0
  next : ℤ := 1
  count : ℤ := 0
  ms : UInt64 := 0
  sats : List (Satellite D) := []

structure Used where
  ms : UInt64 := 0
  prns : ExtTreeSet ℤ := ∅

/-- A part of a GSV cycle with a count that fits its place in the cycle. -/
structure CyclePart (D : Type) where
  key : Text
  total : ℤ
  part : ℤ
  count : ℤ
  ms : UInt64
  sats : List (Satellite D)

/-- What a record says. -/
inductive Sentence (D : Type) [Double D] where
  /-- The checksum does not hold. -/
  | corrupt
  | ignored
  | adrnav (p : Position D)
  | gga (p : Position D)
  | gsa (system : Text) (used : Used)
  | gsv (part : CyclePart D)
  /-- A GSV sentence with a count that does not fit. -/
  | gsvMisfit (key : Text)

section

variable {D : Type} [Double D]

open Double

namespace Origin

/-- `3.14159265358979323846 / 180`. -/
def rad : D := 3.14159265358979323846 / 180.0

def ecef (lat lon h : D) : D × D × D :=
  let a := 6378137.0
  let e2 := 0.0066943799901413165
  let lat := lat * rad
  let lon := lon * rad
  let n := a / sqrt (1.0 - e2 * sin lat * sin lat)
  ((n + h) * cos lat * cos lon, (n + h) * cos lat * sin lon, (n * (1.0 - e2) + h) * sin lat)

def project (o : Origin D) (p : Position D) : Point D :=
  let a := ecef o.latitude o.longitude o.height
  let b := ecef p.latitude p.longitude (p.height.getD o.height)
  let x := b.1 - a.1
  let y := b.2.1 - a.2.1
  let z := b.2.2 - a.2.2
  let la := o.latitude * rad
  let lo := o.longitude * rad
  { e := -sin lo * x + cos lo * y
    n := -sin la * cos lo * x - sin la * sin lo * y + cos la * z
    u := cos la * cos lo * x + cos la * sin lo * y + sin la * z
    heightValid := o.heightValid && p.height.isSome
    ms := p.ms
    segment := 0
    quality := p.quality }

end Origin

/-! ### Sentences -/

/-- The position of an ADRNAV sentence with header `h` and fields `f`. -/
def adrnavPosition (h f : List Text) (r : GnssObservation) : Position D :=
  let lat : Option D := number (field f 2) (-90.0) 90.0
  let lon : Option D := number (field f 3) (-180.0) 180.0
  let alt : Option D := number (field f 4)
  let geoid : Option D := number (field f 5)
  let type := field f 1
  let fix := decide (type = ascii "L1_INT" ∨ type = ascii "WIDE_INT" ∨ type = ascii "NARROW_INT")
  let floating := decide (type = ascii "L1_FLOAT" ∨ type = ascii "IONOFREE_FLOAT" ∨
    type = ascii "NARROW_FLOAT")
  let quality : ℤ := if fix then 4 else if floating then 5 else if type = ascii "SINGLE" then 1
    else if type = ascii "PSRDIFF" then 2 else 0
  let satellites := integer D (field f 14) 0 255
  let valid := decide (field f 0 = ascii "SOL_COMPUTED" ∧ quality ≠ 0 ∧ satellites > 0 ∧
    lat.isSome ∧ lon.isSome ∧ alt.isSome ∧ geoid.isSome ∧ field f 6 = ascii "WGS84" ∧
    field h 2 = ascii "GPS" ∧ field h 3 = ascii "FINE" ∧ integer D (field h 4) 0 65535 ≥ 0 ∧
    integer D (field h 5) 0 604799999 ≥ 0)
  { source := ascii "ADRNAV", ms := r.receivedMs, sequence := r.sequence
    epoch := field h 4 ++ ascii ":" ++ field h 5
    solution := type, satellites, quality, valid
    latitude := if valid then lat.getD 0.0 else 0.0
    longitude := if valid then lon.getD 0.0 else 0.0
    height := if valid then Option.map₂ (· + ·) alt geoid else none
    northSigma := number (field f 7) 0.0
    eastSigma := number (field f 8) 0.0
    upSigma := number (field f 9) 0.0 }

variable (D) in
/-- The branch of `Model::sentence` for sentences that start with `#`. -/
def readAdrnav (r : GnssObservation) (star : ℕ) : Sentence D :=
  match r.sentence.idxOf? ';'.toUInt8 with
  | none => .ignored
  | some semi =>
    if semi > star then .ignored
    else
      let h := split (substr r.sentence 1 (semi - 1))
      let f := split (substr r.sentence (semi + 1) (star - semi - 1))
      if h.length ≠ 10 ∨ f.length < 29 ∨ f.length > 31 then .ignored
      else .adrnav (adrnavPosition h f r)

/-- The position of a GGA sentence with fields `f`. -/
def ggaPosition (f : List Text) (r : GnssObservation) : Position D :=
  let quality := integer D (field f 6) 0 8
  let satellites := integer D (field f 7) 0 255
  let lat : Option D := coordinate (field f 2) (field f 3) true
  let lon : Option D := coordinate (field f 4) (field f 5) false
  let valid := decide ((quality = 1 ∨ quality = 2 ∨ quality = 4 ∨ quality = 5) ∧ satellites > 0 ∧
    lat.isSome ∧ lon.isSome ∧ utcValid D (field f 1))
  { source := ascii "GGA", epoch := field f 1, ms := r.receivedMs, sequence := r.sequence
    quality, satellites, valid
    hdop := number (field f 8) 0.0
    solution := ascii (if quality = 4 then "FIX" else if quality = 5 then "FLOAT"
      else if quality = 1 then "SINGLE" else if quality = 2 then "DGNSS" else "INVALID")
    latitude := if valid then lat.getD 0.0 else 0.0
    longitude := if valid then lon.getD 0.0 else 0.0
    height := if valid ∧ field f 10 = ascii "M" ∧ field f 12 = ascii "M" then
      Option.map₂ (· + ·) (number (field f 9)) (number (field f 11)) else none }

variable (D) in
/-- The branch of `Model::sentence` for GSA sentences. -/
def readGsa (talk : Text) (f : List Text) (r : GnssObservation) : Sentence D :=
  let sid := if f.length > 18 then integer D (field f 18) 1 6 else 0
  if sid < 0 then .ignored
  else if talk = ascii "GN" ∧ sid = 0 then .ignored
  else
    let sys := system talk 1 sid
    let prns := if integer D (field f 2) 1 3 > 1 then
        (List.range' 3 12).foldl (fun (prns : ExtTreeSet ℤ) i =>
          let p := integer D (field f i) 1 999
          if p > 0 then prns.insert (canonical sys p) else prns) ∅
      else ∅
    .gsa sys { ms := r.receivedMs, prns }

/-- The satellite in slot `i` of a GSV sentence, if its number is one. -/
def readSlot (talk signal : Text) (f : List Text) (r : GnssObservation) (i : ℕ) :
    Option (Satellite D) :=
  let start := 4 + i * 4
  let prn := integer D (field f start) 1 999
  if prn < 0 then none
  else
    let sys := system talk prn
    let number' := canonical sys prn
    some { system := sys, prn := number', signalIds := signal
           id := (if sys = ascii "Unknown" then talk else sys) ++ ascii ":" ++
             ascii (toString number')
           elevation := number (field f (start + 1)) 0.0 90.0
           azimuth := number (field f (start + 2)) 0.0 359.0
           cn0 := number (field f (start + 3)) 0.0 99.0
           ms := r.receivedMs }

variable (D) in
/-- The branch of `Model::sentence` for GSV sentences, up to the cycles. -/
def readGsv (talk : Text) (f : List Text) (r : GnssObservation) : Sentence D :=
  let total := integer D (field f 1) 1 32
  let part := integer D (field f 2) 1 32
  let count := integer D (field f 3) 0 128
  let rest := f.length - 4
  if total < 1 ∨ part < 1 ∨ part > total ∨ count < 0 ∨ (rest % 4 ≠ 0 ∧ rest % 4 ≠ 1) then .ignored
  else
    let signal := if rest % 4 ≠ 0 then f.getLastD [] else []
    let key := talk ++ ascii "/" ++ signal
    if total ≠ max 1 ((count + 3) / 4) ∨
        (rest / 4 : ℕ) ≠ min 4 (max 0 (count - 4 * (part - 1))) then
      .gsvMisfit key
    else
      .gsv { key, total, part, count, ms := r.receivedMs
             sats := (List.range (rest / 4)).filterMap (readSlot talk signal f r) }

variable (D) in
/-- `Model::sentence`, as far as it does not depend on the model. -/
def readSentence (r : GnssObservation) : Sentence D :=
  let s := r.sentence
  if !checksum s then .corrupt
  else
    let star := s.idxOf '*'.toUInt8
    if s.head? = some '#'.toUInt8 then readAdrnav D r star
    else
      let f := split (substr s 1 (star - 1))
      if f = [] ∨ (field f 0).length ≠ 5 then .ignored
      else
        let talk := (field f 0).take 2
        let type := (field f 0).drop 2
        if type = ascii "GGA" ∧ f.length ≥ 13 then .gga (ggaPosition f r)
        else if type = ascii "GSA" ∧ f.length ≥ 18 then readGsa D talk f r
        else if type ≠ ascii "GSV" ∨ f.length < 4 then .ignored
        else readGsv D talk f r

end

/-! ### The model -/

structure Model (D : Type) [Double D] where
  pending : ExtTreeMap Text (Cycle D) := ∅
  complete : ExtTreeMap Text (Cycle D) := ∅
  usedBy : ExtTreeMap Text Used := ∅
  lastGga : Text := []
  lastRtk : Text := []
  segment : UInt64 := 0
  cursor : UInt64 := 0
  session : UInt64 := 0
  now : UInt64 := 0
  rejected : UInt64 := 0
  gaps : UInt64 := 0
  gnss : Position D := {}
  rtk : Position D := {}
  origin : Origin D := {}
  gnssTrack : List (Point D) := []
  rtkTrack : List (Point D) := []

namespace Model

variable {D : Type} [Double D]

/-- `append`: the model, the track and the last epoch, updated. -/
def append (m : Model D) (p : Position D) (track : List (Point D)) (last : Text) :
    Model D × List (Point D) × Text :=
  if !p.valid then ({ m with segment := m.segment + 1 }, track, [])
  else if p.epoch = last then (m, track, last)
  else
    let origin : Origin D := if !m.origin.valid then
        { valid := true, heightValid := p.height.isSome, latitude := p.latitude
          longitude := p.longitude, height := p.height.getD 0.0 }
      else m.origin
    let late := track.getLast?.any fun back => !fresh p.ms back.ms 2000
    let segment := if late then m.segment + 1 else m.segment
    let longer : List (Point D) := track ++ [{ origin.project p with segment }]
    ({ m with origin, segment }, if longer.length > 20000 then longer.tail else longer, p.epoch)

/-- `if (pending_.size() > 128) pending_.clear(); if (complete_.size() > 128) complete_.clear()`. -/
def bound (m : Model D) : Model D :=
  { m with
    pending := if m.pending.size > 128 then ∅ else m.pending
    complete := if m.complete.size > 128 then ∅ else m.complete }

/-- The rest of the branch for GSV sentences: the part either goes on with the cycle under
way or ends it. -/
def addPart (m : Model D) (g : CyclePart D) : Model D :=
  let pending := if g.part = 1 then
      m.pending.insert g.key { total := g.total, next := 1, count := g.count, ms := g.ms }
    else m.pending
  match pending[g.key]? with
  | none => { m with pending }
  | some cycle =>
    if cycle.next ≠ g.part ∨ cycle.total ≠ g.total ∨ cycle.count ≠ g.count ∨
        !fresh g.ms cycle.ms 2000 then { m with pending := pending.erase g.key }
    else
      let cycle := { cycle with next := cycle.next + 1, sats := cycle.sats ++ g.sats }
      if cycle.next > g.total then
        bound { m with complete := m.complete.insert g.key cycle, pending := pending.erase g.key }
      else bound { m with pending := pending.insert g.key cycle }

/-- `Model::sentence`, once the record is read. -/
def interpret (m : Model D) : Sentence D → Model D
  | .corrupt => { m with rejected := m.rejected + 1 }
  | .ignored => m
  | .adrnav p =>
    let next := append { m with rtk := p } p m.rtkTrack m.lastRtk
    { next.1 with rtkTrack := next.2.1, lastRtk := next.2.2 }
  | .gga p =>
    let next := append { m with gnss := p } p m.gnssTrack m.lastGga
    { next.1 with gnssTrack := next.2.1, lastGga := next.2.2 }
  | .gsa system used => { m with usedBy := m.usedBy.insert system used }
  | .gsv g => m.addPart g
  | .gsvMisfit key => { m with pending := m.pending.erase key }

def sentence (m : Model D) (r : GnssObservation) : Model D := m.interpret (readSentence D r)

def clearTracks (m : Model D) : Model D :=
  { m with
    origin := {}, gnssTrack := [], rtkTrack := [], lastGga := [], lastRtk := []
    segment := m.segment + 1 }

/-- `if (session && b.session != session) *this = Model{}`. -/
def enter (m : Model D) (session : UInt64) : Model D :=
  if m.session ≠ 0 ∧ session ≠ m.session then {} else m

/-- What `apply` does when the batch reports a gap. -/
def openGap (m : Model D) : Model D :=
  { m with
    gaps := m.gaps + 1, segment := m.segment + 1, pending := ∅, complete := ∅, usedBy := ∅
    gnss := { m.gnss with valid := false }, rtk := { m.rtk with valid := false } }

/-- What `apply` does before the records of the batch. -/
def start (m : Model D) (b : GnssObservations) : Model D :=
  let m := m.enter b.session
  { (if b.gap then m.openGap else m) with session := b.session, now := b.deviceMonotonicMs }

/-- The body of the loop of `apply`. -/
def record (gap : Bool) (m : Model D) (r : GnssObservation) : Model D :=
  if r.sequence > m.cursor ∨ gap then if fresh m.now r.receivedMs 5000 then m.sentence r else m
  else m

/-- `if (!fresh(now, p.ms, 2000)) p.valid = false`. -/
def expire (now : UInt64) (p : Position D) : Position D :=
  if !fresh now p.ms 2000 then { p with valid := false } else p

/-- What `apply` does after the records of the batch. -/
def finish (m : Model D) (cursor : UInt64) : Model D :=
  { m with cursor, gnss := expire m.now m.gnss, rtk := expire m.now m.rtk }

def apply (m : Model D) (b : GnssObservations) : Model D :=
  (b.records.foldl (record b.gap) (m.start b)).finish b.cursor

end Model

end PrismSdk.Gnss
