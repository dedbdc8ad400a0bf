import Mathlib.Data.Int.Notation
import Mathlib.Logic.Function.Iterate
import Mathlib.Tactic.Common

/-! Sentences as text, and the readers of `gnss_plot.hpp` that work on text alone:
fields, numbers, coordinates, times, checksums, constellations. -/

namespace PrismSdk.Gnss

/-- `std::string`: bytes. -/
abbrev Text := List UInt8

/-- The text of a literal. -/
def ascii (literal : String) : Text := literal.toList.map (fun c => UInt8.ofNat c.toNat)

/-- What the display model uses of `double`. -/
class Double (D : Type) extends Add D, Sub D, Mul D, Div D, Neg D, BEq D, OfScientific D where
  /-- `in >> std::noskipws >> x`, when it succeeds and ends the text. -/
  extract : Text → Option D
  isfinite : D → Bool
  less : D → D → Bool
  lessEq : D → D → Bool
  ofInt : ℤ → D
  /-- `int(x)`. -/
  toInt : D → ℤ
  floor : D → D
  sqrt : D → D
  sin : D → D
  cos : D → D

/-- The value of a text of decimal digits. -/
def decimal (digits : Text) : ℕ := digits.foldl (fun n c => 10 * n + (c - '0'.toUInt8).toNat) 0

/-- `s.find_first_not_of("0123456789") == s.npos`. -/
def allDigits (s : Text) : Bool := s.all (fun c => '0'.toUInt8 ≤ c && c ≤ '9'.toUInt8)

/-- Digits with at most one point: their value without the point, and how many of them come
after it. -/
def significand (s : Text) : Option (ℕ × ℕ) :=
  match s.splitOn '.'.toUInt8 with
  | [whole] => if !whole.isEmpty && allDigits whole then some (decimal whole, 0) else none
  | [whole, part] =>
    if !(whole ++ part).isEmpty && allDigits (whole ++ part) then
      some (decimal (whole ++ part), part.length)
    else none
  | _ => none

/-- The sign that a text may begin with. -/
def signOf (text : Text) : Text :=
  text.take (if text.head? = some '+'.toUInt8 ∨ text.head? = some '-'.toUInt8 then 1 else 0)

/-- What comes after the `e` of a number. -/
def exponent (s : Text) : Option ℤ :=
  let sign := signOf s
  let digits := s.drop sign.length
  if !digits.isEmpty && allDigits digits then
    some (if sign = ascii "-" then -decimal digits else decimal digits)
  else none

def isExponentMark (c : UInt8) : Bool := c == 'e'.toUInt8 || c == 'E'.toUInt8

/-- An unsigned number, with an exponent or without. -/
def extractUnsigned {D : Type} [OfScientific D] (s : Text) : Option D := do
  let (n, places) ← significand (s.takeWhile (!isExponentMark ·))
  let shift ← match s.dropWhile (!isExponentMark ·) with
    | [] => some 0
    | _ :: power => exponent power
  let e := shift - places
  some (OfScientific.ofScientific n (decide (e < 0)) e.natAbs)

/-- A number as a stream reads it. -/
def extractDecimal {D : Type} [Neg D] [OfScientific D] (s : Text) : Option D :=
  let sign := signOf s
  let x := extractUnsigned (s.drop sign.length)
  if sign = ascii "-" then x.map (-·) else x

/-- Doubles as the machine computes them. What is too large comes out infinite, where the
stream fails, and `number` refuses both. -/
instance : Double Float where
  extract := extractDecimal
  isfinite := Float.isFinite
  less x y := x < y
  lessEq x y := x ≤ y
  ofInt := Float.ofInt
  toInt x := x.toInt64.toInt
  floor := Float.floor
  sqrt := Float.sqrt
  sin := Float.sin
  cos := Float.cos

/-- Exact numbers, for runs that a proof evaluates. The last three functions have the
values and slopes of the real ones at 1, 0 and 0. -/
instance : Double Rat where
  extract := extractDecimal
  isfinite _ := true
  less x y := x < y
  lessEq x y := x ≤ y
  ofInt n := n
  toInt := Rat.floor
  floor x := x.floor
  sqrt x := (x + 1) / 2
  sin x := x
  cos _ := 1

section Readers

variable {D : Type} [Double D]

open Double

def split (s : Text) (sep : Char := ',') : List Text := s.splitOn sep.toUInt8

/-- `s.substr(at, n)`. -/
def substr (s : Text) (start n : ℕ) : Text := (s.drop start).take n

/-- Field `i` of a sentence. -/
def field (f : List Text) (i : ℕ) : Text := f.getD i []

def number (s : Text) (low : D := -1e12) (high : D := 1e12) : Option D :=
  (extract s).filter (fun x => isfinite x && !less x low && !less high x)

variable (D) in
def integer (s : Text) (low high : ℤ) : ℤ :=
  match (number s (ofInt low) (ofInt high) : Option D) with
  | some n => if floor n == n then toInt n else -1
  | none => -1

def coordinate (s hemi : Text) (lat : Bool) : Option D :=
  (number s 0.0 (if lat then 9000.0 else 18000.0)).bind fun n =>
    if hemi ≠ ascii (if lat then "N" else "E") ∧ hemi ≠ ascii (if lat then "S" else "W") then none
    else
      let d := floor (n / 100.0)
      let m := n - 100.0 * d
      if lessEq 60.0 m || less (if lat then 90.0 else 180.0) (d + m / 60.0) then none
      else some ((d + m / 60.0) *
        (if hemi = ascii "S" ∨ hemi = ascii "W" then -1.0 else 1.0))

variable (D) in
def utcValid (s : Text) : Bool :=
  if s.length < 6 ∨ integer D (substr s 0 2) 0 23 < 0 ∨ integer D (substr s 2 2) 0 59 < 0 ∨
      integer D (substr s 4 2) 0 60 < 0 then false
  else if s.length = 6 then true
  else s[6]? == some '.'.toUInt8 && s.length > 7 && allDigits (s.drop 7)

end Readers

/-- The value of a hexadecimal digit. -/
def hexDigit (c : UInt8) : Option UInt32 :=
  if '0'.toUInt8 ≤ c ∧ c ≤ '9'.toUInt8 then some (c - '0'.toUInt8).toUInt32
  else if 'A'.toUInt8 ≤ c ∧ c ≤ 'F'.toUInt8 then some (c - 'A'.toUInt8 + 10).toUInt32
  else if 'a'.toUInt8 ≤ c ∧ c ≤ 'f'.toUInt8 then some (c - 'a'.toUInt8 + 10).toUInt32
  else none

/-- The first loop of `checksum`: the digits after the star. -/
def expectedChecksum (digits : Text) : Option UInt32 :=
  digits.foldlM (fun expected c => (hexDigit c).map (fun n => (expected <<< 4) ||| n)) 0

/-- `crc = (crc >> 1) ^ ((crc & 1) ? 0xedb88320u : 0)`. -/
def checksumBit (crc : UInt32) : UInt32 :=
  (crc >>> 1) ^^^ (if crc &&& 1 ≠ 0 then 0xedb88320 else 0)

/-- The body of the second loop of `checksum`; only ADRNAVA sentences have a CRC. -/
def checksumByte (adr : Bool) (crc : UInt32) (c : UInt8) : UInt32 :=
  let crc := crc ^^^ c.toUInt32
  if adr then checksumBit^[8] crc else crc

/-- The second loop of `checksum`: the characters before the star, which must be
printable. -/
def bodyChecksum (adr : Bool) (body : Text) : Option UInt32 :=
  body.foldlM (fun crc c => if c < 32 ∨ c > 126 then none else some (checksumByte adr crc c)) 0

def checksum (s : Text) : Bool :=
  let adr := (ascii "#ADRNAVA,").isPrefixOf s
  match s.idxOf? '*'.toUInt8 with
  | none => false
  | some star =>
    if s.length > 1023 ∨ star + (if adr then 9 else 3) ≠ s.length ∨
        (!adr ∧ s.head? ≠ some '$'.toUInt8) then false
    else
      match expectedChecksum (s.drop (star + 1)) with
      | none => false
      | some expected => bodyChecksum adr ((s.take star).drop 1) == some expected

def system (talk : Text) (prn : ℤ) (id : ℤ := 0) : Text :=
  if id ≠ 0 then
    if id = 1 then ascii "GPS"
    else if id = 2 then ascii "GLONASS"
    else if id = 3 then ascii "Galileo"
    else if id = 4 then ascii "BeiDou"
    else if id = 5 then ascii "QZSS"
    else if id = 6 then ascii "NavIC"
    else ascii "Unknown"
  else if talk = ascii "GL" then ascii "GLONASS"
  else if talk = ascii "GA" then ascii "Galileo"
  else if talk = ascii "GB" ∨ talk = ascii "BD" then ascii "BeiDou"
  else if talk = ascii "GQ" ∨ talk = ascii "QZ" then ascii "QZSS"
  else if talk = ascii "GI" then ascii "NavIC"
  else if talk = ascii "GN" ∨ talk = ascii "GP" then
    if 1 ≤ prn ∧ prn ≤ 32 then ascii "GPS"
    else if 33 ≤ prn ∧ prn ≤ 64 then ascii "SBAS"
    else if 65 ≤ prn ∧ prn ≤ 96 then ascii "GLONASS"
    else if 193 ≤ prn ∧ prn ≤ 200 then ascii "QZSS"
    else if 201 ≤ prn ∧ prn ≤ 263 then ascii "BeiDou"
    else if 301 ≤ prn ∧ prn ≤ 336 then ascii "Galileo"
    else if 401 ≤ prn ∧ prn ≤ 414 then ascii "NavIC"
    else ascii "Unknown"
  else ascii "Unknown"

def canonical (s : Text) (p : ℤ) : ℤ :=
  if s = ascii "GLONASS" ∧ 65 ≤ p ∧ p ≤ 96 then p - 64
  else if s = ascii "BeiDou" ∧ 201 ≤ p ∧ p ≤ 263 then p - 200
  else if s = ascii "Galileo" ∧ 301 ≤ p ∧ p ≤ 336 then p - 300
  else if s = ascii "QZSS" ∧ 193 ≤ p ∧ p ≤ 200 then p - 192
  else if s = ascii "NavIC" ∧ 401 ≤ p ∧ p ≤ 414 then p - 400
  else p

end PrismSdk.Gnss
