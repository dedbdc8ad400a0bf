import PrismSdk.Lidar.Points
import PrismSdk.Library.Interpolation

/-! The times of the points of a batch. XT32 points carry a signed offset each; the others
are spread evenly over the span of the batch. The sum with the base is exact, or throws. -/

namespace PrismSdk.Lidar

open Library.Interpolation

/-- The magnitude of a negative number, also of the least one. -/
theorem toNat_magnitude {offset : Int64} (h : offset < 0) :
    (((-(offset + 1)).toUInt64 + 1).toNat : ℤ) = -offset.toInt := by
  have hneg : offset.toInt < 0 := Int64.lt_iff_toInt_lt.1 h
  have hge := offset.le_toInt
  have hsucc : (offset + 1).toInt = offset.toInt + 1 := by
    rw [Int64.toInt_add, Int64.toInt_one]
    exact Int.bmod_eq_of_le (by omega) (by omega)
  have hminus : (-(offset + 1)).toInt = -(offset.toInt + 1) := by
    rw [Int64.toInt_neg, hsucc]
    exact Int.bmod_eq_of_le (by omega) (by omega)
  have hnonneg : (0 : Int64) ≤ -(offset + 1) := by
    rw [Int64.le_iff_toInt_le, hminus, Int64.toInt_zero]
    omega
  have hcast : ((-(offset + 1)).toUInt64.toNat : ℤ) = -(offset.toInt + 1) := by
    rw [Int64.toNat_toUInt64_of_le hnonneg, Int64.cast_toNatClampNeg _ hnonneg, hminus]
  rw [UInt64.toNat_add, UInt64.toNat_one]
  omega

theorem toNat_of_nonneg {offset : Int64} (h : ¬ offset < 0) :
    (offset.toUInt64.toNat : ℤ) = offset.toInt := by
  have hnonneg : (0 : Int64) ≤ offset := by
    rw [Int64.le_iff_toInt_le, Int64.toInt_zero]
    rw [Int64.lt_iff_toInt_lt, Int64.toInt_zero] at h
    omega
  rw [Int64.toNat_toUInt64_of_le hnonneg, Int64.cast_toNatClampNeg _ hnonneg]

/-- The sum is exact, or it is outside the range of the result and the function throws. -/
theorem lidarAddSignedOffsetNs_eq (base : UInt64) (offset : Int64) :
    (∃ t, lidarAddSignedOffsetNs base offset = .ok t ∧
        (t.toNat : ℤ) = base.toNat + offset.toInt) ∨
      (∃ what, lidarAddSignedOffsetNs base offset = .error (.overflowError what)) ∧
        ¬ (0 ≤ base.toNat + offset.toInt ∧ base.toNat + offset.toInt < 2 ^ 64) := by
  have hbase := base.toNat_lt
  unfold lidarAddSignedOffsetNs
  by_cases hneg : offset < 0
  · have hmagnitude := toNat_magnitude hneg
    rw [if_pos hneg]
    dsimp only
    by_cases hunder : base < (-(offset + 1)).toUInt64 + 1
    · rw [if_pos hunder]
      rw [UInt64.lt_iff_toNat_lt] at hunder
      exact .inr ⟨⟨_, rfl⟩, by omega⟩
    · rw [if_neg hunder]
      rw [UInt64.lt_iff_toNat_lt, not_lt] at hunder
      refine .inl ⟨_, rfl, ?_⟩
      rw [UInt64.toNat_sub_of_le _ _ (UInt64.le_iff_toNat_le.2 hunder), Nat.cast_sub hunder,
        hmagnitude]
      omega
  · have hoffset := toNat_of_nonneg hneg
    have hlt := offset.toUInt64.toNat_lt
    have hmax : (0xffffffffffffffff - offset.toUInt64).toNat =
        2 ^ 64 - 1 - offset.toUInt64.toNat :=
      UInt64.toNat_sub_of_le _ _ (UInt64.le_iff_toNat_le.2 (Nat.le_of_lt_succ hlt))
    rw [if_neg hneg]
    by_cases hover : base > 0xffffffffffffffff - offset.toUInt64
    · rw [if_pos hover]
      rw [gt_iff_lt, UInt64.lt_iff_toNat_lt, hmax] at hover
      exact .inr ⟨⟨_, rfl⟩, by omega⟩
    · rw [if_neg hover]
      rw [gt_iff_lt, UInt64.lt_iff_toNat_lt, hmax, not_lt] at hover
      refine .inl ⟨_, rfl, ?_⟩
      rw [UInt64.toNat_add, Nat.mod_eq_of_lt (by omega)]
      omega

/-! ### Interpolated times -/

/-- With at most `2 ^ 40` points no operation of the interpolation overflows. -/
theorem interpolation_lt {index interval steps : ℕ} (hindex : index ≤ steps)
    (hsteps : steps < 2 ^ 40) (hinterval : interval < 2 ^ 16) :
    index * interval * 100 + steps / 2 < 2 ^ 63 := by
  have hproduct : index * interval ≤ 2 ^ 40 * 65535 :=
    Nat.mul_le_mul (hindex.trans hsteps.le) (by omega)
  omega

theorem toNat_interpolatedNs {index intervals : UInt64} {interval : UInt16}
    (hindex : index.toNat ≤ intervals.toNat) (hintervals : intervals.toNat < 2 ^ 40) :
    (interpolatedNs index interval intervals).toNat =
      interpolate (interval.toNat * 100) intervals.toNat index.toNat := by
  have hlt := interpolation_lt hindex hintervals interval.toNat_lt
  have hproduct : (index * interval.toUInt64).toNat = index.toNat * interval.toNat := by
    rw [UInt64.toNat_mul, UInt16.toNat_toUInt64, Nat.mod_eq_of_lt (by omega)]
  have hns : (index * interval.toUInt64 * 100).toNat = index.toNat * interval.toNat * 100 := by
    rw [UInt64.toNat_mul, hproduct]
    exact Nat.mod_eq_of_lt (show index.toNat * interval.toNat * 100 < 2 ^ 64 by omega)
  have hsum : (index * interval.toUInt64 * 100 + intervals / 2).toNat =
      index.toNat * interval.toNat * 100 + intervals.toNat / 2 := by
    rw [UInt64.toNat_add, hns, UInt64.toNat_div]
    exact Nat.mod_eq_of_lt
      (show index.toNat * interval.toNat * 100 + intervals.toNat / 2 < 2 ^ 64 by omega)
  rw [interpolatedNs, UInt64.toNat_div, hsum, interpolate, ← Nat.mul_assoc]

/-- The cast to a signed number keeps the value. -/
theorem toInt_interpolatedNs {index intervals : UInt64} {interval : UInt16}
    (hindex : index.toNat ≤ intervals.toNat) (hintervals : intervals.toNat < 2 ^ 40) :
    (interpolatedNs index interval intervals).toInt64.toInt =
      interpolate (interval.toNat * 100) intervals.toNat index.toNat := by
  have hlt : (interpolatedNs index interval intervals).toNat < 2 ^ 63 := by
    rw [toNat_interpolatedNs hindex hintervals, interpolate, ← Nat.mul_assoc]
    exact (Nat.div_le_self _ _).trans_lt (interpolation_lt hindex hintervals interval.toNat_lt)
  rw [← toNat_interpolatedNs hindex hintervals]
  exact BitVec.toInt_eq_toNat_of_lt
    (show 2 * (interpolatedNs index interval intervals).toNat < 2 ^ 64 by omega)

/-! ### The time of a point -/

/-- The offset of a point from the base. -/
def LidarPointBatch.offsetNs (batch : LidarPointBatch) (index : ℕ)
    (h : index < batch.points.length) : ℤ :=
  if batch.model = .xt32 then batch.points[index].offsetNs.toInt
  else if batch.points.length ≤ 1 then 0
  else round ((index * batch.timeInterval100ns.toNat * 100 : ℚ) / (batch.points.length - 1))

variable {batch : LidarPointBatch} {index base : UInt64}

/-- The points of the header make sense for the model. -/
def LidarPointBatch.Timed (batch : LidarPointBatch) : Prop :=
  batch.model = .xt32 → batch.version = 3 ∧ batch.timeInterval100ns = 0

/-- The offset of a point is a number of whole steps. -/
theorem LidarPointBatch.offsetNs_of_ne (hmodel : batch.model ≠ .xt32) {i : ℕ}
    (h : i < batch.points.length) :
    batch.offsetNs i h = interpolate (batch.timeInterval100ns.toNat * 100)
      (batch.points.length - 1) i := by
  rw [offsetNs, if_neg hmodel]
  split_ifs with hone
  · rw [show batch.points.length - 1 = 0 by omega, interpolate_no_steps]
    rfl
  · rw [interpolate_eq_round (show 0 < batch.points.length - 1 by omega),
      Nat.cast_sub (show 1 ≤ batch.points.length by omega)]
    push_cast
    rw [mul_assoc]

/-- The function adds the offset to the base. -/
theorem lidarPointTimestampNs_eq (base : UInt64) (hsize : batch.points.length ≤ 2 ^ 40)
    (htimed : batch.Timed) (h : index.toNat < batch.points.length) :
    ∃ offset : Int64, offset.toInt = batch.offsetNs index.toNat h ∧
      lidarPointTimestampNs batch index base = lidarAddSignedOffsetNs base offset := by
  unfold lidarPointTimestampNs
  rw [List.getElem?_eq_getElem h]
  dsimp only
  by_cases hmodel : batch.model = .xt32
  · obtain ⟨hversion, hinterval⟩ := htimed hmodel
    rw [if_pos hmodel, if_neg (by simp [hversion, hinterval])]
    refine ⟨_, ?_, rfl⟩
    rw [Int32.toInt_toInt64, LidarPointBatch.offsetNs, if_pos hmodel]
  · rw [if_neg hmodel, LidarPointBatch.offsetNs_of_ne hmodel h]
    by_cases hmany : batch.points.length > 1
    · have hintervals : (UInt64.ofNat batch.points.length - 1).toNat = batch.points.length - 1 := by
        have hlength : (UInt64.ofNat batch.points.length).toNat = batch.points.length := by
          rw [UInt64.toNat_ofNat']
          omega
        rw [UInt64.toNat_sub_of_le, hlength, UInt64.toNat_one]
        rw [UInt64.le_iff_toNat_le, hlength, UInt64.toNat_one]
        exact hmany.le
      rw [if_pos hmany]
      refine ⟨_, ?_, rfl⟩
      rw [toInt_interpolatedNs (by omega) (by omega), hintervals]
    · rw [if_neg hmany]
      refine ⟨0, ?_, rfl⟩
      rw [show batch.points.length - 1 = 0 by omega, interpolate_no_steps]
      rfl

/-- The times are those of the offsets, or there is no such time. -/
theorem lidarPointTimestampNs_cases (base : UInt64) (hsize : batch.points.length ≤ 2 ^ 40)
    (htimed : batch.Timed) (h : index.toNat < batch.points.length) :
    (∃ t, lidarPointTimestampNs batch index base = .ok t ∧
        (t.toNat : ℤ) = base.toNat + batch.offsetNs index.toNat h) ∨
      (∃ what, lidarPointTimestampNs batch index base = .error (.overflowError what)) ∧
        ¬ (0 ≤ base.toNat + batch.offsetNs index.toNat h ∧
          base.toNat + batch.offsetNs index.toNat h < 2 ^ 64) := by
  obtain ⟨offset, hoffset, heq⟩ := lidarPointTimestampNs_eq base hsize htimed h
  rw [heq, ← hoffset]
  exact lidarAddSignedOffsetNs_eq base offset

theorem toNat_of_timestamp (hsize : batch.points.length ≤ 2 ^ 40) (hmodel : batch.model ≠ .xt32)
    (h : index.toNat < batch.points.length) {t : UInt64}
    (ht : lidarPointTimestampNs batch index base = .ok t) :
    t.toNat = base.toNat + interpolate (batch.timeInterval100ns.toNat * 100)
      (batch.points.length - 1) index.toNat := by
  have htimed : batch.Timed := fun hxt32 => absurd hxt32 hmodel
  rcases lidarPointTimestampNs_cases base hsize htimed h with
    ⟨t', hok, hsum⟩ | ⟨⟨what, herror⟩, -⟩
  · rw [ht, Except.ok.injEq] at hok
    rw [LidarPointBatch.offsetNs_of_ne hmodel h, ← hok] at hsum
    omega
  · rw [ht] at herror
    cases herror

theorem lt_length_of_timestamp {t : UInt64}
    (ht : lidarPointTimestampNs batch index base = .ok t) : index.toNat < batch.points.length := by
  by_contra h
  rw [lidarPointTimestampNs, List.getElem?_eq_none (not_lt.1 h)] at ht
  cases ht

/-- The times of a batch are exact. A time is the sum of the base and the offset of the
point when a time can hold it, and otherwise the function throws; no step of the
interpolation overflows; and interpolated times start at the base, end, in a batch of two
or more points, where the span does, and never decrease. -/
theorem point_times_exact (batch : LidarPointBatch) (hsize : batch.points.length ≤ 2 ^ 40)
    (base : UInt64) :
    (∀ index : UInt64, batch.points.length ≤ index.toNat →
      lidarPointTimestampNs batch index base = .error (.outOfRange "LiDAR point index")) ∧
    (∀ index : UInt64, index.toNat < batch.points.length →
      batch.model = .xt32 → ¬ (batch.version = 3 ∧ batch.timeInterval100ns = 0) →
      lidarPointTimestampNs batch index base =
        .error (.invalidArgument "XT32 requires explicit point times")) ∧
    (∀ (index : UInt64) (h : index.toNat < batch.points.length),
      (batch.model = .xt32 → batch.version = 3 ∧ batch.timeInterval100ns = 0) →
      ((∃ what, lidarPointTimestampNs batch index base = .error (.overflowError what)) ↔
        ¬ (0 ≤ base.toNat + batch.offsetNs index.toNat h ∧
          base.toNat + batch.offsetNs index.toNat h < 2 ^ 64)) ∧
      (0 ≤ base.toNat + batch.offsetNs index.toNat h →
        base.toNat + batch.offsetNs index.toNat h < 2 ^ 64 →
        ∃ t, lidarPointTimestampNs batch index base = .ok t ∧
          (t.toNat : ℤ) = base.toNat + batch.offsetNs index.toNat h)) ∧
    (∀ index < batch.points.length, index * batch.timeInterval100ns.toNat * 100 +
      (batch.points.length - 1) / 2 < 2 ^ 63) ∧
    (batch.model ≠ .xt32 →
      (batch.points ≠ [] → lidarPointTimestampNs batch 0 base = .ok base) ∧
      (1 < batch.points.length → ∀ t,
        lidarPointTimestampNs batch (UInt64.ofNat (batch.points.length - 1)) base = .ok t →
        t.toNat = base.toNat + batch.timeInterval100ns.toNat * 100) ∧
      ∀ i j s t, i ≤ j → lidarPointTimestampNs batch i base = .ok s →
        lidarPointTimestampNs batch j base = .ok t → s ≤ t) := by
  refine ⟨fun index h => ?_, fun index h hxt32 hheader => ?_, fun index h htimed => ?_,
    fun index h => ?_, fun hmodel => ⟨fun hpoints => ?_, fun hmany t ht => ?_,
      fun i j s t hij hs ht => ?_⟩⟩
  · rw [lidarPointTimestampNs, List.getElem?_eq_none h]
  · rw [lidarPointTimestampNs, List.getElem?_eq_getElem h]
    dsimp only
    rw [if_pos hxt32, if_pos (not_and_or.1 hheader)]
  · rcases lidarPointTimestampNs_cases base hsize htimed h with
      ⟨t, hok, hsum⟩ | ⟨herror, hout⟩
    · refine ⟨⟨?_, fun hout => ?_⟩, fun _ _ => ⟨t, hok, hsum⟩⟩
      · rintro ⟨what, herror⟩
        rw [hok] at herror
        cases herror
      · have hlt := t.toNat_lt
        omega
    · exact ⟨⟨fun _ => hout, fun _ => herror⟩, fun hge hlt => absurd ⟨hge, hlt⟩ hout⟩
  · exact interpolation_lt (by omega) (by omega) batch.timeInterval100ns.toNat_lt
  · have htimed : batch.Timed := fun hxt32 => absurd hxt32 hmodel
    have hzero : UInt64.toNat 0 < batch.points.length := List.length_pos_of_ne_nil hpoints
    have hbase := base.toNat_lt
    rcases lidarPointTimestampNs_cases base hsize htimed hzero with
      ⟨t, hok, hsum⟩ | ⟨-, hout⟩
    · rw [LidarPointBatch.offsetNs_of_ne hmodel, UInt64.toNat_zero, interpolate_zero] at hsum
      rw [hok, UInt64.toNat_inj.1 (show t.toNat = base.toNat by omega)]
    · rw [LidarPointBatch.offsetNs_of_ne hmodel, UInt64.toNat_zero, interpolate_zero] at hout
      omega
  · have hlast : (UInt64.ofNat (batch.points.length - 1)).toNat = batch.points.length - 1 := by
      rw [UInt64.toNat_ofNat']
      omega
    have hsum := toNat_of_timestamp hsize hmodel (lt_length_of_timestamp ht) ht
    rwa [hlast, interpolate_last (by omega)] at hsum
  · have hi := toNat_of_timestamp hsize hmodel (lt_length_of_timestamp hs) hs
    have hj := toNat_of_timestamp hsize hmodel (lt_length_of_timestamp ht) ht
    rw [UInt64.le_iff_toNat_le, hi, hj]
    exact Nat.add_le_add_left (interpolate_mono (UInt64.le_iff_toNat_le.1 hij)) _

/-- Three points over 100 ns. -/
def threePoints : LidarPointBatch :=
  { version := 2, model := .mid360, timeInterval100ns := 1, points := [{}, {}, {}] }

theorem point_times_exact_threePoints :
    lidarPointTimestampNs threePoints 1 1000 = .ok 1050 ∧
      ∀ t, lidarPointTimestampNs threePoints 2 1000 = .ok t → t.toNat = 1000 + 1 * 100 := by
  obtain ⟨-, -, -, -, hothers⟩ := point_times_exact threePoints (by decide) 1000
  exact ⟨by decide, (hothers (by decide)).2.1 (by decide)⟩

/-- A single point is at the base, also where the header gives the batch a span: it is the
last point too, and the span does not follow it. -/
theorem singlePoint_at_base :
    ¬ ∀ batch : LidarPointBatch, batch.points.length ≤ 2 ^ 40 → batch.model ≠ .xt32 →
      batch.points ≠ [] → ∀ base t : UInt64,
        lidarPointTimestampNs batch (UInt64.ofNat (batch.points.length - 1)) base = .ok t →
        t.toNat = base.toNat + batch.timeInterval100ns.toNat * 100 := by
  intro h
  have hspan := h { model := .mid360, timeInterval100ns := 1, points := [{}] } (by decide)
    (by decide) (by decide) 0 0 (by decide)
  revert hspan
  decide

end PrismSdk.Lidar
