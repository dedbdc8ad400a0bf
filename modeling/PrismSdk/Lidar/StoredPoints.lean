import PrismSdk.Lidar.Points
import PrismSdk.Library.LittleEndian
import PrismSdk.Library.Records

/-! Stored points can be read back. Each point fills a record of one size, in which every
field has its place, and a decoder that only knows the places finds the fields again. -/

namespace PrismSdk.Lidar

open Library (Checked LittleEndian.bytes LittleEndian.value)
open Library.Checked (save Safe)
open Library.Records

/-! ### Records -/

theorem put_inside {front back w : List UInt8} {s start n : ℕ} (hw : w.length = s)
    (hn : start + n ≤ s) (value : UInt32) :
    Inside front back s (put 0 start value n w)
      (put front.length start value n (front ++ w ++ back)) := by
  refine Inside.foldlM (fun b hb w hw => ?_) hw
  have hb := List.mem_range.1 hb
  rw [Nat.zero_add]
  exact Inside.save hw (by omega) _

/-- A point is written inside its record. -/
theorem serializePoint_local {stride : ℕ} (h : stride = 24 ∨ stride = 16) :
    Local stride (serializePoint stride) := by
  intro point front w back hw
  have h16 : 16 ≤ stride := by omega
  simp only [serializePoint, serializeTail, Nat.zero_add]
  refine (put_inside hw (by omega) _).bind fun w hw => ?_
  refine (put_inside hw (by omega) _).bind fun w hw => ?_
  refine (put_inside hw (by omega) _).bind fun w hw => ?_
  refine (Inside.save hw (by omega) _).bind fun w hw => ?_
  refine (Inside.save hw (by omega) _).bind fun w hw => ?_
  split_ifs with hlong hvalid hline
  · refine (put_inside hw (by omega) _).bind fun w hw => ?_
    refine (put_inside hw (by omega) _).bind fun w hw => ?_
    refine (Inside.save hw (by omega) _).bind fun w hw => ?_
    exact Inside.save hw (by omega) _
  · exact Inside.error _
  · refine (Inside.save hw (by omega) _).bind fun w hw => ?_
    exact Inside.save hw (by omega) _
  · exact Inside.ok hw

/-- The bytes that `put` writes. -/
def putBytes (n : ℕ) (value : UInt32) : List UInt8 :=
  (List.range n).map fun b => (value >>> UInt32.ofNat (b * 8)).toUInt8

/-- `put` writes little-endian numbers. -/
theorem putBytes_eq {n : ℕ} (hn : n ≤ 4) (value : UInt32) :
    putBytes n value = LittleEndian.bytes n value.toNat := by
  have hbytes : ∀ n v, LittleEndian.bytes n v =
      (List.range n).map fun b => UInt8.ofNat (v / 256 ^ b) := by
    intro n
    induction n with
    | zero => exact fun _ => rfl
    | succ n ih =>
      intro v
      rw [Library.LittleEndian.bytes_succ, ih, List.range_succ_eq_map, List.map_cons, List.map_map]
      simp only [pow_zero, Nat.div_one, Function.comp_def, Nat.succ_eq_add_one, pow_succ',
        Nat.div_div_eq_div_mul]
  rw [putBytes, hbytes]
  refine List.map_congr_left fun b hb => ?_
  have hb := List.mem_range.1 hb
  have hshift : (UInt32.ofNat (b * 8)).toNat = b * 8 := by
    rw [UInt32.toNat_ofNat']
    omega
  rw [← UInt8.toNat_inj, UInt32.toNat_toUInt8, UInt32.toNat_shiftRight, hshift,
    Nat.mod_eq_of_lt (show b * 8 < 32 by omega), Nat.shiftRight_eq_div_pow, UInt8.toNat_ofNat',
    Nat.mul_comm, pow_mul]
  rfl

/-- The bytes of the first 14 places, which both layouts have. -/
def commonBytes (point : LidarPoint) : List UInt8 :=
  putBytes 4 point.xMm.toUInt32 ++ putBytes 4 point.yMm.toUInt32 ++
    putBytes 4 point.zMm.toUInt32 ++ [point.reflectivity, point.tag]

/-- The record of an XT32 point. -/
def xt32Bytes (point : LidarPoint) : List UInt8 :=
  commonBytes point ++ putBytes 2 point.ring.toUInt32 ++ putBytes 4 point.offsetNs.toUInt32 ++
    [point.returnId, point.confidence, 0, 0]

/-- The record of a Livox point. -/
def livoxBytes (point : LidarPoint) : List UInt8 :=
  commonBytes point ++ if point.lineValid then [point.line, 1] else [0, 0]

@[simp] theorem length_putBytes (n : ℕ) (value : UInt32) : (putBytes n value).length = n := by
  rw [putBytes, List.length_map, List.length_range]

@[simp] theorem length_commonBytes (point : LidarPoint) : (commonBytes point).length = 14 := by
  simp [commonBytes]

/-- A byte written behind the bytes written before. -/
theorem save_zeros {done : List UInt8} {start m : ℕ} (hstart : done.length = start) (hm : 0 < m)
    (byte : UInt8) : save (done ++ List.replicate m 0) start byte =
      .ok (done ++ [byte] ++ List.replicate (m - 1) 0) := by
  obtain ⟨m, rfl⟩ := Nat.exists_eq_succ_of_ne_zero hm.ne'
  rw [Checked.save_of_lt (by simp [← hstart]), ← hstart, List.set_append_right _ _ le_rfl,
    Nat.sub_self, List.replicate_succ, List.set_cons_zero, List.append_assoc]
  rfl

theorem put_zeros {done : List UInt8} {start m n : ℕ} (hstart : done.length = start) (hn : n ≤ m)
    (value : UInt32) : put 0 start value n (done ++ List.replicate m 0) =
      .ok (done ++ putBytes n value ++ List.replicate (m - n) 0) := by
  unfold put
  induction n with
  | zero => simp [putBytes, pure, Except.pure]
  | succ n ih =>
    rw [List.range_succ, List.foldlM_append, ih (Nat.le_of_succ_le hn), Checked.ok_bind,
      List.foldlM_cons, Nat.zero_add, save_zeros (by simp [hstart]) (by omega), Checked.ok_bind,
      putBytes, putBytes, List.range_succ, List.map_append, List.append_assoc done,
      Nat.sub_sub]
    rfl

/-- The places that both layouts have are written first. -/
theorem written_eq {stride : ℕ} (h : 14 ≤ stride) (point : LidarPoint) :
    written stride (serializePoint stride) point =
      serializeTail stride 0 point (commonBytes point ++ List.replicate (stride - 14) 0) := by
  have hx := put_zeros (m := stride) List.length_nil (show 4 ≤ stride by omega)
    point.xMm.toUInt32
  rw [List.nil_append] at hx
  rw [written, serializePoint, hx, Checked.ok_bind, put_zeros (by simp) (by omega),
    Checked.ok_bind, put_zeros (by simp) (by omega), Checked.ok_bind, Nat.zero_add,
    save_zeros (by simp) (by omega), Checked.ok_bind, Nat.zero_add,
    save_zeros (by simp) (by omega), Checked.ok_bind, commonBytes, List.append_assoc _ [_] [_]]
  rfl

theorem written_xt32 (point : LidarPoint) :
    written 24 (serializePoint 24) point = .ok (xt32Bytes point) := by
  rw [written_eq (by omega), serializeTail, if_pos rfl, put_zeros (by simp) (by omega),
    Checked.ok_bind, put_zeros (by simp) (by omega), Checked.ok_bind, Nat.zero_add,
    save_zeros (by simp) (by omega), Checked.ok_bind, Nat.zero_add,
    save_zeros (by simp) (by omega), xt32Bytes]
  simp only [List.append_assoc]
  rfl

theorem written_livox (point : LidarPoint) :
    written 16 (serializePoint 16) point =
      if point.lineValid ∧ point.line ≥ 4 then .error (.thrown "invalid Livox line")
      else .ok (livoxBytes point) := by
  rw [written_eq (by omega), serializeTail, if_neg (by decide), livoxBytes]
  by_cases hvalid : point.lineValid
  · by_cases hline : point.line ≥ 4
    · rw [if_pos hvalid, if_pos hline, if_pos ⟨hvalid, hline⟩]
    · rw [if_pos hvalid, if_neg hline, if_neg (fun h => hline h.2), if_pos hvalid, Nat.zero_add,
        save_zeros (by simp) (by omega), Checked.ok_bind, Nat.zero_add,
        save_zeros (by simp) (by omega), List.append_assoc _ [_] [_]]
      simp
  · rw [if_neg hvalid, if_neg (fun h => hvalid h.1), if_neg hvalid]
    rfl

/-! ### The decoder -/

/-- The bytes at the end of a record, by the model. -/
inductive StoredTail where
  | xt32 (ring : UInt16) (offsetNs : Int32) (returnId confidence : UInt8)
  | livox (line : Option UInt8)
  deriving DecidableEq

/-- The fields of a point that are stored. -/
structure StoredPoint where
  xMm : Int32
  yMm : Int32
  zMm : Int32
  reflectivity : UInt8
  tag : UInt8
  tail : StoredTail
  deriving DecidableEq

/-- What is stored of a point: of a Livox point the line only where it is valid. -/
def LidarPoint.stored (model : LidarModel) (point : LidarPoint) : StoredPoint where
  xMm := point.xMm
  yMm := point.yMm
  zMm := point.zMm
  reflectivity := point.reflectivity
  tag := point.tag
  tail :=
    if model = .xt32 then .xt32 point.ring point.offsetNs point.returnId point.confidence
    else .livox (if point.lineValid then some point.line else none)

/-- The little-endian number in the `n` bytes from `start` on. -/
def numberAt (p : List UInt8) (start n : ℕ) : ℕ := LittleEndian.value ((p.drop start).take n)

/-- The decoder of a record: it reads every field at its place. -/
def decodeStoredPoint (model : LidarModel) (p : List UInt8) : StoredPoint where
  xMm := (UInt32.ofNat (numberAt p 0 4)).toInt32
  yMm := (UInt32.ofNat (numberAt p 4 4)).toInt32
  zMm := (UInt32.ofNat (numberAt p 8 4)).toInt32
  reflectivity := p.getD 12 0
  tag := p.getD 13 0
  tail :=
    if model = .xt32 then
      .xt32 (UInt16.ofNat (numberAt p 14 2)) (UInt32.ofNat (numberAt p 16 4)).toInt32
        (p.getD 20 0) (p.getD 21 0)
    else .livox (if p.getD 15 0 = 1 then some (p.getD 14 0) else none)

theorem value_putBytes {n : ℕ} (hn : n ≤ 4) {value : UInt32} (h : value.toNat < 256 ^ n) :
    LittleEndian.value (putBytes n value) = value.toNat := by
  rw [putBytes_eq hn, Library.LittleEndian.value_bytes h]

/-- A signed number goes through its unsigned bytes unchanged. -/
theorem toInt32_putBytes (value : Int32) :
    (UInt32.ofNat (LittleEndian.value (putBytes 4 value.toUInt32))).toInt32 = value := by
  rw [value_putBytes le_rfl value.toUInt32.toNat_lt, UInt32.ofNat_toNat, Int32.toInt32_toUInt32]

theorem toUInt16_putBytes (value : UInt16) :
    UInt16.ofNat (LittleEndian.value (putBytes 2 value.toUInt32)) = value := by
  have hlt := value.toNat_lt
  rw [value_putBytes (by omega) (by rwa [UInt16.toNat_toUInt32]), UInt16.toNat_toUInt32,
    UInt16.ofNat_toNat]

/-- The places that both layouts have are read back, whatever stands behind them. -/
theorem decode_common (point : LidarPoint) (back : List UInt8) (model : LidarModel) :
    decodeStoredPoint model (commonBytes point ++ back) =
      { point.stored model with
        tail := (decodeStoredPoint model (commonBytes point ++ back)).tail } := by
  have hx : numberAt (commonBytes point ++ back) 0 4 =
    LittleEndian.value (putBytes 4 point.xMm.toUInt32) := rfl
  have hy : numberAt (commonBytes point ++ back) 4 4 =
    LittleEndian.value (putBytes 4 point.yMm.toUInt32) := rfl
  have hz : numberAt (commonBytes point ++ back) 8 4 =
    LittleEndian.value (putBytes 4 point.zMm.toUInt32) := rfl
  have hreflectivity : (commonBytes point ++ back).getD 12 0 = point.reflectivity := rfl
  have htag : (commonBytes point ++ back).getD 13 0 = point.tag := rfl
  simp only [decodeStoredPoint, LidarPoint.stored, hx, hy, hz, hreflectivity, htag,
    toInt32_putBytes]

theorem decode_xt32 (point : LidarPoint) :
    decodeStoredPoint .xt32 (xt32Bytes point) = point.stored .xt32 := by
  have hring : numberAt (xt32Bytes point) 14 2 =
    LittleEndian.value (putBytes 2 point.ring.toUInt32) := rfl
  have hoffset : numberAt (xt32Bytes point) 16 4 =
    LittleEndian.value (putBytes 4 point.offsetNs.toUInt32) := rfl
  have hreturn : (xt32Bytes point).getD 20 0 = point.returnId := rfl
  have hconfidence : (xt32Bytes point).getD 21 0 = point.confidence := rfl
  have htail : (decodeStoredPoint .xt32 (xt32Bytes point)).tail = (point.stored .xt32).tail := by
    simp only [decodeStoredPoint, LidarPoint.stored, if_true, hring, hoffset, hreturn,
      hconfidence, toUInt16_putBytes, toInt32_putBytes]
  have hsplit : xt32Bytes point = commonBytes point ++ (putBytes 2 point.ring.toUInt32 ++
      putBytes 4 point.offsetNs.toUInt32 ++ [point.returnId, point.confidence, 0, 0]) := by
    simp only [xt32Bytes, List.append_assoc]
  rw [hsplit] at htail ⊢
  rw [decode_common, htail]

theorem decode_livox {model : LidarModel} (hmodel : model ≠ .xt32) (point : LidarPoint) :
    decodeStoredPoint model (livoxBytes point) = point.stored model := by
  rw [livoxBytes, decode_common]
  cases hvalid : point.lineValid with
  | false => simp [decodeStoredPoint, LidarPoint.stored, hmodel, hvalid]
  | true => simp [decodeStoredPoint, LidarPoint.stored, hmodel, hvalid]

/-! ### The whole batch -/

/-- The record of a point. -/
def recordBytes (model : LidarModel) (point : LidarPoint) : List UInt8 :=
  if model = .xt32 then xt32Bytes point else livoxBytes point

/-- The points that a batch cannot be stored with. -/
def Unstorable (model : LidarModel) (point : LidarPoint) : Prop :=
  (model = .mid360 ∨ model = .mid360S) ∧ point.lineValid = true ∧ 4 ≤ point.line

instance (model : LidarModel) : DecidablePred (Unstorable model) :=
  fun _ => inferInstanceAs (Decidable (_ ∧ _ ∧ _))

variable {model : LidarModel} {stride : ℕ}

theorem stride_cases (h : lidarStoredPointStride model = .ok stride) :
    model = .xt32 ∧ stride = 24 ∨ (model = .mid360 ∨ model = .mid360S) ∧ stride = 16 := by
  cases model with
  | none => cases h
  | xt32 =>
    cases h
    exact .inl ⟨rfl, rfl⟩
  | mid360 =>
    cases h
    exact .inr ⟨.inl rfl, rfl⟩
  | mid360S =>
    cases h
    exact .inr ⟨.inr rfl, rfl⟩

theorem written_point (h : lidarStoredPointStride model = .ok stride) (point : LidarPoint) :
    written stride (serializePoint stride) point =
      if Unstorable model point then .error (.thrown "invalid Livox line")
      else .ok (recordBytes model point) := by
  rcases stride_cases h with ⟨rfl, rfl⟩ | ⟨hlivox, rfl⟩
  · have hxt32 : ¬ Unstorable .xt32 point := by
      rintro ⟨h | h, -⟩
      · cases h
      · cases h
    rw [if_neg hxt32]
    exact written_xt32 point
  · have hmodel : model ≠ .xt32 := by rcases hlivox with rfl | rfl <;> decide
    rw [written_livox, recordBytes, if_neg hmodel]
    simp only [Unstorable, hlivox, true_and, ge_iff_le]

theorem length_recordBytes (h : lidarStoredPointStride model = .ok stride) (point : LidarPoint) :
    (recordBytes model point).length = stride := by
  rcases stride_cases h with ⟨rfl, rfl⟩ | ⟨hlivox, rfl⟩
  · simp [recordBytes, xt32Bytes]
  · have hmodel : model ≠ .xt32 := by rcases hlivox with rfl | rfl <;> decide
    rw [recordBytes, if_neg hmodel, livoxBytes, List.length_append, length_commonBytes]
    split_ifs <;> rfl

theorem decode_recordBytes (model : LidarModel) (point : LidarPoint) :
    decodeStoredPoint model (recordBytes model point) = point.stored model := by
  unfold recordBytes
  split_ifs with h
  · rw [h]
    exact decode_xt32 point
  · exact decode_livox h point

variable {batch : LidarPointBatch} {out : List UInt8}

/-- The loop stores one record a point, in order, unless they are too many or there is a
point that cannot be stored. -/
theorem serializeLidarPoints_eq (h : lidarStoredPointStride batch.model = .ok stride) :
    serializeLidarPoints batch =
      if 2 ^ 64 ≤ batch.points.length * stride then .error (.thrown "LiDAR points too large")
      else if ∃ point ∈ batch.points, Unstorable batch.model point then
        .error (.thrown "invalid Livox line")
      else .ok (batch.points.map (recordBytes batch.model)).flatten := by
  have hstride : 0 < stride ∧ (stride = 24 ∨ stride = 16) := by
    rcases stride_cases h with ⟨-, rfl⟩ | ⟨-, rfl⟩ <;> decide
  have hroom : batch.points.length > (2 ^ 64 - 1) / stride ↔
      2 ^ 64 ≤ batch.points.length * stride := by
    rw [gt_iff_lt, Nat.div_lt_iff_lt_mul hstride.1]
    omega
  have hloop := foldlM_write (serializePoint_local hstride.2) batch.points []
    (Nat.zero_mul stride).symm
  rw [List.nil_append] at hloop
  rw [serializeLidarPoints, h, Checked.ok_bind]
  simp only [hroom]
  rw [hloop, funext (written_point h), mapM_guard]
  split_ifs <;> rfl

/-- What is returned is the records. -/
theorem records_of_serializeLidarPoints (hok : serializeLidarPoints batch = .ok out) :
    out = (batch.points.map (recordBytes batch.model)).flatten := by
  have hstride : ∃ stride, lidarStoredPointStride batch.model = .ok stride := by
    obtain ⟨stride, h, -⟩ := Checked.bind_eq_ok.1 hok
    exact ⟨stride, h⟩
  obtain ⟨stride, h⟩ := hstride
  rw [serializeLidarPoints_eq h] at hok
  split_ifs at hok
  exact (Except.ok.inj hok).symm

/-- Record `i` of what is returned is the record of point `i`. -/
theorem record_of_serializeLidarPoints (h : lidarStoredPointStride batch.model = .ok stride)
    (hok : serializeLidarPoints batch = .ok out) {i : ℕ} (hi : i < batch.points.length) :
    record stride i out = recordBytes batch.model batch.points[i] := by
  have hlength : ∀ r ∈ batch.points.map (recordBytes batch.model), r.length = stride := by
    intro r hr
    obtain ⟨point, -, rfl⟩ := List.mem_map.1 hr
    exact length_recordBytes h point
  rw [records_of_serializeLidarPoints hok, record_flatten hlength (by rwa [List.length_map]),
    List.getElem_map]

theorem length_of_serializeLidarPoints (h : lidarStoredPointStride batch.model = .ok stride)
    (hok : serializeLidarPoints batch = .ok out) :
    out.length = batch.points.length * stride := by
  rw [records_of_serializeLidarPoints hok, length_flatten (s := stride), List.length_map]
  intro r hr
  obtain ⟨point, -, rfl⟩ := List.mem_map.1 hr
  exact length_recordBytes h point

/-- Stored points can be read back. Only a Livox line that does not exist is refused; and
otherwise there is one record a point, in order, from which the decoder finds every stored
field, with zeros where the layout assigns nothing, so that equal outputs are of batches
with equal fields. -/
theorem stored_points_readable (batch : LidarPointBatch) (stride : ℕ)
    (hmodel : lidarStoredPointStride batch.model = .ok stride)
    (hfits : batch.points.length * stride < 2 ^ 64) :
    stride = (if batch.model = .xt32 then 24 else 16) ∧
    ((∃ what, serializeLidarPoints batch = .error (.thrown what)) ↔
      (batch.model = .mid360 ∨ batch.model = .mid360S) ∧
        ∃ point ∈ batch.points, point.lineValid = true ∧ 4 ≤ point.line) ∧
    serializeLidarPoints batch ≠ .error .undefined ∧
    ∀ out, serializeLidarPoints batch = .ok out →
      out.length = batch.points.length * stride ∧
      (∀ (i : ℕ) (h : i < batch.points.length),
        decodeStoredPoint batch.model (record stride i out) =
          batch.points[i].stored batch.model ∧
        (batch.model = .xt32 →
          (record stride i out).getD 22 0 = 0 ∧ (record stride i out).getD 23 0 = 0) ∧
        (batch.model ≠ .xt32 → batch.points[i].lineValid = false →
          (record stride i out).getD 14 0 = 0 ∧ (record stride i out).getD 15 0 = 0)) ∧
      ∀ other, other.model = batch.model → serializeLidarPoints other = .ok out →
        other.points.map (·.stored batch.model) = batch.points.map (·.stored batch.model) := by
  have hserialize := serializeLidarPoints_eq hmodel
  rw [if_neg (not_le.2 hfits)] at hserialize
  refine ⟨?_, ?_, ?_, fun out hok => ⟨length_of_serializeLidarPoints hmodel hok,
    fun i h => ⟨?_, fun hxt32 => ?_, fun hlivox hinvalid => ?_⟩, fun other hother hsame => ?_⟩⟩
  · rcases stride_cases hmodel with ⟨hxt32, rfl⟩ | ⟨hlivox | hlivox, rfl⟩
    · rw [if_pos hxt32]
    · rw [hlivox]
      rfl
    · rw [hlivox]
      rfl
  · have hbad : (∃ point ∈ batch.points, Unstorable batch.model point) ↔
        (batch.model = .mid360 ∨ batch.model = .mid360S) ∧
          ∃ point ∈ batch.points, point.lineValid = true ∧ 4 ≤ point.line := by
      simp only [Unstorable, and_left_comm (a := _ ∈ batch.points), exists_and_left]
    rw [hserialize, ← hbad]
    split_ifs with h
    · exact ⟨fun _ => h, fun _ => ⟨_, rfl⟩⟩
    · refine ⟨?_, fun h' => absurd h' h⟩
      rintro ⟨what, ⟨⟩⟩
  · rw [hserialize]
    split_ifs <;> rintro ⟨⟩
  · rw [record_of_serializeLidarPoints hmodel hok h, decode_recordBytes]
  · rw [record_of_serializeLidarPoints hmodel hok h, recordBytes, if_pos hxt32]
    exact ⟨rfl, rfl⟩
  · rw [record_of_serializeLidarPoints hmodel hok h, recordBytes, if_neg hlivox, livoxBytes,
      hinvalid]
    exact ⟨rfl, rfl⟩
  · have hstride : lidarStoredPointStride other.model = .ok stride := by rw [hother, hmodel]
    have hpos : 0 < stride := by
      rcases stride_cases hmodel with ⟨-, rfl⟩ | ⟨-, rfl⟩ <;> decide
    have hlength : other.points.length = batch.points.length := by
      refine Nat.eq_of_mul_eq_mul_right hpos ?_
      rw [← length_of_serializeLidarPoints hstride hsame,
        length_of_serializeLidarPoints hmodel hok]
    refine List.ext_getElem (by rw [List.length_map, List.length_map, hlength]) fun i hi hi' => ?_
    rw [List.length_map] at hi hi'
    have hrecord := record_of_serializeLidarPoints hmodel hok hi'
    have hrecord' := record_of_serializeLidarPoints hstride hsame hi
    rw [hother] at hrecord'
    rw [List.getElem_map, List.getElem_map, ← decode_recordBytes, ← decode_recordBytes, ← hrecord,
      ← hrecord']

/-- Two Livox points, of which only the first tells its line. -/
def twoPoints : LidarPointBatch :=
  { version := 2, model := .mid360, timeInterval100ns := 10
    points := [{ xMm := -5, reflectivity := 200, line := 3, lineValid := true },
      { yMm := 7, tag := 9, line := 7 }] }

theorem stored_points_readable_twoPoints :
    ∃ out, serializeLidarPoints twoPoints = .ok out ∧
      decodeStoredPoint .mid360 (record 16 0 out) =
        { xMm := -5, yMm := 0, zMm := 0, reflectivity := 200, tag := 0
          tail := .livox (some 3) } ∧
      decodeStoredPoint .mid360 (record 16 1 out) =
        { xMm := 0, yMm := 7, zMm := 0, reflectivity := 0, tag := 9
          tail := .livox none } := by
  obtain ⟨-, -, -, hread⟩ := stored_points_readable twoPoints 16 rfl (by decide)
  have hok : serializeLidarPoints twoPoints = .ok [251, 255, 255, 255, 0, 0, 0, 0, 0, 0, 0, 0,
    200, 0, 3, 1, 0, 0, 0, 0, 7, 0, 0, 0, 0, 0, 0, 0, 0, 9, 0, 0] := by decide +kernel
  have hpoints := (hread _ hok).2.1
  exact ⟨_, hok, (hpoints 0 (by decide)).1, (hpoints 1 (by decide)).1⟩

end PrismSdk.Lidar
