import PrismSdk.Gnss.Wire
import PrismSdk.Library.Effects
import PrismSdk.Lidar.StoredPoints

/-! The commands of `lidar_power.hpp` and `lidar_speed.hpp`. One command is sent, and its
answer is believed only when it is the exact encoding of a status; a command that sets
something must read back what it has set. -/

namespace PrismSdk.Lidar.Commands

open Library (LittleEndian.bytes LittleEndian.value)
open Library.Effects

inductive LidarPowerState where
  | unknown | running | standby | transitioning | error
  deriving DecidableEq

structure LidarPowerStatus where
  model : LidarModel := .none
  state : LidarPowerState := .unknown
  vendorState : UInt32 := 0

inductive LidarSpeedMode where
  | unknown | normal | low
  deriving DecidableEq

structure LidarSpeedStatus where
  model : LidarModel := .none
  mode : LidarSpeedMode := .unknown
  deviceType : UInt32 := 0

/-! ### Enumerators as bytes -/

def modelByte : LidarModel → UInt8
  | .none => 0
  | .mid360 => 1
  | .mid360S => 2
  | .xt32 => 3

def LidarPowerState.toByte : LidarPowerState → UInt8
  | .unknown => 0
  | .running => 1
  | .standby => 2
  | .transitioning => 3
  | .error => 4

/-- `static_cast<LidarPowerState>` of a byte up to 4. -/
def LidarPowerState.ofByte (b : UInt8) : LidarPowerState :=
  if b = 1 then .running else if b = 2 then .standby else if b = 3 then .transitioning
  else if b = 4 then .error else .unknown

def LidarSpeedMode.toByte : LidarSpeedMode → UInt8
  | .unknown => 0
  | .normal => 1
  | .low => 2

/-- `static_cast<LidarSpeedMode>` of a byte up to 2. -/
def LidarSpeedMode.ofByte (b : UInt8) : LidarSpeedMode :=
  if b = 1 then .normal else if b = 2 then .low else .unknown

theorem LidarPowerState.toByte_ofByte {b : UInt8} (h : b ≤ 4) : (ofByte b).toByte = b := by
  have h : b.toNat ≤ 4 := h
  rw [← UInt8.toNat_inj]
  unfold ofByte
  split_ifs with h1 h2 h3 h4
  · rw [h1]
    rfl
  · rw [h2]
    rfl
  · rw [h3]
    rfl
  · rw [h4]
    rfl
  · rw [← UInt8.toNat_inj] at h1 h2 h3 h4
    simp at h1 h2 h3 h4
    simp [toByte]
    omega

@[simp] theorem LidarPowerState.ofByte_toByte (state : LidarPowerState) :
    ofByte state.toByte = state := by
  cases state <;> rfl

theorem LidarPowerState.toByte_le (state : LidarPowerState) : state.toByte ≤ 4 := by
  cases state <;> decide

@[simp] theorem LidarSpeedMode.ofByte_toByte (mode : LidarSpeedMode) :
    ofByte mode.toByte = mode := by
  cases mode <;> rfl

theorem LidarSpeedMode.toByte_of_ne {mode : LidarSpeedMode} (h : mode ≠ .unknown) :
    mode.toByte = 1 ∨ mode.toByte = 2 := by
  cases mode with
  | unknown => exact absurd rfl h
  | normal => exact .inl rfl
  | low => exact .inr rfl

/-! ### The commands -/

/-- `client.command(type, payload, timeout_ms)`. -/
inductive Request where
  | command (type : UInt8) (payload : List UInt8) (timeoutMs : UInt32)

abbrev Answer : Request → Type := fun _ => Frame

abbrev Action := Program Answer Unit

/-- The payload of a command. -/
def query (model : LidarModel) (action : UInt8) (timeoutMs : UInt32) : List UInt8 :=
  [1, 0, 12, 0, modelByte model, action, 0, 0] ++ putBytes 4 timeoutMs

/-- `r[i]`. -/
def byteAt (r : List UInt8) (i : ℕ) : UInt8 := r.getD i 0

/-- `for(unsigned i=0;i<4;++i)word|=uint32_t(r[8+i])<<(8*i)`. -/
def vendorWord (r : List UInt8) : UInt32 :=
  (List.range 4).foldl (fun v i => v ||| (r.getD (8 + i) 0).toUInt32 <<< UInt32.ofNat (i * 8)) 0

/-- What the two families of commands differ in. -/
structure Control where
  get : UInt8
  set : UInt8
  response : UInt8
  limit : UInt32
  supports : LidarModel → Bool
  /-- The checks of the answer that are the family's own. -/
  refuses : List UInt8 → Bool
  invalid : String
  unconfirmed : String

namespace Control

def Takes (k : Control) (model : LidarModel) (action : UInt8) (timeoutMs : UInt32) : Prop :=
  k.supports model ∧ action ≤ 2 ∧ timeoutMs ≠ 0 ∧ timeoutMs ≤ k.limit

instance (k : Control) (model : LidarModel) (action : UInt8) (timeoutMs : UInt32) :
    Decidable (k.Takes model action timeoutMs) :=
  inferInstanceAs (Decidable (_ ∧ _ ∧ _ ∧ _))

/-- The condition under which the answer is not believed. -/
def Unconfirmed (k : Control) (model : LidarModel) (action : UInt8) (f : Frame) : Prop :=
  let r := f.payload
  f.type ≠ k.response ∨ r.length ≠ 16 ∨ byteAt r 0 ≠ 1 ∨ byteAt r 1 ≠ 0 ∨ byteAt r 2 ≠ 16 ∨
    byteAt r 3 ≠ 0 ∨ byteAt r 4 ≠ modelByte model ∨ k.refuses r ∨ byteAt r 6 ≠ 0 ∨
    byteAt r 7 ≠ 0 ∨ byteAt r 12 ≠ 0 ∨ byteAt r 13 ≠ 0 ∨ byteAt r 14 ≠ 0 ∨ byteAt r 15 ≠ 0 ∨
    (action ≠ 0 ∧ byteAt r 5 ≠ action)

instance (k : Control) (model : LidarModel) (action : UInt8) (f : Frame) :
    Decidable (k.Unconfirmed model action f) := by
  unfold Unconfirmed
  infer_instance

/-- What is asked of the device. -/
def request (k : Control) (model : LidarModel) (action : UInt8) (timeoutMs : UInt32) : Request :=
  .command (if action ≠ 0 then k.set else k.get) (query model action timeoutMs) (timeoutMs + 2000)

/-- The state and the vendor's word that the device reads back. -/
def command (k : Control) (model : LidarModel) (action : UInt8) (timeoutMs : UInt32) :
    Action (UInt8 × UInt32) := do
  Program.throwIf (¬ k.Takes model action timeoutMs) k.invalid
  let f ← Program.request (k.request model action timeoutMs)
  Program.throwIf (k.Unconfirmed model action f) k.unconfirmed
  pure (byteAt f.payload 5, vendorWord f.payload)

end Control

def power : Control where
  get := 0x49
  set := 0x4a
  response := 0xc0
  limit := 30000
  supports model := 1 ≤ modelByte model && modelByte model ≤ 3
  refuses r := byteAt r 5 > 4
  invalid := "invalid LiDAR power model/action/timeout (1..30000 ms)"
  unconfirmed := "LiDAR power readback invalid/unconfirmed; query before retrying"

def speed : Control where
  get := 0x4c
  set := 0x4d
  response := 0xc2
  limit := 10000
  supports model := model = .mid360S
  refuses r := byteAt r 5 < 1 || byteAt r 5 > 2 || byteAt r 8 ≠ 35 || byteAt r 9 ≠ 0 ||
    byteAt r 10 ≠ 0 || byteAt r 11 ≠ 0
  invalid := "speed control requires MID-360S and timeout 1..10000 ms"
  unconfirmed := "LiDAR speed readback invalid/unconfirmed; query before retrying"

def lidarPowerCommand (model : LidarModel) (action : UInt8) (timeoutMs : UInt32) :
    Action LidarPowerStatus := do
  let (state, vendorState) ← power.command model action timeoutMs
  pure { model, state := .ofByte state, vendorState }

def lidarSpeedCommand (model : LidarModel) (action : UInt8) (timeoutMs : UInt32) :
    Action LidarSpeedStatus := do
  let (mode, _) ← speed.command model action timeoutMs
  pure { model, mode := .ofByte mode, deviceType := 35 }

/-! ### Answers -/

/-- The payload of an answer. -/
def answer (model : LidarModel) (state : UInt8) (word : UInt32) : List UInt8 :=
  [1, 0, 16, 0, modelByte model, state, 0, 0] ++ putBytes 4 word ++ [0, 0, 0, 0]

/-- The loop of the word adds up the bytes. -/
theorem toNat_word (r : List UInt8) {n : ℕ} (hn : n ≤ 4) (h : 8 + n ≤ r.length) :
    ((List.range n).foldl
      (fun v i => v ||| (r.getD (8 + i) 0).toUInt32 <<< UInt32.ofNat (i * 8)) 0).toNat =
      LittleEndian.value ((r.drop 8).take n) := by
  induction n with
  | zero => simp
  | succ n ih =>
    have ih := ih (by omega) (by omega)
    have hlen : ((r.drop 8).take n).length = n := by
      rw [List.length_take, List.length_drop]
      omega
    have hget : (r.drop 8).take (n + 1) = (r.drop 8).take n ++ [r.getD (8 + n) 0] := by
      have hlt : n < (r.drop 8).length := by
        rw [List.length_drop]
        omega
      rw [List.take_add_one, List.getElem?_eq_getElem hlt, List.getElem_drop,
        List.getD_eq_getElem _ _ (by omega), Option.toList_some]
    have hlow := Library.LittleEndian.value_lt ((r.drop 8).take n)
    have hpow : 256 ^ n = 2 ^ (n * 8) := by
      rw [mul_comm, pow_mul]
      norm_num
    have hbyte := (r.getD (8 + n) 0).toNat_lt
    have hshift : ((r.getD (8 + n) 0).toUInt32 <<< UInt32.ofNat (n * 8)).toNat =
        2 ^ (n * 8) * (r.getD (8 + n) 0).toNat := by
      have hroom : 2 ^ (n * 8) * 2 ^ 8 ≤ 2 ^ 32 := by
        rw [← pow_add]
        exact Nat.pow_le_pow_right (by decide) (by omega)
      rw [UInt32.toNat_shiftLeft, UInt32.toNat_ofNat', UInt8.toNat_toUInt32,
        Nat.mod_eq_of_lt (show n * 8 < 2 ^ 32 by omega),
        Nat.mod_eq_of_lt (show n * 8 < 32 by omega),
        Nat.shiftLeft_eq, mul_comm, Nat.mod_eq_of_lt]
      exact (Nat.mul_lt_mul_of_pos_left hbyte (Nat.two_pow_pos _)).trans_le hroom
    rw [hlen, hpow] at hlow
    rw [List.range_succ, List.foldl_append, List.foldl_cons, List.foldl_nil, UInt32.toNat_or, ih,
      hshift, hget, Library.LittleEndian.value_append, hlen, hpow,
      Library.LittleEndian.value_cons, Library.LittleEndian.value_nil, Nat.or_comm,
      ← Nat.two_pow_add_eq_or_of_lt hlow]
    ring

theorem length_answer (model : LidarModel) (state : UInt8) (word : UInt32) :
    (answer model state word).length = 16 := by
  simp [answer]

theorem drop_answer (model : LidarModel) (state : UInt8) (word : UInt32) :
    ((answer model state word).drop 8).take 4 = putBytes 4 word := rfl

theorem vendorWord_answer (model : LidarModel) (state : UInt8) (word : UInt32) :
    vendorWord (answer model state word) = word := by
  rw [← UInt32.toNat_inj, vendorWord, toNat_word _ le_rfl (by rw [length_answer]; decide),
    drop_answer, putBytes_eq le_rfl, Library.LittleEndian.value_bytes]
  exact word.toNat_lt

/-- Sixteen bytes one by one. -/
theorem eq_bytes {r : List UInt8} (h : r.length = 16) : r =
    [byteAt r 0, byteAt r 1, byteAt r 2, byteAt r 3, byteAt r 4, byteAt r 5, byteAt r 6,
      byteAt r 7] ++ (r.drop 8).take 4 ++
        [byteAt r 12, byteAt r 13, byteAt r 14, byteAt r 15] := by
  match r, h with
  | [_, _, _, _, _, _, _, _, _, _, _, _, _, _, _, _], _ => rfl

theorem answer_inj {model : LidarModel} {state : UInt8} {v w : UInt32}
    (h : answer model state v = answer model state w) : v = w := by
  rw [← vendorWord_answer model state v, h, vendorWord_answer]

theorem putBytes_vendorWord {r : List UInt8} (h : r.length = 16) :
    putBytes 4 (vendorWord r) = (r.drop 8).take 4 := by
  have hlen : ((r.drop 8).take 4).length = 4 := by
    rw [List.length_take, List.length_drop, h]
    rfl
  have hvalue := Library.LittleEndian.bytes_value ((r.drop 8).take 4)
  rw [hlen] at hvalue
  rw [putBytes_eq le_rfl, vendorWord, toNat_word r le_rfl (by rw [h]; decide), hvalue]

namespace Control

variable {k : Control} {model : LidarModel} {action : UInt8} {timeoutMs : UInt32}

/-- An answer is believed when it is the encoding of a status that the family admits. -/
theorem not_unconfirmed_iff {f : Frame} : ¬ k.Unconfirmed model action f ↔
    f.type = k.response ∧
      f.payload = answer model (byteAt f.payload 5) (vendorWord f.payload) ∧
        k.refuses f.payload = false ∧ (action ≠ 0 → byteAt f.payload 5 = action) := by
  unfold Unconfirmed
  simp only [not_or, not_and, ne_eq, Decidable.not_not, Bool.not_eq_true]
  constructor
  · rintro ⟨htype, hlen, h0, h1, h2, h3, h4, hrefuses, h6, h7, h12, h13, h14, h15, hset⟩
    refine ⟨htype, ?_, hrefuses, hset⟩
    rw [answer, putBytes_vendorWord hlen]
    conv_lhs => rw [eq_bytes hlen, h0, h1, h2, h3, h4, h6, h7, h12, h13, h14, h15]
  · rintro ⟨htype, hpayload, hrefuses, hset⟩
    have hbyte : ∀ i, byteAt f.payload i =
        byteAt (answer model (byteAt f.payload 5) (vendorWord f.payload)) i := fun i =>
      congrArg (byteAt · i) hpayload
    refine ⟨htype, by rw [hpayload, length_answer], hbyte 0, hbyte 1, hbyte 2, hbyte 3, hbyte 4,
      hrefuses, hbyte 6, hbyte 7, hbyte 12, hbyte 13, hbyte 14, hbyte 15, hset⟩

theorem command_apply (k : Control) (model : LidarModel) (action : UInt8) (timeoutMs : UInt32)
    (w : World Answer) (c : Config Answer Unit) : k.command model action timeoutMs w c =
      if k.Takes model action timeoutMs then
        match w c.trace (k.request model action timeoutMs) with
        | .ok f => (if k.Unconfirmed model action f then .error k.unconfirmed
            else .ok (byteAt f.payload 5, vendorWord f.payload),
          c.push ⟨k.request model action timeoutMs, .ok f⟩)
        | .error what => (.error what, c.push ⟨k.request model action timeoutMs, .error what⟩)
      else (.error k.invalid, c) := by
  rw [command, Program.throwIf_bind_apply, ite_not, Program.request_bind_apply]
  cases w c.trace (k.request model action timeoutMs) with
  | error what => rfl
  | ok f =>
    simp only [Program.throwIf_bind_apply]
    by_cases hbad : k.Unconfirmed model action f
    · rw [if_pos hbad, if_pos hbad]
    · rw [if_neg hbad, if_neg hbad]
      rfl

/-- What a command sends, and when it succeeds. -/
theorem command_exact (k : Control) (model : LidarModel) (action : UInt8) (timeoutMs : UInt32)
    (w : World Answer) (c : Config Answer Unit) :
    if k.Takes model action timeoutMs then
      ∃ outcome, (k.command model action timeoutMs w c).2 =
          c.push ⟨k.request model action timeoutMs, outcome⟩ ∧
        ∀ state word, (k.command model action timeoutMs w c).1 = .ok (state, word) ↔
          ∃ f, outcome = .ok f ∧ f.type = k.response ∧ f.payload = answer model state word ∧
            k.refuses f.payload = false ∧ (action ≠ 0 → state = action)
    else k.command model action timeoutMs w c = (.error k.invalid, c) := by
  rw [command_apply]
  split_ifs with h
  · refine ⟨w c.trace (k.request model action timeoutMs), ?_⟩
    cases w c.trace (k.request model action timeoutMs) with
    | error what => exact ⟨rfl, fun state word => ⟨nofun, fun ⟨f, hf, _⟩ => nomatch hf⟩⟩
    | ok f =>
      refine ⟨rfl, fun state word => ?_⟩
      have hbelieved : ¬ k.Unconfirmed model action f ↔ _ := not_unconfirmed_iff
      constructor
      · intro hresult
        dsimp only at hresult
        split_ifs at hresult with hbad
        obtain ⟨rfl, rfl⟩ := Prod.mk.inj (Except.ok.inj hresult)
        exact ⟨f, rfl, hbelieved.1 hbad⟩
      · rintro ⟨_, ⟨⟩, htype, hpayload, hrefuses, hset⟩
        have hstate : byteAt f.payload 5 = state := by rw [hpayload]; rfl
        have hword : vendorWord f.payload = word := by rw [hpayload, vendorWord_answer]
        rw [hstate, hword] at hbelieved
        dsimp only
        rw [if_neg (hbelieved.2 ⟨htype, hpayload, hrefuses, hset⟩), hstate, hword]
  · rfl

/-- What a command sends, and when it succeeds, where a status is made of the two. -/
theorem status_exact {β : Type} {x : Action β} {g : UInt8 × UInt32 → β}
    (hx : ∀ w c, x w c = ((k.command model action timeoutMs w c).1.map g,
      (k.command model action timeoutMs w c).2)) (w : World Answer) (c : Config Answer Unit) :
    if k.Takes model action timeoutMs then
      ∃ outcome, (x w c).2 = c.push ⟨k.request model action timeoutMs, outcome⟩ ∧
        ∀ status, (x w c).1 = .ok status ↔ ∃ state word, g (state, word) = status ∧
          k.refuses (answer model state word) = false ∧ (action ≠ 0 → state = action) ∧
            ∃ f, outcome = .ok f ∧ f.type = k.response ∧ f.payload = answer model state word
    else x w c = (.error k.invalid, c) := by
  have hexact := k.command_exact model action timeoutMs w c
  rw [hx]
  split_ifs at hexact ⊢ with h
  · obtain ⟨outcome, htrace, hok⟩ := hexact
    refine ⟨outcome, htrace, fun status => ?_⟩
    constructor
    · intro hresult
      cases hcommand : (k.command model action timeoutMs w c).1 with
      | error what =>
        rw [hcommand] at hresult
        cases hresult
      | ok pair =>
        obtain ⟨state, word⟩ := pair
        rw [hcommand] at hresult
        obtain ⟨f, houtcome, htype, hpayload, hrefuses, hset⟩ := (hok state word).1 hcommand
        rw [hpayload] at hrefuses
        exact ⟨state, word, Except.ok.inj hresult, hrefuses, hset, f, houtcome, htype, hpayload⟩
    · rintro ⟨state, word, rfl, hrefuses, hset, f, houtcome, htype, hpayload⟩
      rw [← hpayload] at hrefuses
      dsimp only
      rw [(hok state word).2 ⟨f, houtcome, htype, hpayload, hrefuses, hset⟩]
      rfl
  · rw [hexact]
    rfl

end Control

/-- What a power command sends, and when it succeeds. Nothing is sent for arguments that are
not allowed; else one command is, and the answer is taken for a status just when its
payload is the encoding of that status, for the model that was asked for, and in the state
that was asked for where one was. -/
theorem lidarPower_exact (model : LidarModel) (action : UInt8) (timeoutMs : UInt32)
    (w : World Answer) (c : Config Answer Unit) :
    if model ≠ .none ∧ action ≤ 2 ∧ timeoutMs ≠ 0 ∧ timeoutMs ≤ 30000 then
      ∃ outcome, (lidarPowerCommand model action timeoutMs w c).2 =
          c.push ⟨.command (if action ≠ 0 then 0x4a else 0x49) (query model action timeoutMs)
            (timeoutMs + 2000), outcome⟩ ∧
        ∀ status, (lidarPowerCommand model action timeoutMs w c).1 = .ok status ↔
          status.model = model ∧ (action ≠ 0 → status.state.toByte = action) ∧
            ∃ f, outcome = .ok f ∧ f.type = 0xc0 ∧
              f.payload = answer model status.state.toByte status.vendorState
    else lidarPowerCommand model action timeoutMs w c =
      (.error "invalid LiDAR power model/action/timeout (1..30000 ms)", c) := by
  have htakes : power.Takes model action timeoutMs ↔
      (model ≠ .none ∧ action ≤ 2 ∧ timeoutMs ≠ 0 ∧ timeoutMs ≤ 30000) := by
    refine and_congr_left fun _ => ?_
    cases model <;> decide
  have hexact := Control.status_exact (x := lidarPowerCommand model action timeoutMs)
    (Program.bind_pure_apply (power.command model action timeoutMs) _) w c
  simp only [← htakes]
  by_cases h : power.Takes model action timeoutMs
  · rw [if_pos h] at hexact ⊢
    obtain ⟨outcome, htrace, hok⟩ := hexact
    refine ⟨outcome, htrace, fun status => (hok status).trans ?_⟩
    constructor
    · rintro ⟨state, word, rfl, hrefuses, hset, f, houtcome, htype, hpayload⟩
      have hle : state ≤ 4 := UInt8.not_lt.1 (of_decide_eq_false hrefuses)
      have hstate := LidarPowerState.toByte_ofByte hle
      refine ⟨rfl, fun haction => hstate.trans (hset haction), f, houtcome, htype, ?_⟩
      rw [hstate]
      exact hpayload
    · rintro ⟨rfl, hset, hanswer⟩
      refine ⟨status.state.toByte, status.vendorState, by simp, ?_, hset, hanswer⟩
      exact decide_eq_false (UInt8.not_lt.2 status.state.toByte_le)
  · rw [if_neg h] at hexact ⊢
    exact hexact

/-- A speed answer is admitted for a known mode and the type of device. -/
theorem speed_admits {model : LidarModel} {mode : UInt8} {word : UInt32} :
    speed.refuses (answer model mode word) = false ↔ (mode = 1 ∨ mode = 2) ∧ word = 35 := by
  have hword : word = 35 ↔ putBytes 4 word = [35, 0, 0, 0] := by
    constructor
    · rintro rfl
      decide
    · intro h
      have hanswer : answer model mode word = answer model mode 35 := by
        rw [answer, h]
        rfl
      exact answer_inj hanswer
  have hbytes : putBytes 4 word = [byteAt (answer model mode word) 8,
      byteAt (answer model mode word) 9, byteAt (answer model mode word) 10,
      byteAt (answer model mode word) 11] := rfl
  have hmode : ¬ mode < 1 ∧ ¬ 2 < mode ↔ mode = 1 ∨ mode = 2 := by
    simp only [UInt8.lt_iff_toNat_lt, ← UInt8.toNat_inj, UInt8.reduceToNat]
    omega
  have hfive : byteAt (answer model mode word) 5 = mode := rfl
  rw [hword, hbytes, ← hmode]
  simp only [speed, hfive, Bool.or_eq_false_iff, decide_eq_false_iff_not, List.cons.injEq,
    and_true, not_not, ne_eq, gt_iff_lt, and_assoc]

/-- The same for a speed command, which is for one model, never reads back an unknown mode
and always the same type of device. -/
theorem lidarSpeed_exact (model : LidarModel) (action : UInt8) (timeoutMs : UInt32)
    (w : World Answer) (c : Config Answer Unit) :
    if model = .mid360S ∧ action ≤ 2 ∧ timeoutMs ≠ 0 ∧ timeoutMs ≤ 10000 then
      ∃ outcome, (lidarSpeedCommand model action timeoutMs w c).2 =
          c.push ⟨.command (if action ≠ 0 then 0x4d else 0x4c) (query model action timeoutMs)
            (timeoutMs + 2000), outcome⟩ ∧
        ∀ status, (lidarSpeedCommand model action timeoutMs w c).1 = .ok status ↔
          status.model = model ∧ status.mode ≠ .unknown ∧ status.deviceType = 35 ∧
            (action ≠ 0 → status.mode.toByte = action) ∧
              ∃ f, outcome = .ok f ∧ f.type = 0xc2 ∧ f.payload = answer model status.mode.toByte 35
    else lidarSpeedCommand model action timeoutMs w c =
      (.error "speed control requires MID-360S and timeout 1..10000 ms", c) := by
  have htakes : speed.Takes model action timeoutMs ↔
      (model = .mid360S ∧ action ≤ 2 ∧ timeoutMs ≠ 0 ∧ timeoutMs ≤ 10000) :=
    and_congr_left fun _ => decide_eq_true_iff
  have hexact := Control.status_exact (x := lidarSpeedCommand model action timeoutMs)
    (Program.bind_pure_apply (speed.command model action timeoutMs) _) w c
  simp only [← htakes]
  simp only [speed_admits] at hexact
  by_cases h : speed.Takes model action timeoutMs
  · rw [if_pos h] at hexact ⊢
    obtain ⟨outcome, htrace, hok⟩ := hexact
    refine ⟨outcome, htrace, fun status => (hok status).trans ?_⟩
    constructor
    · rintro ⟨mode, word, rfl, ⟨hknown, rfl⟩, hset, hanswer⟩
      rcases hknown with rfl | rfl
      · exact ⟨rfl, nofun, rfl, hset, hanswer⟩
      · exact ⟨rfl, nofun, rfl, hset, hanswer⟩
    · rintro ⟨rfl, hmode, hdevice, hset, hanswer⟩
      refine ⟨status.mode.toByte, 35, ?_, ⟨LidarSpeedMode.toByte_of_ne hmode, rfl⟩, hset, hanswer⟩
      simp [← hdevice]
  · rw [if_neg h] at hexact ⊢
    exact hexact

end PrismSdk.Lidar.Commands
