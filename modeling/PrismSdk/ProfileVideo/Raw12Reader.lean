import PrismSdk.ProfileVideo.Raw12Rice

/-! The bit reader of a block against the codes it reads. What the reader still has
to read is a stream of bits: those it holds and those of the bytes left. Each of its
functions takes one code word off that stream, or throws where there is none. -/

namespace PrismSdk.ProfileVideo.Raw12Rice

open Library (Checked Fault PrefixCode)
open Library.Checked (load save)
open Library.BitStream (ofBytes)

namespace BlockData

/-- The data lies within the bytes. -/
def Inside (d : BlockData) : Prop := d.data + d.length ≤ d.bytes.length

def window (d : BlockData) : List UInt8 := (d.bytes.drop d.data).take d.length

variable {d : BlockData}

theorem length_window (h : d.Inside) : d.window.length = d.length := by
  unfold Inside at h
  rw [window, List.length_take, List.length_drop]
  omega

theorem load_window (h : d.Inside) {pos : ℕ} (hpos : pos < d.length) :
    ∃ byte, load d.bytes (d.data + pos) = .ok byte ∧
      d.window.drop pos = byte :: d.window.drop (pos + 1) := by
  have hlt : pos < d.window.length := by rwa [length_window h]
  refine ⟨d.window[pos], ?_, List.drop_eq_getElem_cons hlt⟩
  rw [Library.Checked.load_eq_ok, ← List.getElem?_drop, ← List.getElem?_eq_getElem hlt, window,
    List.getElem?_take_of_lt hpos]

end BlockData

variable {d : BlockData}

namespace BitReader

/-- The bits not taken yet. -/
def stream (d : BlockData) (r : BitReader) : List Bool :=
  Library.BitStream.bits r.held r.bits.toNat ++ ofBytes (d.window.drop r.pos)

/-- What `take` leaves of the accumulator. -/
def drop (count : ℕ) (r : BitReader) : BitReader :=
  { r with bits := r.bits >>> UInt32.ofNat count, held := r.held - count }

/-- The accumulator holds fewer than `limit` bits, and nothing above them. -/
structure Holds (d : BlockData) (limit : ℕ) (r : BitReader) : Prop where
  pos : r.pos ≤ d.length
  held : r.held < limit
  bits : r.bits.toNat < 2 ^ r.held

theorem length_stream (hd : d.Inside) (r : BitReader) :
    (r.stream d).length = r.held + 8 * (d.length - r.pos) := by
  rw [stream, List.length_append, Library.BitStream.length_bits, Library.BitStream.length_ofBytes,
    List.length_drop, BlockData.length_window hd]

end BitReader

/-- A byte is not shifted out of the accumulator. -/
theorem toNat_shiftLeft_held {held : ℕ} (hheld : held < 20) (byte : UInt8) :
    (byte.toUInt32 <<< UInt32.ofNat held).toNat = byte.toNat * 2 ^ held := by
  have hbyte := byte.toNat_lt
  have hpow : 2 ^ held ≤ 2 ^ 19 := Nat.pow_le_pow_right (by omega) (by omega)
  have hshift : (UInt32.ofNat held).toNat % 32 = held := by
    rw [UInt32.toNat_ofNat']
    omega
  have hfits : byte.toNat * 2 ^ held < 2 ^ 32 :=
    calc byte.toNat * 2 ^ held ≤ 255 * 2 ^ 19 := Nat.mul_le_mul (by omega) hpow
      _ < 2 ^ 32 := by decide
  rw [UInt32.toNat_shiftLeft, hshift, UInt8.toNat_toUInt32, Nat.shiftLeft_eq,
    Nat.mod_eq_of_lt hfits]

/-- A byte goes above the bits held, as long as it fits the accumulator. -/
theorem toNat_or_shiftLeft {x : UInt32} {held : ℕ} (hheld : held < 20) (h : x.toNat < 2 ^ held)
    (byte : UInt8) :
    (x ||| byte.toUInt32 <<< UInt32.ofNat held).toNat = x.toNat + 2 ^ held * byte.toNat := by
  rw [UInt32.toNat_or, toNat_shiftLeft_held hheld, Nat.or_comm, Nat.mul_comm,
    ← Nat.two_pow_add_eq_or_of_lt h, Nat.add_comm]

theorem toNat_low {x : UInt32} {count : ℕ} (hcount : count < 32) :
    (x &&& ((1 <<< UInt32.ofNat count) - 1)).toNat = x.toNat % 2 ^ count := by
  have hpow : 2 ^ count < 2 ^ 32 := Nat.pow_lt_pow_right (by omega) hcount
  have hshift : (UInt32.ofNat count).toNat % 32 = count := by
    rw [UInt32.toNat_ofNat']
    omega
  have hone : (1 <<< UInt32.ofNat count : UInt32).toNat = 2 ^ count := by
    rw [UInt32.toNat_shiftLeft, hshift, UInt32.toNat_one, Nat.shiftLeft_eq, Nat.one_mul,
      Nat.mod_eq_of_lt hpow]
  have hle : (1 : UInt32) ≤ 1 <<< UInt32.ofNat count := by
    rw [UInt32.le_iff_toNat_le, hone]
    exact Nat.one_le_two_pow
  rw [UInt32.toNat_and, UInt32.toNat_sub_of_le _ _ hle, hone, UInt32.toNat_one,
    Nat.and_two_pow_sub_one_eq_mod]

theorem toNat_high {x : UInt32} {count : ℕ} (hcount : count < 32) :
    (x >>> UInt32.ofNat count).toNat = x.toNat / 2 ^ count := by
  have hshift : (UInt32.ofNat count).toNat % 32 = count := by
    rw [UInt32.toNat_ofNat']
    omega
  rw [UInt32.toNat_shiftRight, hshift, Nat.shiftRight_eq_div_pow]

/-- The reader after one turn of the loop of `take`. -/
def BitReader.push (byte : UInt8) (r : BitReader) : BitReader where
  pos := r.pos + 1
  bits := r.bits ||| byte.toUInt32 <<< UInt32.ofNat r.held
  held := r.held + 8

theorem BitReader.Holds.push {count : ℕ} (hcount : count ≤ 12) {r : BitReader}
    (h : r.Holds d (count + 8)) (hheld : r.held < count) (hpos : r.pos < d.length) (byte : UInt8) :
    (r.push byte).Holds d (count + 8) := by
  refine ⟨?_, ?_, ?_⟩
  · show r.pos + 1 ≤ d.length
    omega
  · show r.held + 8 < count + 8
    omega
  · have hb := h.bits
    have hmul : 2 ^ r.held * byte.toNat ≤ 2 ^ r.held * 255 :=
      Nat.mul_le_mul_left _ (by have := byte.toNat_lt; omega)
    show (r.bits ||| byte.toUInt32 <<< UInt32.ofNat r.held).toNat < 2 ^ (r.held + 8)
    rw [toNat_or_shiftLeft (show r.held < 20 by omega) h.bits byte, pow_add]
    omega

/-- `refill` moves bytes of the stream into the accumulator, until it holds enough. -/
theorem refill_spec (hd : d.Inside) {count : ℕ} (hcount : count ≤ 12) (r : BitReader)
    (h : r.Holds d (count + 8)) :
    (count ≤ (r.stream d).length → ∃ r', refill d count r = .ok r' ∧ r'.Holds d (count + 8) ∧
      count ≤ r'.held ∧ r'.stream d = r.stream d) ∧
    ((r.stream d).length < count →
      refill d count r = .error (.thrown "truncated RAW12 bits")) := by
  fun_induction refill d count r with
  | case1 r hheld hpos =>
    have hlen := r.length_stream hd
    exact ⟨fun hle => by omega, fun _ => rfl⟩
  | case2 r hheld hpos ih =>
    obtain ⟨byte, hbyte, hdrop⟩ := BlockData.load_window hd (show r.pos < d.length by omega)
    rw [hbyte, Library.Checked.ok_bind]
    have hbits := toNat_or_shiftLeft (show r.held < 20 by omega) h.bits byte
    have hstream : BitReader.stream d
        { pos := r.pos + 1, bits := r.bits ||| byte.toUInt32 <<< UInt32.ofNat r.held,
          held := r.held + 8 } = r.stream d := by
      simp only [BitReader.stream]
      rw [hbits, Library.BitStream.bits_add 8 _ h.bits, hdrop, Library.BitStream.ofBytes_cons,
        List.append_assoc]
    rw [← hstream]
    exact ih byte (h.push hcount hheld (by omega) byte)
  | case3 r hheld =>
    refine ⟨fun _ => ⟨r, rfl, h, by omega, rfl⟩, fun hlt => ?_⟩
    have hlen := r.length_stream hd
    omega

/-- The reader takes the words of a code off its stream, and throws where none stands. -/
structure Reads {α : Type} (d : BlockData) (c : PrefixCode α)
    (run : BitReader → Checked (α × BitReader)) : Prop where
  reads : ∀ {r a rest}, r.Holds d 8 → c.read (r.stream d) = some (a, rest) →
    ∃ r', run r = .ok (a, r') ∧ r'.Holds d 8 ∧ r'.stream d = rest
  throws : ∀ {r}, r.Holds d 8 → c.read (r.stream d) = none → ∃ what, run r = .error (.thrown what)

/-- A reader that returns leaves fewer than eight bits. -/
theorem Reads.holds {α : Type} {c : PrefixCode α} {run : BitReader → Checked (α × BitReader)}
    (h : Reads d c run) {r r' : BitReader} {a : α} (hr : r.Holds d 8) (hrun : run r = .ok (a, r')) :
    r'.Holds d 8 := by
  rcases hread : c.read (r.stream d) with _ | ⟨b, rest⟩
  · obtain ⟨what, herror⟩ := h.throws hr hread
    rw [herror] at hrun
    cases hrun
  · obtain ⟨s, hok, hs, -⟩ := h.reads hr hread
    rw [hok] at hrun
    cases hrun
    exact hs

theorem BitReader.stream_drop {count : ℕ} (hcount : count ≤ 12) {r : BitReader}
    (h : count ≤ r.held) :
    r.stream d = (PrefixCode.fixed count).write (r.bits.toNat % 2 ^ count) ++
      (r.drop count).stream d := by
  show _ = Library.BitStream.bits _ _ ++ _
  simp only [stream, drop, toNat_high (show count < 32 by omega)]
  rw [← List.append_assoc, ← Library.BitStream.bits_split, Nat.add_sub_cancel' h]

theorem BitReader.Holds.drop {count : ℕ} (hcount : count ≤ 12) {r : BitReader}
    (h : r.Holds d (count + 8)) (hheld : count ≤ r.held) : (r.drop count).Holds d 8 := by
  refine ⟨h.pos, ?_, ?_⟩
  · have hlt := h.held
    show r.held - count < 8
    omega
  · show (r.bits >>> UInt32.ofNat count).toNat < 2 ^ (r.held - count)
    rw [toNat_high (show count < 32 by omega)]
    apply Nat.div_lt_of_lt_mul
    rw [← pow_add, Nat.add_sub_cancel' hheld]
    exact h.bits

theorem take_reads (hd : d.Inside) {count : ℕ} (hcount : count ≤ 12) :
    Reads d (PrefixCode.fixed count) (take d count) where
  reads {r a rest} h hread := by
    have hheld := h.held
    have hle : count ≤ (r.stream d).length := by
      by_contra hlt
      rw [PrefixCode.read_fixed_eq_none.2 (Nat.lt_of_not_le hlt)] at hread
      cases hread
    obtain ⟨r', hrefill, h', hheld', hstream⟩ :=
      (refill_spec hd hcount r ⟨h.pos, by omega, h.bits⟩).1 hle
    have hread' := (PrefixCode.fixed count).read_write
      (show r'.bits.toNat % 2 ^ count < 2 ^ count from Nat.mod_lt _ (Nat.two_pow_pos count))
      ((r'.drop count).stream d)
    rw [← BitReader.stream_drop hcount hheld', hstream, hread] at hread'
    cases hread'
    refine ⟨r'.drop count, ?_, h'.drop hcount hheld', rfl⟩
    rw [← toNat_low (show count < 32 by omega)]
    unfold take
    rw [hrefill]
    rfl
  throws {r} h hread := by
    have hheld := h.held
    have hlt := PrefixCode.read_fixed_eq_none.1 hread
    refine ⟨"truncated RAW12 bits", ?_⟩
    unfold take
    rw [(refill_spec hd hcount r ⟨h.pos, by omega, h.bits⟩).2 hlt]
    rfl

/-- One turn of the unary loop reads one bit of the stream. -/
theorem takeZeros_zero (hd : d.Inside) (k zeros : ℕ) {r : BitReader} (h : r.Holds d 8)
    {s : List Bool} (hs : r.stream d = false :: s) :
    ∃ r', r'.Holds d 8 ∧ r'.stream d = s ∧ takeZeros d k zeros r =
      if zeros + 1 > 4095 >>> k then .error (.thrown "Rice quotient overflow")
      else takeZeros d k (zeros + 1) r' := by
  obtain ⟨r', hbit, h', hstream⟩ := (take_reads hd (show 1 ≤ 12 by decide)).reads h
    (by rw [hs]; exact PrefixCode.read_fixed_one false s)
  refine ⟨r', h', hstream, ?_⟩
  rw [takeZeros, hbit]
  rfl

theorem takeZeros_one (hd : d.Inside) (k zeros : ℕ) {r : BitReader} (h : r.Holds d 8)
    {s : List Bool} (hs : r.stream d = true :: s) :
    ∃ r', takeZeros d k zeros r = .ok (zeros, r') ∧ r'.Holds d 8 ∧ r'.stream d = s := by
  obtain ⟨r', hbit, h', hstream⟩ := (take_reads hd (show 1 ≤ 12 by decide)).reads h
    (by rw [hs]; exact PrefixCode.read_fixed_one true s)
  refine ⟨r', ?_, h', hstream⟩
  rw [takeZeros, hbit]
  rfl

theorem takeZeros_nil (hd : d.Inside) (k zeros : ℕ) {r : BitReader} (h : r.Holds d 8)
    (hs : r.stream d = []) : ∃ what, takeZeros d k zeros r = .error (.thrown what) := by
  obtain ⟨what, hbit⟩ := (take_reads hd (show 1 ≤ 12 by decide)).throws h (by rw [hs]; rfl)
  refine ⟨what, ?_⟩
  rw [takeZeros, hbit]
  rfl

/-- The unary loop after `zeros` zeros, with `left` more allowed. -/
theorem takeZeros_spec (hd : d.Inside) (k left zeros : ℕ) (hlimit : zeros + left = 4095 >>> k)
    (r : BitReader) (h : r.Holds d 8) :
    (∀ n rest, PrefixCode.readUnary left (r.stream d) = some (n, rest) →
      ∃ r', takeZeros d k zeros r = .ok (zeros + n, r') ∧ r'.Holds d 8 ∧ r'.stream d = rest) ∧
    (PrefixCode.readUnary left (r.stream d) = none →
      ∃ what, takeZeros d k zeros r = .error (.thrown what)) := by
  induction left generalizing zeros r with
  | zero =>
    rcases hs : r.stream d with _ | ⟨_ | _, s⟩
    · exact ⟨by rintro n rest ⟨⟩, fun _ => takeZeros_nil hd k zeros h hs⟩
    · obtain ⟨r', -, -, heq⟩ := takeZeros_zero hd k zeros h hs
      rw [if_pos (by omega)] at heq
      exact ⟨by rintro n rest ⟨⟩, fun _ => ⟨_, heq⟩⟩
    · exact ⟨by rintro n rest ⟨⟩; exact takeZeros_one hd k zeros h hs, by rintro ⟨⟩⟩
  | succ left ih =>
    rcases hs : r.stream d with _ | ⟨_ | _, s⟩
    · exact ⟨by rintro n rest ⟨⟩, fun _ => takeZeros_nil hd k zeros h hs⟩
    · obtain ⟨r', h', rfl, heq⟩ := takeZeros_zero hd k zeros h hs
      rw [if_neg (by omega)] at heq
      obtain ⟨hsome, hnone⟩ := ih (zeros + 1) (by omega) r' h'
      rw [heq, PrefixCode.readUnary]
      constructor
      · intro n rest hread
        obtain ⟨⟨m, rest⟩, hrest, hread⟩ := Option.map_eq_some_iff.1 hread
        cases hread
        rw [Nat.add_comm m 1, ← Nat.add_assoc]
        exact hsome m rest hrest
      · exact fun hread => hnone (Option.map_eq_none_iff.1 hread)
    · exact ⟨by rintro n rest ⟨⟩; exact takeZeros_one hd k zeros h hs, by rintro ⟨⟩⟩

theorem takeZeros_reads (hd : d.Inside) (k : ℕ) :
    Reads d (PrefixCode.unary (4095 >>> k)) (takeZeros d k 0) where
  reads h hread := by
    have hspec := (takeZeros_spec hd k (4095 >>> k) 0 (Nat.zero_add _) _ h).1 _ _ hread
    rwa [Nat.zero_add] at hspec
  throws h := (takeZeros_spec hd k (4095 >>> k) 0 (Nat.zero_add _) _ h).2

/-! ### Combining readers -/

variable {α β γ : Type}

/-- One read after another reads the pair of codes. -/
theorem Reads.pair {c : PrefixCode α} {e : PrefixCode β}
    {run : BitReader → Checked (α × BitReader)} {run' : BitReader → Checked (β × BitReader)}
    (h : Reads d c run) (h' : Reads d e run') :
    Reads d (c.pair e) fun r => do
      let (a, r) ← run r
      let (b, r) ← run' r
      return ((a, b), r) where
  reads {r p rest} hr hread := by
    obtain ⟨⟨a, s⟩, ha, hread⟩ := Option.bind_eq_some_iff.1 hread
    obtain ⟨⟨b, t⟩, hb, hread⟩ := Option.map_eq_some_iff.1 hread
    cases hread
    obtain ⟨r', hrun, hr', rfl⟩ := h.reads hr ha
    obtain ⟨r'', hrun', hr'', hstream⟩ := h'.reads hr' hb
    exact ⟨r'', by simp only [hrun, hrun', Library.Checked.ok_bind]; rfl, hr'', hstream⟩
  throws {r} hr hread := by
    rcases ha : c.read (r.stream d) with _ | ⟨a, s⟩
    · obtain ⟨what, hrun⟩ := h.throws hr ha
      exact ⟨what, by rw [hrun]; rfl⟩
    · obtain ⟨r', hrun, hr', rfl⟩ := h.reads hr ha
      have hb : e.read (r'.stream d) = none := by
        rcases hb : e.read (r'.stream d) with _ | q
        · rfl
        · change (c.read (r.stream d)).bind _ = none at hread
          rw [ha, Option.bind_some, hb] at hread
          cases hread
      obtain ⟨what, hrun'⟩ := h'.throws hr' hb
      exact ⟨what, by simp only [hrun, hrun', Library.Checked.ok_bind]; rfl⟩

/-- A reader whose values are those of another under other names. -/
theorem Reads.map {c : PrefixCode α} {run : BitReader → Checked (α × BitReader)}
    (h : Reads d c run) (f : α → β) (g : β → α) (hg : ∀ a, c.Valid a → g (f a) = a)
    {run' : BitReader → Checked (β × BitReader)}
    (hok : ∀ {r a r'}, c.Valid a → run r = .ok (a, r') → run' r = .ok (f a, r'))
    (herror : ∀ {r e}, run r = .error e → run' r = .error e) : Reads d (c.map f g hg) run' where
  reads {r b rest} hr hread := by
    obtain ⟨⟨a, s⟩, ha, hread⟩ := Option.map_eq_some_iff.1 hread
    cases hread
    obtain ⟨r', hrun, hr', hstream⟩ := h.reads hr ha
    exact ⟨r', hok (c.read_eq_some.1 ha).1 hrun, hr', hstream⟩
  throws {r} hr hread := by
    obtain ⟨what, hrun⟩ := h.throws hr (Option.map_eq_none_iff.1 hread)
    exact ⟨what, herror hrun⟩

/-- The code of the residuals of a mode. -/
def residualCode (mode k : ℕ) : PrefixCode ℕ :=
  if mode ≥ 32 then PrefixCode.rice k (4095 >>> k) else PrefixCode.fixed mode

theorem takeResidual_reads (hd : d.Inside) {mode k : ℕ} (hmode : LegalMode mode)
    (hk : k = shiftOf mode) :
    Reads d (residualCode mode k) (takeResidual d mode k) := by
  unfold residualCode
  by_cases hrice : mode ≥ 32
  · have hle : k ≤ 12 := by
      unfold LegalMode at hmode
      rw [shiftOf, if_pos hrice] at hk
      omega
    rw [if_pos hrice]
    apply Reads.map ((takeZeros_reads hd k).pair (take_reads hd hle))
    · rintro r ⟨zeros, low⟩ r' ⟨-, hlow⟩ hrun
      have hvalue : zeros * 2 ^ k + low = zeros <<< k ||| low := by
        rw [Nat.shiftLeft_eq, Nat.mul_comm, Nat.two_pow_add_eq_or_of_lt hlow]
      unfold takeResidual
      rw [if_pos hrice, hvalue]
      obtain ⟨⟨n, r₁⟩, hzeros, hrun⟩ := Library.Checked.bind_eq_ok.1 hrun
      obtain ⟨⟨v, r₂⟩, hbits, hrun⟩ := Library.Checked.bind_eq_ok.1 hrun
      cases hrun
      simp only [hzeros, hbits, Library.Checked.ok_bind]
      rfl
    · intro r e hrun
      unfold takeResidual
      rw [if_pos hrice]
      rcases hzeros : takeZeros d k 0 r with e' | ⟨n, r₁⟩
      · simp only [hzeros, Library.Checked.error_bind] at hrun ⊢
        cases hrun
        rfl
      · rcases hbits : take d k r₁ with e' | ⟨v, r₂⟩
        · simp only [hzeros, hbits, Library.Checked.ok_bind, Library.Checked.error_bind] at hrun ⊢
          cases hrun
          rfl
        · simp only [hzeros, hbits, Library.Checked.ok_bind] at hrun
          cases hrun
  · rw [if_neg hrice]
    have heq : takeResidual d mode k = take d mode := by
      funext r
      exact if_neg hrice
    rw [heq]
    apply take_reads hd
    unfold LegalMode at hmode
    omega

end PrismSdk.ProfileVideo.Raw12Rice
