import PrismSdk.ProfileVideo.Raw12Envelope

/-! `decodeRaw12Rice` is safe on every vector: whatever the modes and the lengths in it
say, no index leaves its buffer, the bit reader holds at most nineteen bits, and the
blocks of an accepted vector leave no byte of it over. -/

namespace PrismSdk.ProfileVideo

open Library (Checked Fault)
open Library.Checked (load save loadAll Safe safe_ok safe_thrown)

namespace Raw12Rice

variable {d : BlockData} {bytes : List UInt8} {position base : ℕ} {u16 : List UInt8}

/-! ### The accumulator -/

/-- The states of the loop of `take count`. -/
inductive Refills (d : BlockData) (count : ℕ) (r : BitReader) : BitReader → Prop
  | start : Refills d count r r
  | turn {s : BitReader} {byte : UInt8} : Refills d count r s → s.held < count → s.pos < d.length →
      load d.bytes (d.data + s.pos) = .ok byte → Refills d count r (s.push byte)

theorem Refills.holds {count : ℕ} (hcount : count ≤ 12) {r s : BitReader} (h : Refills d count r s)
    (hr : r.Holds d 8) : s.Holds d (count + 8) := by
  induction h with
  | start => exact ⟨hr.pos, Nat.lt_of_lt_of_le hr.held (Nat.le_add_left 8 count), hr.bits⟩
  | turn _ hheld hpos _ ih => exact ih.push hcount hheld hpos _

/-- The states of the unary loop, after so many zeros. -/
inductive UnaryReader (d : BlockData) (k : ℕ) (r : BitReader) : ℕ → BitReader → Prop
  | start : UnaryReader d k r 0 r
  | zero {zeros : ℕ} {s s' : BitReader} : UnaryReader d k r zeros s → take d 1 s = .ok (0, s') →
      zeros + 1 ≤ 4095 >>> k → UnaryReader d k r (zeros + 1) s'

/-- The calls of `take` in `takeResidual`, with the count and the reader. -/
inductive ResidualTake (d : BlockData) (mode k : ℕ) (r : BitReader) : ℕ → BitReader → Prop
  | fixed : mode < 32 → ResidualTake d mode k r mode r
  | unary {zeros : ℕ} {s : BitReader} : mode ≥ 32 → UnaryReader d k r zeros s →
      ResidualTake d mode k r 1 s
  | low {zeros : ℕ} {s : BitReader} : mode ≥ 32 → takeZeros d k 0 r = .ok (zeros, s) →
      ResidualTake d mode k r k s

theorem ResidualTake.holds (hd : d.Inside) {mode k count : ℕ} (hmode : LegalMode mode)
    (hk : k = shiftOf mode) {r s : BitReader} (hr : r.Holds d 8)
    (h : ResidualTake d mode k r count s) : count ≤ 12 ∧ s.Holds d 8 := by
  unfold LegalMode at hmode
  cases h with
  | fixed hfixed => exact ⟨by omega, hr⟩
  | unary _ hunary =>
    refine ⟨by decide, ?_⟩
    induction hunary with
    | start => exact hr
    | zero _ htake _ ih => exact (take_reads hd (by decide)).holds ih htake
  | low hrice hzeros =>
    rw [shiftOf, if_pos hrice] at hk
    exact ⟨by omega, (takeZeros_reads hd k).holds hr hzeros⟩

/-! ### One block -/

/-- An iteration of the block loop gets past the header of the block: it has its data, and
the state after the seeds. -/
structure BlockStart (bytes : List UInt8) (position base : ℕ) (u16 : List UInt8) (mode : ℕ)
    (d : BlockData) (s : BlockState) : Prop where
  inBytes : position < bytes.length
  read : ∃ byte, load bytes position = .ok byte ∧ mode = byte.toNat
  legal : LegalMode mode
  size : ∃ header n, blockSize bytes position mode = .ok (header, n) ∧ header ≤ n ∧ n ≤ 385 ∧
    n ≤ bytes.length - position ∧
    d = { bytes := bytes, data := position + header, length := n - header }
  seeds : storeSeeds bytes position mode base { u16 := u16 } = .ok s

theorem BlockStart.inside {mode : ℕ} {s : BlockState}
    (h : BlockStart bytes position base u16 mode d s) : d.Inside := by
  obtain ⟨header, n, -, hheader, -, hlength, rfl⟩ := h.size
  have hin := h.inBytes
  show position + header + (n - header) ≤ bytes.length
  omega

theorem storeSeeds_cases (hroom : 2 * (base + 256) ≤ u16.length) {mode : ℕ}
    (hlength : mode ≠ 12 → position + (if mode ≥ 32 then 7 else 5) ≤ bytes.length) :
    (∃ what, storeSeeds bytes position mode base { u16 := u16 } = .error (.thrown what)) ∨
      ∃ s, storeSeeds bytes position mode base { u16 := u16 } = .ok s ∧ s.reader = {} ∧
        s.u16.length = u16.length := by
  by_cases hmode : mode = 12
  · refine Or.inr ⟨{ u16 := u16 }, ?_, rfl, rfl⟩
    unfold storeSeeds
    rw [if_neg (not_not.2 hmode)]
  have hbound := hlength hmode
  obtain ⟨seed, hseed, hroom'⟩ : ∃ seed, (position + if mode ≥ 32 then 3 else 1) = seed ∧
      seed + 4 ≤ bytes.length := by
    refine ⟨_, rfl, ?_⟩
    split_ifs at hbound ⊢ <;> omega
  unfold storeSeeds
  rw [if_pos hmode]
  dsimp only
  rw [hseed, Library.Checked.load_of_lt (show seed < bytes.length by omega),
    Library.Checked.load_of_lt (show seed + 1 < bytes.length by omega),
    Library.Checked.load_of_lt (show seed + 2 < bytes.length by omega),
    Library.Checked.load_of_lt (show seed + 3 < bytes.length by omega)]
  simp only [Library.Checked.ok_bind]
  split_ifs with hbad
  · exact Or.inl ⟨_, rfl⟩
  · have hone : (putSamples u16 (base + 0)
        [(bytes.getD seed 0).toNat ||| (bytes.getD (seed + 1) 0).toNat <<< 8]).length =
          u16.length := length_putSamples (by rw [List.length_singleton]; omega)
    rw [store_ok _ (by dsimp only; omega), Library.Checked.ok_bind,
      store_ok _ (by dsimp only; omega)]
    refine Or.inr ⟨_, rfl, rfl, ?_⟩
    dsimp only
    rw [length_putSamples (by rw [hone, List.length_singleton]; omega), hone]

theorem blockSize_header {mode header n : ℕ}
    (h : blockSize bytes position mode = .ok (header, n)) : header = headerSize mode := by
  unfold blockSize at h
  unfold headerSize
  split_ifs at h ⊢
  · obtain ⟨low, -, h⟩ := Library.Checked.bind_eq_ok.1 h
    obtain ⟨high, -, h⟩ := Library.Checked.bind_eq_ok.1 h
    exact (congrArg Prod.fst (Except.ok.inj h)).symm
  · exact (congrArg Prod.fst (Except.ok.inj h)).symm
  · exact (congrArg Prod.fst (Except.ok.inj h)).symm

/-- The seeds are within the header of the block. -/
theorem seeds_inside {mode header n : ℕ} (hsize : blockSize bytes position mode = .ok (header, n))
    (hheader : header ≤ n) (hin : position < bytes.length) (hn : n ≤ bytes.length - position)
    (hmode : mode ≠ 12) : position + (if mode ≥ 32 then 7 else 5) ≤ bytes.length := by
  have hvalue := blockSize_header hsize
  rw [headerSize, if_neg hmode] at hvalue
  rw [← hvalue]
  omega

theorem BlockStart.state {mode : ℕ} {s : BlockState}
    (h : BlockStart bytes position base u16 mode d s) (hroom : 2 * (base + 256) ≤ u16.length) :
    s.reader.Holds d 8 ∧ s.u16.length = u16.length := by
  obtain ⟨header, n, hsize, hheader, -, hn, -⟩ := h.size
  have hseeds := h.seeds
  rcases storeSeeds_cases hroom (seeds_inside hsize hheader h.inBytes hn) with
    ⟨what, herror⟩ | ⟨s', hok, hreader, hlength⟩
  · rw [herror] at hseeds
    cases hseeds
  · rw [hok] at hseeds
    cases hseeds
    refine ⟨?_, hlength⟩
    rw [hreader]
    exact ⟨Nat.zero_le _, by decide, by decide⟩

/-- The reader before any sample of the block. -/
theorem BlockStart.holds {mode n : ℕ} {s s' : BlockState}
    (h : BlockStart bytes position base u16 mode d s) (hroom : 2 * (base + 256) ≤ u16.length)
    (hn : firstSample mode + n ≤ 256)
    (hloop : (List.range' (firstSample mode) n).foldlM
      (decodeSample d mode (shiftOf mode) base) s = .ok s') : s'.reader.Holds d 8 := by
  obtain ⟨hreader, hlength⟩ := h.state hroom
  obtain ⟨hsome, hnone⟩ := decodeLoop_spec h.inside h.legal rfl base n (firstSample mode) s
    (by omega) hreader
  rcases hread : (residualCode mode (shiftOf mode)).readSeq n (s.reader.stream d) with
    _ | ⟨qs, rest⟩
  · obtain ⟨what, herror⟩ := hnone hread
    rw [herror] at hloop
    cases hloop
  · obtain ⟨s'', hok, hs'', -⟩ := hsome qs rest hread
    rw [hok] at hloop
    cases hloop
    exact hs''

/-- The data of a block are decoded without a fault. -/
theorem BlockStart.safe {mode : ℕ} {s : BlockState}
    (h : BlockStart bytes position base u16 mode d s) (hroom : 2 * (base + 256) ≤ u16.length) :
    Safe (decodeBody d mode (shiftOf mode) base s) := by
  obtain ⟨hreader, hlength⟩ := h.state hroom
  have hfirst : firstSample mode ≤ 2 := by
    unfold firstSample
    split_ifs <;> omega
  obtain ⟨hsome, hnone⟩ := decodeLoop_spec h.inside h.legal rfl base (256 - firstSample mode)
    (firstSample mode) s (by omega) hreader
  have hloop : Safe (decodeSamples d mode (shiftOf mode) base s) := by
    rcases hread : (residualCode mode (shiftOf mode)).readSeq (256 - firstSample mode)
        (s.reader.stream d) with _ | ⟨qs, rest⟩
    · obtain ⟨what, herror⟩ := hnone hread
      rw [decodeSamples, herror]
      exact safe_thrown what
    · obtain ⟨s', hok, -⟩ := hsome qs rest hread
      rw [decodeSamples, hok]
      exact safe_ok s'
  refine hloop.bind fun s' _ => Safe.bind ?_ fun _ _ => safe_ok _
  unfold checkPadding
  split_ifs
  · exact safe_thrown _
  · exact safe_ok _

theorem safe_blockSize {mode : ℕ} (hin : position < bytes.length) :
    Safe (blockSize bytes position mode) := by
  unfold blockSize
  split_ifs
  · exact safe_thrown _
  · rw [Library.Checked.load_of_lt (show position + 1 < bytes.length by omega),
      Library.Checked.load_of_lt (show position + 2 < bytes.length by omega)]
    exact safe_ok _
  · exact safe_ok _
  · exact safe_ok _

/-- An iteration of the block loop ends without a fault. -/
theorem safe_decodeBlock (hroom : 2 * (base + 256) ≤ u16.length) :
    Safe (decodeBlock bytes position base u16) := by
  unfold decodeBlock
  split_ifs with hend
  · exact safe_thrown _
  have hin : position < bytes.length := not_le.1 hend
  refine (Library.Checked.safe_load hin).bind fun byte hbyte => ?_
  dsimp only
  by_cases hmode : LegalMode byte.toNat
  case neg =>
    rw [if_pos hmode]
    exact safe_thrown _
  rw [if_neg (not_not.2 hmode)]
  refine (safe_blockSize hin).bind fun size hsize => ?_
  obtain ⟨header, n⟩ := size
  dsimp only
  split_ifs with hn
  · exact safe_thrown _
  simp only [not_or, not_lt] at hn
  refine Safe.bind ?_ fun s hseeds => ?_
  · rcases storeSeeds_cases hroom (seeds_inside hsize hn.1 hin hn.2.2) with
      ⟨what, herror⟩ | ⟨s, hok, -⟩
    · rw [herror]
      exact safe_thrown what
    · rw [hok]
      exact safe_ok s
  · have hstart : BlockStart bytes position base u16 byte.toNat _ s :=
      ⟨hin, ⟨byte, hbyte, rfl⟩, hmode, ⟨header, n, hsize, hn.1, hn.2.1, hn.2.2, rfl⟩, hseeds⟩
    exact (hstart.safe hroom).bind fun _ _ => safe_ok _

end Raw12Rice

open Raw12Rice (BlockData BitReader BlockState BlockStart ResidualTake Refills decodeSample
  firstSample shiftOf sampleAt putSamples sampleBytes take)
open RiceBlock (written image)

variable {bytes : List UInt8} {header n : ℕ}

/-! ### The whole decoder -/

/-- The buffer of samples keeps its size. -/
theorem length_decodeBlocks (hn : n ≤ pixels / 256) {position : ℕ} {u16 : List UInt8}
    (h : decodeBlocks bytes header n = .ok (position, u16)) : u16.length = 2 * pixels := by
  obtain ⟨blocks, rfl, -, -, rfl⟩ := (decodeBlocks_iff hn position u16).1 h
  have hblocks := RiceBlock.length_image blocks
  rw [Raw12Rice.length_putSamples] <;> rw [length_zeros]
  omega

theorem safe_decodeBlocks (bytes : List UInt8) (header : ℕ) (hn : n ≤ pixels / 256) :
    Safe (decodeBlocks bytes header n) := by
  induction n with
  | zero => exact safe_ok _
  | succ n ih =>
    rw [decodeBlocks_succ]
    refine (ih (by omega)).bind ?_
    rintro ⟨position, u16⟩ hblocks
    apply Raw12Rice.safe_decodeBlock
    have hlength := length_decodeBlocks (by omega) hblocks
    dsimp only
    omega

theorem safe_decodePayload {envelope : Raw12Header} (hlength : 48 ≤ bytes.length) :
    Safe (decodePayload bytes envelope) := by
  unfold decodePayload
  refine (safe_decodeBlocks bytes envelope.bytes le_rfl).bind ?_
  rintro ⟨position, u16⟩ hblocks
  obtain ⟨blocks, hcount, -, -, rfl⟩ := (decodeBlocks_iff le_rfl position u16).1 hblocks
  dsimp only
  rw [rawHeaderLe32_of_le (show 20 + 4 ≤ bytes.length by omega), Library.Checked.ok_bind,
    putSamples_all hcount]
  split_ifs
  · exact safe_thrown _
  · rw [packRaw12_image hcount, Library.Checked.ok_bind, describe_eq hlength]
    exact safe_ok _

theorem safe_decodeRaw12Rice (bytes : List UInt8) : Safe (decodeRaw12Rice bytes) := by
  by_cases haccepted : HeaderAccepted bytes bytes.length kRaw12Rice
  case neg =>
    unfold decodeRaw12Rice
    rw [parse_of_not_accepted haccepted]
    exact safe_thrown _
  by_cases hlimit : bytes.length ≤ kProfileImageLimit
  case neg =>
    unfold decodeRaw12Rice checkRiceHeader
    rw [haccepted.parse, Library.Checked.ok_bind, if_pos (Or.inr (not_le.1 hlimit))]
    exact safe_thrown _
  rw [decodeRaw12Rice_of_accepted haccepted hlimit]
  split_ifs
  · exact safe_thrown _
  · exact safe_decodePayload haccepted.le_length

/-- A call of `take` in the decoder: of a count of bits, with the reader of the data of a
block. -/
inductive TakeCall (bytes : List UInt8) : BlockData → ℕ → BitReader → Prop
  | call {header : Raw12Header} {block position mode sample count : ℕ} {u16 : List UInt8}
      {d : BlockData} {s s' : BlockState} {r : BitReader} :
      parseRaw12Header (some bytes) bytes.length kRaw12Rice = .ok header → block < pixels / 256 →
      decodeBlocks bytes header.bytes block = .ok (position, u16) →
      BlockStart bytes position (256 * block) u16 mode d s → firstSample mode + sample < 256 →
      (List.range' (firstSample mode) sample).foldlM
        (decodeSample d mode (shiftOf mode) (256 * block)) s = .ok s' →
      ResidualTake d mode (shiftOf mode) s'.reader count r → TakeCall bytes d count r

theorem TakeCall.holds {d : BlockData} {count : ℕ} {r : BitReader} (h : TakeCall bytes d count r) :
    d.Inside ∧ count ≤ 12 ∧ r.Holds d 8 := by
  obtain ⟨-, hblock, hblocks, hstart, hsample, hloop, htake⟩ := h
  have hlength := length_decodeBlocks hblock.le hblocks
  have hreader := hstart.holds (by omega) hsample.le hloop
  obtain ⟨hcount, hr⟩ := htake.holds hstart.inside hstart.legal rfl hreader
  exact ⟨hstart.inside, hcount, hr⟩

/-- What is safe returns or throws. -/
theorem returns_of_safe (h : Safe (decodeRaw12Rice bytes)) :
    (∃ r, decodeRaw12Rice bytes = .ok r) ∨
      ∃ what, decodeRaw12Rice bytes = .error (.thrown what) := by
  rcases hresult : decodeRaw12Rice bytes with fault | r
  · cases fault with
    | thrown what => exact Or.inr ⟨what, rfl⟩
    | undefined => exact absurd hresult h
  · exact Or.inl ⟨r, rfl⟩

theorem flatten_map_bytes (blocks : List RiceBlock) :
    (blocks.map RiceBlock.bytes).flatten = written blocks := List.flatMap_def.symm

/-- The loop over the first blocks of a vector that is made of blocks. -/
theorem decodeBlocks_of_written {header n : ℕ} {blocks : List RiceBlock}
    (hcount : blocks.length = pixels / 256) (hpayload : bytes.drop header = written blocks)
    (hn : n ≤ pixels / 256) :
    decodeBlocks bytes header n = .ok (header + (written (blocks.take n)).length,
      putSamples (List.replicate (pixels * 2) 0) 0 (image (blocks.take n))) := by
  refine (decodeBlocks_iff hn _ _).2 ⟨blocks.take n, ?_, ?_, rfl, rfl⟩
  · rw [List.length_take, hcount]
    omega
  · rw [hpayload, ← List.take_append_drop n blocks, written_append, List.take_append_drop]
    exact List.prefix_append _ _

/-- The buffer after all blocks has its samples, twelve bits each. -/
theorem sampleAt_image_le {blocks : List RiceBlock} (hcount : blocks.length = pixels / 256)
    {i : ℕ} (hi : i < pixels) : sampleAt ((image blocks).flatMap sampleBytes) i ≤ 4095 := by
  have hlength : (image blocks).length = pixels := by
    rw [RiceBlock.length_image, hcount]
    decide
  have hroom : 2 * (0 + (image blocks).length) ≤
      (List.replicate (pixels * 2) (0 : UInt8)).length := by
    rw [List.length_replicate]
    omega
  have hsample := Raw12Rice.sampleAt_putSamples hroom
    (show i < (image blocks).length by omega) (RiceBlock.image_le blocks)
  rw [Nat.zero_add, putSamples_all hcount] at hsample
  rw [hsample, List.getD_eq_getElem _ _ (show i < (image blocks).length by omega)]
  exact RiceBlock.image_le blocks _ (List.getElem_mem _)

/-- The decoder is safe and exhaustive. It returns an image or throws, with no index
outside its buffer; the accumulator never holds more than nineteen bits, nor a byte that
would be shifted out of it, and fewer than eight bits after each `take`; and the blocks of
an accepted vector stand end to end from its header to its end, each sample at most 4095. -/
theorem decodeRaw12Rice_safe (bytes : List UInt8) :
    ((∃ r, decodeRaw12Rice bytes = .ok r) ∨
        ∃ what, decodeRaw12Rice bytes = .error (.thrown what)) ∧
      (∀ d count r, TakeCall bytes d count r →
        (∀ s, Refills d count r s → s.held ≤ 19 ∧ s.bits.toNat < 2 ^ s.held ∧
          (s.held < count → ∀ byte : UInt8,
            (byte.toUInt32 <<< UInt32.ofNat s.held).toNat = byte.toNat * 2 ^ s.held)) ∧
        ∀ value s, take d count r = .ok (value, s) → s.held < 8) ∧
      ∀ r, decodeRaw12Rice bytes = .ok r →
        ∃ (header : Raw12Header) (blocks : List (List UInt8)) (u16 : List UInt8),
        parseRaw12Header (some bytes) bytes.length kRaw12Rice = .ok header ∧
          blocks.length = 61440 ∧ bytes.drop header.bytes = blocks.flatten ∧
          (∀ block ∈ blocks, block ≠ []) ∧
          (∀ n ≤ 61440, ∃ part, decodeBlocks bytes header.bytes n =
            .ok (header.bytes + (blocks.take n).flatten.length, part)) ∧
          decodeBlocks bytes header.bytes 61440 = .ok (bytes.length, u16) ∧
          u16.length = 2 * pixels ∧ ∀ i < pixels, sampleAt u16 i ≤ 4095 := by
  have hcount : pixels / 256 = 61440 := by decide
  refine ⟨returns_of_safe (safe_decodeRaw12Rice bytes), fun d count r hcall => ?_, fun r h => ?_⟩
  · obtain ⟨hinside, hcount, hr⟩ := hcall.holds
    refine ⟨fun s hs => ?_, fun value s hs =>
      ((Raw12Rice.take_reads hinside hcount).holds hr hs).held⟩
    have hholds := hs.holds hcount hr
    have hheld := hholds.held
    exact ⟨by omega, hholds.bits, fun hlt byte => Raw12Rice.toNat_shiftLeft_held (by omega) byte⟩
  · obtain ⟨blocks, henvelope, rfl⟩ := (decodeRaw12Rice_iff bytes r).1 h
    have havailable := henvelope.header.available
    have hend : headerBytes bytes + (written blocks).length = bytes.length := by
      rw [← henvelope.payload, List.length_drop]
      omega
    have hblocks := fun n (hn : n ≤ pixels / 256) =>
      decodeBlocks_of_written henvelope.count henvelope.payload hn
    refine ⟨_, blocks.map RiceBlock.bytes, (image blocks).flatMap sampleBytes,
      henvelope.header.parse, ?_, ?_, ?_, fun n hn => ?_, ?_, ?_, fun i hi => ?_⟩
    · rw [List.length_map, henvelope.count, hcount]
    · rw [flatten_map_bytes]
      exact henvelope.payload
    · intro block hblock
      obtain ⟨riceBlock, -, rfl⟩ := List.mem_map.1 hblock
      exact riceBlock.bytes_ne_nil
    · rw [← List.map_take, flatten_map_bytes]
      exact ⟨_, hblocks n (by omega)⟩
    · have hall := hblocks (pixels / 256) le_rfl
      rwa [List.take_of_length_le henvelope.count.le, hend, putSamples_all henvelope.count,
        hcount] at hall
    · rw [Raw12Rice.length_flatMap_sampleBytes, RiceBlock.length_image, henvelope.count]
      decide
    · exact sampleAt_image_le henvelope.count hi

end PrismSdk.ProfileVideo
