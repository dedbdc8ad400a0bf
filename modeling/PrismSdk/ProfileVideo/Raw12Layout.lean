import PrismSdk.ProfileVideo.Raw12Samples

/-! How a block is laid out: its mode, the size of its data in a Rice mode, the first
two samples of a predicted block, and the data. What the checks on the header let
through is laid out so, and what is laid out so passes them. -/

namespace PrismSdk.ProfileVideo.Raw12Rice

open Library.Checked (load)

theorem toNat_sampleBytes {v : ℕ} (h : v < 65536) :
    (UInt8.ofNat v).toNat + (UInt8.ofNat (v >>> 8)).toNat <<< 8 = v := by
  rw [UInt8.toNat_ofNat', UInt8.toNat_ofNat', Nat.shiftRight_eq_div_pow, Nat.shiftLeft_eq]
  omega

theorem or_shiftLeft_eq (x y : UInt8) :
    x.toNat ||| y.toNat <<< 8 = x.toNat + y.toNat <<< 8 := by
  rw [Nat.shiftLeft_eq, Nat.mul_comm, Nat.or_comm, ← Nat.two_pow_add_eq_or_of_lt x.toNat_lt,
    Nat.add_comm]

theorem sampleBytes_toNat (x y : UInt8) : sampleBytes (x.toNat + y.toNat <<< 8) = [x, y] := by
  have hx := x.toNat_lt
  have hy := y.toNat_lt
  have hlow : UInt8.ofNat (x.toNat + y.toNat <<< 8) = x := by
    rw [← UInt8.toNat_inj, UInt8.toNat_ofNat', Nat.shiftLeft_eq]
    omega
  have hhigh : UInt8.ofNat ((x.toNat + y.toNat <<< 8) >>> 8) = y := by
    rw [← UInt8.toNat_inj, UInt8.toNat_ofNat', Nat.shiftRight_eq_div_pow, Nat.shiftLeft_eq]
    omega
  rw [sampleBytes, hlow, hhigh]

/-- A read at an offset from the position of a block reads the block. -/
theorem load_of_drop {bytes block : List UInt8} {position : ℕ} (h : bytes.drop position = block)
    (i : ℕ) : load bytes (position + i) = load block i := by
  rw [← h]
  unfold load
  rw [List.getElem?_drop]

/-- A block with its mode, the size of its data in a Rice mode, its seeds and its data. -/
def layout (mode : ℕ) (seeds : List ℕ) (data : List UInt8) : List UInt8 :=
  UInt8.ofNat mode :: ((if mode ≥ 32 then sampleBytes data.length else []) ++
    seeds.flatMap sampleBytes ++ data)

/-- The sizes the data can have. -/
def DataFits (mode : ℕ) (data : List UInt8) : Prop :=
  if mode ≥ 32 then 7 + data.length ≤ 385
  else data.length = if mode = 12 then 384 else (254 * mode + 7) / 8

def headerSize (mode : ℕ) : ℕ := if mode ≥ 32 then 7 else if mode = 12 then 1 else 5

/-- The state after the seeds. -/
def seeded (u16 : List UInt8) (base : ℕ) (seeds : List ℕ) : BlockState where
  reader := {}
  previous i := UInt16.ofNat (seeds.getD i 0)
  u16 := putSamples u16 base seeds

theorem length_layout (mode : ℕ) {seeds : List ℕ} (data : List UInt8)
    (h : seeds.length = firstSample mode) :
    (layout mode seeds data).length = headerSize mode + data.length := by
  unfold firstSample at h
  unfold layout headerSize
  rw [List.length_cons, List.length_append, List.length_append, length_flatMap_sampleBytes, h]
  split_ifs <;> simp only [sampleBytes, List.length_cons, List.length_nil] <;> omega

theorem drop_layout (mode : ℕ) {seeds : List ℕ} (data post : List UInt8)
    (h : seeds.length = firstSample mode) :
    (layout mode seeds data ++ post).drop (headerSize mode) = data ++ post := by
  have hlen := length_layout mode [] h
  rw [List.length_nil, Nat.add_zero] at hlen
  have hsplit : layout mode seeds data ++ post =
      UInt8.ofNat mode :: ((if mode ≥ 32 then sampleBytes data.length else []) ++
        seeds.flatMap sampleBytes) ++ (data ++ post) := by
    simp only [layout, List.cons_append, List.append_assoc]
  rw [hsplit]
  apply List.drop_left'
  rw [← hlen, layout]
  split_ifs <;> simp [sampleBytes]

/-- The sizes the header gives. -/
theorem blockSize_layout {bytes : List UInt8} {position mode : ℕ} {seeds : List ℕ}
    {data post : List UInt8} (hblock : bytes.drop position = layout mode seeds data ++ post)
    (hseeds : seeds.length = firstSample mode) (hfits : DataFits mode data) :
    blockSize bytes position mode = .ok (headerSize mode, (layout mode seeds data).length) := by
  have hlen := length_layout mode data hseeds
  unfold blockSize
  by_cases hrice : mode ≥ 32
  · have hroom : ¬ bytes.length - position < 7 := by
      rw [← List.length_drop, hblock, List.length_append, hlen, headerSize, if_pos hrice]
      omega
    have hlow : load bytes (position + 1) = .ok (UInt8.ofNat data.length) := by
      rw [load_of_drop hblock, layout, if_pos hrice]
      rfl
    have hhigh : load bytes (position + 2) = .ok (UInt8.ofNat (data.length >>> 8)) := by
      rw [load_of_drop hblock, layout, if_pos hrice]
      rfl
    have hsize : data.length < 65536 := by
      rw [DataFits, if_pos hrice] at hfits
      omega
    have hheader : headerSize mode = 7 := if_pos hrice
    rw [if_pos hrice, if_neg hroom, hlow, hhigh, Library.Checked.ok_bind, Library.Checked.ok_bind,
      hlen, hheader, Nat.add_assoc, toNat_sampleBytes hsize]
    rfl
  · have hdata : (if mode = 12 then 385 else 5 + ((256 - 2) * mode + 7) / 8) =
        (layout mode seeds data).length := by
      rw [DataFits, if_neg hrice] at hfits
      rw [hlen, hfits, headerSize, if_neg hrice]
      split_ifs <;> rfl
    rw [if_neg hrice, hdata, headerSize, if_neg hrice]
    rfl

/-- The seeds of a predicted block are stored when they are samples. -/
theorem storeSeeds_ok {bytes : List UInt8} {position mode base a b : ℕ} {u16 rest : List UInt8}
    (hmode : mode ≠ 12) (hseeds : bytes.drop (position + if mode ≥ 32 then 3 else 1) =
      sampleBytes a ++ sampleBytes b ++ rest) (ha : a ≤ 4095) (hb : b ≤ 4095)
    (hroom : 2 * (base + 2) ≤ u16.length) :
    storeSeeds bytes position mode base { u16 := u16 } = .ok (seeded u16 base [a, b]) := by
  have hload : ∀ i, load bytes (position + (if mode ≥ 32 then 3 else 1) + i) =
      load (sampleBytes a ++ sampleBytes b ++ rest) i := load_of_drop hseeds
  have hzero := hload 0
  rw [Nat.add_zero] at hzero
  have hvalue : ∀ v ≤ 4095, (UInt8.ofNat v).toNat ||| (UInt8.ofNat (v >>> 8)).toNat <<< 8 = v := by
    intro v hv
    rw [or_shiftLeft_eq, toNat_sampleBytes (by omega)]
  unfold storeSeeds
  rw [if_pos hmode]
  dsimp only
  rw [hzero, hload 1, hload 2, hload 3]
  simp only [sampleBytes, List.cons_append, List.nil_append, load, List.getElem?_cons_zero,
    List.getElem?_cons_succ, Library.Checked.ok_bind]
  have hone : 2 * (base + [a].length + [b].length) ≤ u16.length := hroom
  have hlen : (putSamples u16 base [a]).length = u16.length :=
    length_putSamples (by rw [List.length_singleton]; omega)
  rw [hvalue a ha, hvalue b hb, if_neg (by omega), store_ok a (by dsimp only; omega),
    Library.Checked.ok_bind, store_ok b (by dsimp only [Nat.add_zero]; rw [hlen]; exact hroom)]
  dsimp only [Nat.add_zero]
  have hlanes : Function.update (Function.update (fun _ => 0) (lane 0) (UInt16.ofNat a)) (lane 1)
      (UInt16.ofNat b) = fun i : Fin 2 => UInt16.ofNat ([a, b].getD i 0) := by
    funext i
    induction i using Fin.cases with
    | zero => rfl
    | succ i =>
      have hi : i = 0 := Subsingleton.elim _ _
      subst hi
      rfl
  rw [hlanes, seeded, ← List.singleton_append, ← putSamples_append [a] [b] hone]
  rfl

theorem storeSeeds_layout {bytes : List UInt8} {position mode base : ℕ} {seeds : List ℕ}
    {data post u16 : List UInt8} (hblock : bytes.drop position = layout mode seeds data ++ post)
    (hseeds : seeds.length = firstSample mode) (hle : ∀ v ∈ seeds, v ≤ 4095)
    (hroom : 2 * (base + 256) ≤ u16.length) :
    storeSeeds bytes position mode base { u16 := u16 } = .ok (seeded u16 base seeds) := by
  unfold firstSample at hseeds
  by_cases hmode : mode = 12
  · rw [if_pos hmode] at hseeds
    obtain rfl := List.eq_nil_of_length_eq_zero hseeds
    unfold storeSeeds
    rw [if_neg (not_not.2 hmode), seeded, putSamples_nil]
    rfl
  · rw [if_neg hmode] at hseeds
    obtain ⟨a, b, rfl⟩ := List.length_eq_two.1 hseeds
    apply storeSeeds_ok hmode _ (hle a (by simp)) (hle b (by simp)) (by omega)
    · exact data ++ post
    · rw [← List.drop_drop, hblock, layout]
      split_ifs <;> simp [sampleBytes]

/-- One iteration at a block written with a legal header decodes its data. -/
theorem decodeBlock_layout {bytes : List UInt8} {position mode base : ℕ} {seeds : List ℕ}
    {data post u16 : List UInt8} (hblock : bytes.drop position = layout mode seeds data ++ post)
    (hmode : LegalMode mode) (hseeds : seeds.length = firstSample mode)
    (hle : ∀ v ∈ seeds, v ≤ 4095) (hfits : DataFits mode data)
    (hroom : 2 * (base + 256) ≤ u16.length) :
    decodeBlock bytes position base u16 =
      decodeBody { bytes := bytes, data := position + headerSize mode, length := data.length } mode
        (shiftOf mode) base (seeded u16 base seeds) >>=
      fun u16' => .ok (position + (layout mode seeds data).length, u16') := by
  have hlen := length_layout mode data hseeds
  have htotal : bytes.length - position = (layout mode seeds data).length + post.length := by
    rw [← List.length_drop, hblock, List.length_append]
  have hheader : 0 < headerSize mode := by
    unfold headerSize
    split_ifs <;> decide
  have hbyte : load bytes position = .ok (UInt8.ofNat mode) := by
    have h := load_of_drop hblock 0
    rwa [Nat.add_zero] at h
  have hvalue : (UInt8.ofNat mode).toNat = mode := by
    unfold LegalMode at hmode
    rw [UInt8.toNat_ofNat']
    omega
  have hsize : headerSize mode + data.length ≤ 385 := by
    unfold DataFits at hfits
    unfold headerSize
    unfold LegalMode at hmode
    split_ifs at hfits ⊢ <;> omega
  unfold decodeBlock
  rw [if_neg (by omega), hbyte, Library.Checked.ok_bind]
  dsimp only
  rw [hvalue, if_neg (not_not.2 hmode), blockSize_layout hblock hseeds hfits,
    Library.Checked.ok_bind]
  dsimp only
  rw [hlen, if_neg (by omega), storeSeeds_layout hblock hseeds hle hroom, Library.Checked.ok_bind,
    Nat.add_sub_cancel_left]
  rfl

/-- Seeds that are accepted are samples. -/
theorem seeds_le {bytes : List UInt8} {position mode base : ℕ} {s s' : BlockState}
    {w x y z : UInt8} {rest : List UInt8} (hmode : mode ≠ 12)
    (hseeds : bytes.drop (position + if mode ≥ 32 then 3 else 1) = w :: x :: y :: z :: rest)
    (h : storeSeeds bytes position mode base s = .ok s') :
    ∀ v ∈ [w.toNat + x.toNat <<< 8, y.toNat + z.toNat <<< 8], v ≤ 4095 := by
  have hload : ∀ i, load bytes (position + (if mode ≥ 32 then 3 else 1) + i) =
      load (w :: x :: y :: z :: rest) i := load_of_drop hseeds
  have hzero := hload 0
  rw [Nat.add_zero] at hzero
  unfold storeSeeds at h
  rw [if_pos hmode] at h
  dsimp only at h
  rw [hzero, hload 1, hload 2, hload 3] at h
  simp only [load, List.getElem?_cons_zero, List.getElem?_cons_succ, Library.Checked.ok_bind,
    or_shiftLeft_eq] at h
  split_ifs at h with hbad
  simp only [List.forall_mem_cons]
  exact ⟨by omega, by omega, List.forall_mem_nil _⟩

/-- The bytes start with a block of the mode whose header passes the checks. -/
def Laid (mode : ℕ) (block : List UInt8) : Prop :=
  ∃ seeds data post, seeds.length = firstSample mode ∧ (∀ v ∈ seeds, v ≤ 4095) ∧
    DataFits mode data ∧ block = layout mode seeds data ++ post

section Laid

variable {byte : UInt8} {rest : List UInt8}

theorem laid_rice {low high a a' b b' : UInt8} (hmode : byte.toNat ≥ 32)
    (hle : ∀ v ∈ [a.toNat + a'.toNat <<< 8, b.toNat + b'.toNat <<< 8], v ≤ 4095)
    (hsize : 7 + (low.toNat + high.toNat <<< 8) ≤ 385)
    (hrest : low.toNat + high.toNat <<< 8 ≤ rest.length) :
    Laid byte.toNat (byte :: low :: high :: a :: a' :: b :: b' :: rest) := by
  have hlen : (rest.take (low.toNat + high.toNat <<< 8)).length = low.toNat + high.toNat <<< 8 := by
    rw [List.length_take, Nat.min_eq_left hrest]
  refine ⟨_, rest.take (low.toNat + high.toNat <<< 8), rest.drop (low.toNat + high.toNat <<< 8), ?_,
    hle, ?_, ?_⟩
  · rw [firstSample, if_neg (by omega)]
    rfl
  · rw [DataFits, if_pos hmode, hlen]
    exact hsize
  · rw [layout, if_pos hmode, hlen]
    simp [sampleBytes_toNat]

theorem laid_direct (hmode : byte.toNat = 12) (hrest : 384 ≤ rest.length) :
    Laid byte.toNat (byte :: rest) := by
  refine ⟨[], rest.take 384, rest.drop 384, ?_, List.forall_mem_nil _, ?_, ?_⟩
  · rw [firstSample, if_pos hmode]
    rfl
  · rw [DataFits, if_neg (by omega), if_pos hmode, List.length_take]
    omega
  · rw [layout, if_neg (by omega)]
    simp

theorem laid_fixed {a a' b b' : UInt8} (hmode : byte.toNat < 12)
    (hle : ∀ v ∈ [a.toNat + a'.toNat <<< 8, b.toNat + b'.toNat <<< 8], v ≤ 4095)
    (hrest : (254 * byte.toNat + 7) / 8 ≤ rest.length) :
    Laid byte.toNat (byte :: a :: a' :: b :: b' :: rest) := by
  refine ⟨_, rest.take ((254 * byte.toNat + 7) / 8), rest.drop ((254 * byte.toNat + 7) / 8), ?_, hle,
    ?_, ?_⟩
  · rw [firstSample, if_neg (by omega)]
    rfl
  · rw [DataFits, if_neg (by omega), if_neg (by omega), List.length_take]
    omega
  · rw [layout, if_neg (by omega)]
    simp [sampleBytes_toNat]

end Laid

/-- Whatever an iteration accepts is laid out so. -/
theorem exists_laid {bytes : List UInt8} {position base : ℕ} {u16 : List UInt8}
    {result : ℕ × List UInt8} (h : decodeBlock bytes position base u16 = .ok result) :
    ∃ mode, LegalMode mode ∧ Laid mode (bytes.drop position) := by
  unfold decodeBlock at h
  split_ifs at h with hend
  obtain ⟨byte, hbyte, h⟩ := Library.Checked.bind_eq_ok.1 h
  dsimp only at h
  split_ifs at h with hmode
  obtain ⟨⟨header, n⟩, hsize, h⟩ := Library.Checked.bind_eq_ok.1 h
  dsimp only at h
  split_ifs at h with hn
  obtain ⟨s, hstore, -⟩ := Library.Checked.bind_eq_ok.1 h
  refine ⟨byte.toNat, hmode, ?_⟩
  have hlen : (bytes.drop position).length = bytes.length - position := List.length_drop
  have hload : ∀ i, load bytes (position + i) = load (bytes.drop position) i := load_of_drop rfl
  have hdrop : ∀ i, bytes.drop (position + i) = (bytes.drop position).drop i :=
    fun i => List.drop_drop.symm
  have hzero := hload 0
  rw [Nat.add_zero, hbyte] at hzero
  generalize bytes.drop position = block at *
  unfold blockSize at hsize
  unfold LegalMode at hmode
  by_cases hrice : byte.toNat ≥ 32
  · rw [if_pos hrice] at hsize
    split_ifs at hsize with hshort
    obtain ⟨x, low, high, a, a', b, b', rest, rfl⟩ :
        ∃ x low high a a' b b' rest, block = x :: low :: high :: a :: a' :: b :: b' :: rest :=
      match block, (show 7 ≤ block.length by omega) with
      | x :: low :: high :: a :: a' :: b :: b' :: rest, _ => ⟨x, low, high, a, a', b, b', rest, rfl⟩
    rw [hload 1, hload 2] at hsize
    cases hsize
    cases hzero
    simp only [List.length_cons] at hlen
    apply laid_rice hrice _ (by omega) (by omega)
    exact seeds_le (by omega) (by rw [if_pos hrice, hdrop]; rfl) hstore
  · rw [if_neg hrice] at hsize
    cases hsize
    by_cases hdirect : byte.toNat = 12
    · rw [if_pos hdirect, if_pos hdirect] at hn
      obtain ⟨x, rest, rfl⟩ : ∃ x rest, block = x :: rest :=
        List.exists_cons_of_length_pos (by omega)
      cases hzero
      rw [List.length_cons] at hlen
      exact laid_direct hdirect (by omega)
    · rw [if_neg hdirect, if_neg hdirect] at hn
      obtain ⟨x, a, a', b, b', rest, rfl⟩ :
          ∃ x a a' b b' rest, block = x :: a :: a' :: b :: b' :: rest :=
        match block, (show 5 ≤ block.length by omega) with
        | x :: a :: a' :: b :: b' :: rest, _ => ⟨x, a, a', b, b', rest, rfl⟩
      cases hzero
      simp only [List.length_cons] at hlen
      apply laid_fixed (by omega) _ (by omega)
      exact seeds_le hdirect (by rw [if_neg hrice, hdrop]; rfl) hstore

end PrismSdk.ProfileVideo.Raw12Rice
