import PrismSdk.ProfileVideo.Raw12Encode

/-! The two versions of an envelope. Version 2 puts sixteen bytes between the legacy
header and the payload: the trigger group, eight zeros and the checksum of the bytes
before. Putting them in or taking them out leaves the image as it is, but for the trigger
group. -/

namespace PrismSdk.ProfileVideo

open Library (Checked Fault)
open RiceBlock (written image)

/-- The legacy part of a header, with another version and header size. -/
def relabel (p : List UInt8) (version size : UInt8) : List UInt8 :=
  ((p.take (legacyBytes p)).set 4 version).set 5 size

/-- The bytes a version 2 header checks. -/
def extendedStart (p : List UInt8) (trigger : UInt32) : List UInt8 :=
  relabel p 2 (UInt8.ofNat (legacyBytes p + 16)) ++ (le32 trigger ++ List.replicate 8 0)

/-- The version 2 envelope of a version 1 envelope. -/
def extend (p : List UInt8) (trigger : UInt32) : List UInt8 :=
  extendedStart p trigger ++ (le32 (rawHeaderCrc32 (extendedStart p trigger)) ++
    p.drop (legacyBytes p))

/-- The version 1 envelope of a version 2 envelope. -/
def withoutExtension (p : List UInt8) : List UInt8 :=
  relabel p 1 (UInt8.ofNat (legacyBytes p)) ++ p.drop (legacyBytes p + 16)

section Relabel

variable {p : List UInt8} {version size : UInt8}

theorem length_relabel (h : legacyBytes p ≤ p.length) :
    (relabel p version size).length = legacyBytes p := by
  rw [relabel, List.length_set, List.length_set, List.length_take, Nat.min_eq_left h]

theorem getD_relabel_version (h : legacyBytes p ≤ p.length) (rest : List UInt8) :
    (relabel p version size ++ rest).getD 4 0 = version := by
  have hlegacy := legacyBytes_cases p
  have hlen : (relabel p version size).length = legacyBytes p := length_relabel h
  rw [List.getD_append _ _ _ _ (by omega), relabel, List.getD_eq_getElem?_getD,
    List.getElem?_set_ne (by decide), List.getElem?_set_self, Option.getD_some]
  rw [List.length_take]
  omega

theorem getD_relabel_size (h : legacyBytes p ≤ p.length) (rest : List UInt8) :
    (relabel p version size ++ rest).getD 5 0 = size := by
  have hlegacy := legacyBytes_cases p
  have hlen : (relabel p version size).length = legacyBytes p := length_relabel h
  rw [List.getD_append _ _ _ _ (by omega), relabel, List.getD_eq_getElem?_getD,
    List.getElem?_set_self, Option.getD_some]
  rw [List.length_set, List.length_take]
  omega

theorem getD_relabel (h : legacyBytes p ≤ p.length) (rest : List UInt8) {i : ℕ} (h4 : i ≠ 4)
    (h5 : i ≠ 5) (hi : i < legacyBytes p) :
    (relabel p version size ++ rest).getD i 0 = p.getD i 0 := by
  have hlen : (relabel p version size).length = legacyBytes p := length_relabel h
  rw [List.getD_append _ _ _ _ (by omega), relabel, List.getD_eq_getElem?_getD,
    List.getElem?_set_ne h5.symm, List.getElem?_set_ne h4.symm, List.getElem?_take_of_lt hi,
    ← List.getD_eq_getElem?_getD]

theorem le32At_relabel (h : legacyBytes p ≤ p.length) (rest : List UInt8) {i : ℕ} (h6 : 6 ≤ i)
    (hi : i + 4 ≤ legacyBytes p) : le32At (relabel p version size ++ rest) i = le32At p i := by
  unfold le32At
  rw [getD_relabel h rest (by omega) (by omega) (show i < _ by omega),
    getD_relabel h rest (by omega) (by omega) (show i + 1 < _ by omega),
    getD_relabel h rest (by omega) (by omega) (show i + 2 < _ by omega),
    getD_relabel h rest (by omega) (by omega) (show i + 3 < _ by omega)]

theorem take_relabel (h : legacyBytes p ≤ p.length) (rest : List UInt8) :
    (relabel p version size ++ rest).take 4 = p.take 4 := by
  have hlegacy := legacyBytes_cases p
  have hlen : (relabel p version size).length = legacyBytes p := length_relabel h
  rw [List.take_append_of_le_length (by omega), relabel, List.take_set_of_le (by decide),
    List.take_set_of_le (by decide), List.take_take, Nat.min_eq_left (by omega)]

theorem isRice_relabel (h : legacyBytes p ≤ p.length) (rest : List UInt8) :
    isRice (relabel p version size ++ rest) = isRice p := by
  rw [isRice, take_relabel h, isRice]

theorem legacyBytes_relabel (h : legacyBytes p ≤ p.length) (rest : List UInt8) :
    legacyBytes (relabel p version size ++ rest) = legacyBytes p := by
  rw [legacyBytes, isRice_relabel h, legacyBytes]

theorem isExtended_relabel (h : legacyBytes p ≤ p.length) (rest : List UInt8) :
    isExtended (relabel p version size ++ rest) = decide (version = 2) := by
  rw [isExtended, getD_relabel_version h]

theorem headerBytes_relabel (h : legacyBytes p ≤ p.length) (rest : List UInt8) :
    headerBytes (relabel p version size ++ rest) =
      legacyBytes p + if version = 2 then 16 else 0 := by
  rw [headerBytes, legacyBytes_relabel h, isExtended_relabel h]
  simp only [decide_eq_true_eq]

/-- The label stands before the fields of the image. -/
theorem sameFields_relabel (h : legacyBytes p ≤ p.length) (rest : List UInt8) :
    SameFields p (relabel p version size ++ rest) := fun i h6 hi => by
  have hlegacy := legacyBytes_cases p
  exact getD_relabel h rest (by omega) (by omega) (by omega)

/-- A relabelled header before a payload of the same size is accepted when its extension is. -/
theorem HeaderAccepted.relabel {format : UInt8} (hp : HeaderAccepted p p.length format)
    {rest : List UInt8} (hversion : version = 1 ∨ version = 2)
    (hsize : size.toNat = legacyBytes p + if version = 2 then 16 else 0)
    (hrest : rest.length = (if version = 2 then 16 else 0) + (p.length - headerBytes p))
    (hlimit : (ProfileVideo.relabel p version size ++ rest).length ≤ 32 * 1024 * 1024)
    (hextension : version = 2 → ExtensionAccepted (ProfileVideo.relabel p version size ++ rest)) :
    HeaderAccepted (ProfileVideo.relabel p version size ++ rest)
      (ProfileVideo.relabel p version size ++ rest).length format := by
  have havailable := hp.available
  have hlegacy := legacyBytes_cases p
  have hle := le_headerBytes p
  have hpayload := hp.payload
  have h : legacyBytes p ≤ p.length := by omega
  have hlen : (ProfileVideo.relabel p version size ++ rest).length =
      legacyBytes p + rest.length := by rw [List.length_append, length_relabel h]
  have hbytes : headerBytes (ProfileVideo.relabel p version size ++ rest) =
      legacyBytes p + if version = 2 then 16 else 0 := headerBytes_relabel h rest
  have hword : ∀ i, 6 ≤ i → i + 4 ≤ legacyBytes p →
      le32At (ProfileVideo.relabel p version size ++ rest) i = le32At p i := fun i h6 hi =>
    le32At_relabel h rest h6 hi
  have hfields : SameFields p (ProfileVideo.relabel p version size ++ rest) :=
    sameFields_relabel h rest
  refine ⟨?_, ?_, ?_, ?_, ?_, ?_, hlimit, hfields.imageAccepted hp.image,
    hfields.timingAccepted hp.timing, ?_, fun hyes => hextension ?_⟩
  · rw [take_relabel h]
    exact hp.magic
  · rw [isRice_relabel h]
    exact hp.format
  · rw [getD_relabel_version h]
    exact hversion
  · rw [getD_relabel_size h, hbytes, hsize]
  · omega
  · omega
  · intro hrice
    rw [isRice_relabel h] at hrice
    have hrows : legacyBytes p = 64 := if_pos hrice
    unfold RiceAccepted
    rw [hword 52 (by decide) (by omega), hword 56 (by decide) (by omega),
      hword 60 (by decide) (by omega), hlen, hbytes, hrest]
    obtain ⟨hblock, hencoded, hreserved⟩ := hp.rice hrice
    exact ⟨hblock, by omega, hreserved⟩
  · rw [isExtended_relabel h] at hyes
    exact of_decide_eq_true hyes

end Relabel

/-! ### Version 2 from version 1 -/

theorem le32At_append {pre post : List UInt8} {i : ℕ} (hi : pre.length = i) (v : UInt32) :
    le32At (pre ++ (le32 v ++ post)) i = v := by
  subst hi
  have hget : ∀ k, (pre ++ (le32 v ++ post)).getD (pre.length + k) 0 = (le32 v ++ post).getD k 0 :=
    fun k => by rw [List.getD_append_right _ _ _ _ (Nat.le_add_right _ _), Nat.add_sub_cancel_left]
  have hzero := hget 0
  rw [Nat.add_zero] at hzero
  unfold le32At
  rw [hzero, hget 1, hget 2, hget 3]
  exact rawLe32_le32 v

section Extend

variable {p : List UInt8} {trigger : UInt32} {format : UInt8}

theorem extend_eq (p : List UInt8) (trigger : UInt32) : extend p trigger =
    relabel p 2 (UInt8.ofNat (legacyBytes p + 16)) ++ (le32 trigger ++ (List.replicate 8 0 ++
      (le32 (rawHeaderCrc32 (extendedStart p trigger)) ++ p.drop (legacyBytes p)))) := by
  simp only [extend, extendedStart, List.append_assoc]

theorem length_extendedStart (h : legacyBytes p ≤ p.length) :
    (extendedStart p trigger).length = legacyBytes p + 12 := by
  rw [extendedStart, List.length_append, length_relabel h]
  rfl

theorem length_extend (h : legacyBytes p ≤ p.length) :
    (extend p trigger).length = p.length + 16 := by
  rw [extend, List.length_append, length_extendedStart h, List.length_append, List.length_drop]
  show _ + (4 + _) = _
  omega

theorem drop_extend (h : legacyBytes p ≤ p.length) :
    (extend p trigger).drop (legacyBytes p + 16) = p.drop (legacyBytes p) := by
  rw [extend, ← List.append_assoc]
  apply List.drop_left'
  rw [List.length_append, length_extendedStart h]
  rfl

theorem headerTrigger_extend (h : legacyBytes p ≤ p.length) :
    headerTrigger (extend p trigger) = trigger := by
  rw [extend_eq, headerTrigger, isExtended_relabel h, legacyBytes_relabel h]
  exact le32At_append (length_relabel h) trigger

/-- The extension that is put in passes its checks. -/
theorem extensionAccepted_extend (hp : HeaderAccepted p p.length format)
    (hmode : p.getD 38 0 = 4 ∧ trigger ≠ 0 ∨ p.getD 38 0 = 0 ∧ trigger = 0) :
    ExtensionAccepted (extend p trigger) := by
  have havailable := hp.available
  have hlegacy := legacyBytes_cases p
  have hle := le_headerBytes p
  have h : legacyBytes p ≤ p.length := by omega
  have hstart : (extendedStart p trigger).length = legacyBytes p + 12 := length_extendedStart h
  have hbytes : headerBytes (extend p trigger) = legacyBytes p + 16 := by
    rw [extend_eq, headerBytes_relabel h, if_pos rfl]
  have hrows : legacyBytes (extend p trigger) = legacyBytes p := by
    rw [extend_eq, legacyBytes_relabel h]
  have hzero : ∀ k, k + 4 ≤ 8 → le32At (extend p trigger) (legacyBytes p + 4 + k) = 0 := by
    intro k hk
    have hbyte : ∀ j < 8, (extend p trigger).getD (legacyBytes p + 4 + j) 0 = 0 := by
      intro j hj
      have hpre : (relabel p 2 (UInt8.ofNat (legacyBytes p + 16)) ++ le32 trigger).length =
          legacyBytes p + 4 := by
        rw [List.length_append, length_relabel h]
        rfl
      rw [extend_eq, ← List.append_assoc, List.getD_append_right _ _ _ _ (by omega), hpre,
        Nat.add_sub_cancel_left, List.getD_append _ _ _ _ (by rwa [List.length_replicate]),
        List.getD_eq_getElem _ _ (by rwa [List.length_replicate]), List.getElem_replicate]
    unfold le32At
    rw [Nat.add_assoc _ k, Nat.add_assoc _ k, Nat.add_assoc _ k, hbyte _ (by omega),
      hbyte _ (by omega), hbyte _ (by omega), hbyte _ (by omega)]
    rfl
  refine ⟨⟨?_, ?_, ?_⟩, ?_⟩
  · rw [hrows]
    exact hzero 0 (by decide)
  · rw [hrows]
    exact hzero 4 (by decide)
  · rw [hbytes, show legacyBytes p + 16 - 4 = legacyBytes p + 12 by omega, extend,
      List.take_left' hstart, le32At_append hstart]
  · have hbyte : (extend p trigger).getD 38 0 = p.getD 38 0 := by
      rw [extend_eq, getD_relabel h _ (by decide) (by decide) (by omega)]
    rw [hbyte, headerTrigger_extend h]
    exact hmode

theorem headerAccepted_extend (hp : HeaderAccepted p p.length format)
    (hversion : isExtended p = false) (hlimit : p.length + 16 ≤ kProfileImageLimit)
    (hmode : p.getD 38 0 = 4 ∧ trigger ≠ 0 ∨ p.getD 38 0 = 0 ∧ trigger = 0) :
    HeaderAccepted (extend p trigger) (extend p trigger).length format := by
  have havailable := hp.available
  have hlegacy := legacyBytes_cases p
  have hle := le_headerBytes p
  have h : legacyBytes p ≤ p.length := by omega
  have hbytes : headerBytes p = legacyBytes p := by
    rw [headerBytes, if_neg (by rw [hversion]; exact Bool.false_ne_true), Nat.add_zero]
  have hmax : kProfileImageLimit ≤ 32 * 1024 * 1024 := by decide
  have hlen : (extend p trigger).length = p.length + 16 := length_extend h
  have hextension := extensionAccepted_extend hp hmode
  rw [extend_eq] at hlen hextension ⊢
  apply hp.relabel (Or.inr rfl) _ _ (by omega) fun _ => hextension
  · rw [if_pos rfl, UInt8.toNat_ofNat']
    omega
  · rw [List.length_append, length_relabel h] at hlen
    rw [if_pos rfl]
    omega

end Extend

/-! ### Version 1 from version 2 -/

section Remove

variable {p : List UInt8} {format : UInt8}

theorem headerAccepted_withoutExtension (hp : HeaderAccepted p p.length format)
    (hversion : isExtended p = true) :
    HeaderAccepted (withoutExtension p) (withoutExtension p).length format := by
  have havailable := hp.available
  have hlegacy := legacyBytes_cases p
  have hlimit := hp.limit
  have hbytes : headerBytes p = legacyBytes p + 16 := by rw [headerBytes, if_pos hversion]
  have h : legacyBytes p ≤ p.length := by omega
  apply hp.relabel (Or.inl rfl)
  · rw [if_neg (by decide), UInt8.toNat_ofNat']
    omega
  · rw [if_neg (by decide), List.length_drop]
    omega
  · rw [List.length_append, length_relabel h, List.length_drop]
    omega
  · rintro ⟨⟩

theorem length_withoutExtension (h : legacyBytes p ≤ p.length) :
    (withoutExtension p).length ≤ p.length := by
  rw [withoutExtension, List.length_append, length_relabel h, List.length_drop]
  omega

theorem drop_withoutExtension (h : legacyBytes p ≤ p.length) :
    (withoutExtension p).drop (legacyBytes p) = p.drop (legacyBytes p + 16) :=
  List.drop_left' (length_relabel h)

end Remove

/-! ### The decoders -/

/-- Another envelope with the same payload and the same fields but the trigger group. -/
structure SameImage (p q : List UInt8) (format : UInt8) : Prop where
  header : HeaderAccepted q q.length format
  limit : q.length ≤ kProfileImageLimit
  payload : q.drop (headerBytes q) = p.drop (headerBytes p)
  encodedCrc : isRice p = true → le32At q 48 = le32At p 48
  fields : SameFields p q

section SameImage

variable {p q : List UInt8}

theorem SameImage.decodeRice {r : Raw12Image} (h : SameImage p q kRaw12Rice)
    (hdecode : decodeRaw12Rice p = .ok r) :
    decodeRaw12Rice q = .ok { r with triggerSequence := headerTrigger q } := by
  obtain ⟨blocks, henvelope, rfl⟩ := (decodeRaw12Rice_iff p r).1 hdecode
  refine (decodeRaw12Rice_iff q _).2 ⟨blocks, ⟨h.header, h.limit, ?_, henvelope.count, ?_, ?_⟩, ?_⟩
  · rw [h.payload, h.encodedCrc henvelope.header.isRice_of_rice]
    exact henvelope.encodedCrc
  · rw [h.payload]
    exact henvelope.payload
  · rw [h.fields.le32At (by decide) (by decide)]
    exact henvelope.decodedCrc
  · rw [h.fields.raw12ImageOf]
    rfl

theorem SameImage.decodeZstd {z : Zstd} {r : Raw12Image} (h : SameImage p q kRaw12Zstd)
    (hdecode : decodeRaw12Zstd z p = .ok r) :
    decodeRaw12Zstd z q = .ok { r with triggerSequence := headerTrigger q } := by
  obtain ⟨packed, henvelope, rfl⟩ := (decodeRaw12Zstd_iff z p r).1 hdecode
  refine (decodeRaw12Zstd_iff z q _).2 ⟨packed, ⟨h.header, h.limit, ?_⟩, ?_⟩
  · rw [h.payload, h.fields.le32At (by decide) (by decide)]
    exact henvelope.payload
  · rw [h.fields.raw12ImageOf]
    rfl

variable {format : UInt8}

theorem sameImage_extend {trigger : UInt32} (hp : HeaderAccepted p p.length format)
    (hversion : isExtended p = false) (hlimit : p.length + 16 ≤ kProfileImageLimit)
    (hmode : p.getD 38 0 = 4 ∧ trigger ≠ 0 ∨ p.getD 38 0 = 0 ∧ trigger = 0) :
    SameImage p (extend p trigger) format := by
  have havailable := hp.available
  have hlegacy := legacyBytes_cases p
  have hle := le_headerBytes p
  have h : legacyBytes p ≤ p.length := by omega
  have hbytes : headerBytes p = legacyBytes p := by
    rw [headerBytes, if_neg (by rw [hversion]; exact Bool.false_ne_true), Nat.add_zero]
  have hbytes' : headerBytes (extend p trigger) = legacyBytes p + 16 := by
    rw [extend_eq, headerBytes_relabel h, if_pos rfl]
  refine ⟨headerAccepted_extend hp hversion hlimit hmode, ?_, ?_, fun hrice => ?_, ?_⟩
  · rw [length_extend h]
    exact hlimit
  · rw [hbytes', hbytes]
    exact drop_extend h
  · have hrows : legacyBytes p = 64 := if_pos hrice
    rw [extend_eq, le32At_relabel h _ (by decide) (by omega)]
  · rw [extend_eq]
    exact sameFields_relabel h _

theorem sameImage_withoutExtension (hp : HeaderAccepted p p.length format)
    (hversion : isExtended p = true) (hlimit : p.length ≤ kProfileImageLimit) :
    SameImage p (withoutExtension p) format := by
  have havailable := hp.available
  have hlegacy := legacyBytes_cases p
  have hbytes : headerBytes p = legacyBytes p + 16 := by rw [headerBytes, if_pos hversion]
  have h : legacyBytes p ≤ p.length := by omega
  have hbytes' : headerBytes (withoutExtension p) = legacyBytes p := by
    rw [withoutExtension, headerBytes_relabel h, if_neg (by decide), Nat.add_zero]
  refine ⟨headerAccepted_withoutExtension hp hversion, (length_withoutExtension h).trans hlimit, ?_,
    fun hrice => ?_, sameFields_relabel h _⟩
  · rw [hbytes', hbytes]
    exact drop_withoutExtension h
  · have hrows : legacyBytes p = 64 := if_pos hrice
    exact le32At_relabel h _ (by decide) (by omega)

theorem headerTrigger_withoutExtension (h : legacyBytes p ≤ p.length) :
    headerTrigger (withoutExtension p) = 0 := by
  rw [withoutExtension, headerTrigger, isExtended_relabel h]
  rfl

end SameImage

/-- What is accepted has an accepted header in one of the formats. -/
theorem decodeRaw12_same {z : Zstd} {p q : List UInt8} {format : UInt8} {r : Raw12Image}
    (h : decodeRaw12 z p format = .ok r)
    (hsame : ∀ f, HeaderAccepted p p.length f → p.length ≤ kProfileImageLimit →
      p.getD 38 0 = r.timingMode → SameImage p q f) :
    decodeRaw12 z q format = .ok { r with triggerSequence := headerTrigger q } := by
  rw [decodeRaw12_iff] at h ⊢
  rcases h with ⟨hformat, hdecode⟩ | ⟨hformat, hdecode⟩
  · obtain ⟨packed, henvelope, hr⟩ := (decodeRaw12Zstd_iff z p r).1 hdecode
    exact Or.inl ⟨hformat, (hsame kRaw12Zstd henvelope.header henvelope.limit
      (by rw [hr]; rfl)).decodeZstd hdecode⟩
  · obtain ⟨blocks, henvelope, hr⟩ := (decodeRaw12Rice_iff p r).1 hdecode
    exact Or.inr ⟨hformat, (hsame kRaw12Rice henvelope.header henvelope.limit
      (by rw [hr]; rfl)).decodeRice hdecode⟩

/-- The extension changes nothing but the trigger group: put into an accepted version 1
envelope, or taken out of an accepted version 2 envelope, it leaves an accepted one with
the same image. -/
theorem extension_transparent (z : Zstd) (bytes : List UInt8) (format : UInt8) (r : Raw12Image)
    (h : decodeRaw12 z bytes format = .ok r) :
    (bytes.getD 4 0 = 1 → bytes.length + 16 ≤ kProfileImageLimit → ∀ t : UInt32,
      r.timingMode = 0 ∧ t = 0 ∨ r.timingMode = 4 ∧ t ≠ 0 →
        decodeRaw12 z (extend bytes t) format = .ok { r with triggerSequence := t }) ∧
      (bytes.getD 4 0 = 2 →
        decodeRaw12 z (withoutExtension bytes) format = .ok { r with triggerSequence := 0 }) := by
  have hlegacy : legacyBytes bytes ≤ bytes.length := by
    have hbound : ∀ {f}, HeaderAccepted bytes bytes.length f → legacyBytes bytes ≤ bytes.length :=
      fun haccepted => (le_headerBytes bytes).trans haccepted.available
    rcases (decodeRaw12_iff z bytes format r).1 h with ⟨-, hdecode⟩ | ⟨-, hdecode⟩
    · obtain ⟨packed, henvelope, -⟩ := (decodeRaw12Zstd_iff z bytes r).1 hdecode
      exact hbound henvelope.header
    · obtain ⟨blocks, henvelope, -⟩ := (decodeRaw12Rice_iff bytes r).1 hdecode
      exact hbound henvelope.header
  constructor
  · intro hversion hlimit t hmode
    have hone : isExtended bytes = false := by
      rw [isExtended, hversion]
      decide
    have hdecode := decodeRaw12_same h (q := extend bytes t) fun f haccepted _ htiming =>
      sameImage_extend haccepted hone hlimit (by rw [htiming]; exact hmode.symm)
    rwa [headerTrigger_extend hlegacy] at hdecode
  · intro hversion
    have htwo : isExtended bytes = true := decide_eq_true hversion
    have hdecode := decodeRaw12_same h (q := withoutExtension bytes) fun f haccepted hlimit _ =>
      sameImage_withoutExtension haccepted htwo hlimit
    rwa [headerTrigger_withoutExtension hlegacy] at hdecode

/-- A library that knows no frame. -/
def noZstd : Zstd where
  getFrameContentSize _ := 0
  findFrameCompressedSize _ := 0
  decompress capacity _ := (0, ⟨List.replicate capacity 0, List.length_replicate⟩)
  isError _ := true
  getErrorName _ := "unknown frame"

/-- A black image with its extension. -/
theorem blank_extension_transparent :
    decodeRaw12 noZstd (extend (encodeRaw12Rice blankBlocks) 0) 0 =
      .ok (raw12ImageOf (encodeRaw12Rice blankBlocks) 0 (packSamples (image blankBlocks))) := by
  have henvelope := riceEnvelope_encode length_blankBlocks
  have hsize : (encodeRaw12Rice blankBlocks).length + 16 ≤ kProfileImageLimit := by
    have hle := length_written_le blankBlocks
    have hcount : pixels / 256 = 61440 := by decide
    rw [length_blankBlocks, hcount] at hle
    rw [encodeRaw12Rice, List.length_append, length_riceHeader, kProfileImageLimit]
    omega
  have hdecode : decodeRaw12 noZstd (encodeRaw12Rice blankBlocks) 0 =
      .ok (raw12ImageOf (encodeRaw12Rice blankBlocks) 0 (packSamples (image blankBlocks))) :=
    (decodeRaw12_iff _ _ _ _).2 (Or.inr ⟨Or.inl rfl, decodeRaw12Rice_encode length_blankBlocks⟩)
  exact (extension_transparent noZstd _ 0 _ hdecode).1 rfl hsize 0 (Or.inl ⟨rfl, rfl⟩)

end PrismSdk.ProfileVideo
