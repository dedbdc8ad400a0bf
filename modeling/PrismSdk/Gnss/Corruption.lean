import PrismSdk.Gnss.Apply
import PrismSdk.Library.CrcErrors
import PrismSdk.ProfileVideo.Crc32

/-! Sentences that were damaged on the way. An accepted sentence is a body, a star and the
digits of a checksum; a change of one character of the body, or of four in a row where the
checksum is a CRC, is always noticed, and a sentence that is not accepted is only counted. -/

namespace PrismSdk.Gnss

open Library.Crc (errors)
open ProfileVideo (ieee)

/-! ### What is accepted -/

/-- The checksum is a CRC. -/
def isAdrnav (s : Text) : Bool := (ascii "#ADRNAVA,").isPrefixOf s

/-- The byte of the star. -/
abbrev star : UInt8 := '*'.toUInt8

/-- The sentence is accepted with this body and these digits. -/
structure Sealed (s body digits : Text) : Prop where
  split : s = body ++ star :: digits
  first : star ∉ body
  size : s.length ≤ 1023
  width : digits.length = if isAdrnav s then 8 else 2
  start : isAdrnav s = true ∨ s.head? = some '$'.toUInt8
  sum : ∃ expected, expectedChecksum digits = some expected ∧
    bodyChecksum (isAdrnav s) (body.drop 1) = some expected

theorem idxOf?_star {body digits : Text} (h : star ∉ body) :
    (body ++ star :: digits).idxOf? star = some body.length := by
  rw [List.idxOf?_eq_some_iff]
  refine ⟨by simp, by simp, fun j hj => ?_⟩
  rw [List.getElem_append_left hj]
  exact fun heq => h (heq ▸ List.getElem_mem hj)

theorem checksum_split {s body digits : Text} (hs : s = body ++ star :: digits)
    (hfirst : star ∉ body) : checksum s = true ↔ Sealed s body digits := by
  have hindex : s.idxOf? '*'.toUInt8 = some body.length := by
    rw [hs]
    exact idxOf?_star hfirst
  have htake : s.take body.length = body := by rw [hs, List.take_left' rfl]
  have hdrop : s.drop (body.length + 1) = digits := by
    rw [hs, ← List.drop_drop, List.drop_left' rfl]
    rfl
  have hlength : s.length = body.length + (digits.length + 1) := by
    rw [hs, List.length_append, List.length_cons]
  have hwidth : body.length + (if isAdrnav s then 9 else 3) = s.length ↔
      digits.length = if isAdrnav s then 8 else 2 := by
    rw [hlength]
    split_ifs <;> omega
  unfold checksum
  rw [hindex]
  dsimp only
  rw [htake, hdrop, ← isAdrnav]
  by_cases hgate : s.length > 1023 ∨ body.length + (if isAdrnav s then 9 else 3) ≠ s.length ∨
      (!isAdrnav s ∧ s.head? ≠ some '$'.toUInt8)
  · rw [if_pos hgate]
    refine ⟨fun h => absurd h Bool.false_ne_true, fun h => ?_⟩
    rcases hgate with hgate | hgate | ⟨hkind, hhead⟩
    · exact absurd h.size (not_le.2 hgate)
    · exact absurd (hwidth.2 h.width) hgate
    · rcases h.start with hadr | hdollar
      · rw [hadr] at hkind
        cases hkind
      · exact absurd hdollar hhead
  · rw [if_neg hgate]
    simp only [not_or, not_lt, Ne, not_not, not_and, gt_iff_lt,
      Bool.not_eq_true'] at hgate
    obtain ⟨hsize, hwide, hstart⟩ := hgate
    have hhead : isAdrnav s = true ∨ s.head? = some '$'.toUInt8 := by
      cases hadr : isAdrnav s with
      | true => exact .inl rfl
      | false => exact .inr (hstart hadr)
    cases hexpected : expectedChecksum digits with
    | none =>
      refine ⟨fun h => absurd h Bool.false_ne_true, fun h => ?_⟩
      obtain ⟨expected, hsome, -⟩ := h.sum
      rw [hexpected] at hsome
      cases hsome
    | some expected =>
      dsimp only
      rw [beq_iff_eq]
      constructor
      · exact fun h => ⟨hs, hfirst, hsize, hwidth.1 hwide, hhead, expected, hexpected, h⟩
      · intro h
        obtain ⟨expected', hsome, hsum⟩ := h.sum
        rw [hexpected, Option.some.injEq] at hsome
        rw [hsum, hsome]

theorem checksum_iff (s : Text) : checksum s = true ↔ ∃ body digits, Sealed s body digits := by
  constructor
  · intro h
    have hmem : star ∈ s := by
      by_contra hnone
      rw [checksum, List.idxOf?_eq_none_iff.2 hnone] at h
      exact Bool.false_ne_true h
    obtain ⟨body, digits, hs, hfirst⟩ := List.eq_append_cons_of_mem hmem
    exact ⟨body, digits, (checksum_split hs hfirst).1 h⟩
  · rintro ⟨body, digits, h⟩
    exact (checksum_split h.split h.first).2 h

/-! ### The sums -/

theorem toBitVec_checksumBit (crc : UInt32) :
    (checksumBit crc).toBitVec = Library.Crc.shift ieee crc.toBitVec := by
  have hlow : crc.toBitVec &&& 1#32 = (BitVec.ofBool (crc.toBitVec.getLsbD 0)).setWidth 32 :=
    BitVec.and_one_eq_setWidth_ofBool_getLsbD
  have hbit : (crc &&& 1 ≠ 0) ↔ crc.toBitVec.getLsbD 0 = true := by
    rw [Ne, ← UInt32.toBitVec_inj]
    change ¬ crc.toBitVec &&& 1#32 = 0#32 ↔ _
    rw [hlow]
    cases crc.toBitVec.getLsbD 0 <;> decide
  unfold checksumBit Library.Crc.shift
  by_cases h : crc.toBitVec.getLsbD 0 = true
  · rw [if_pos (hbit.2 h), if_pos h]
    rfl
  · rw [if_neg (hbit.not.2 h), if_neg h]
    rfl

theorem toBitVec_checksumByte (crc : UInt32) (c : UInt8) :
    (checksumByte true crc c).toBitVec = Library.Crc.feed ieee crc.toBitVec c.toBitVec := by
  have hbits : ∀ n (x : UInt32), (checksumBit^[n] x).toBitVec =
      Library.Crc.shifts ieee n x.toBitVec := by
    intro n
    induction n with
    | zero => exact fun _ => rfl
    | succ n ih =>
      intro x
      rw [Function.iterate_succ_apply, ih, toBitVec_checksumBit]
      rfl
  exact hbits 8 _

/-- A printable body has the sum of its bytes. -/
theorem bodyChecksum_eq_some {adr : Bool} {body : Text} {crc : UInt32}
    (h : bodyChecksum adr body = some crc) : crc = body.foldl (checksumByte adr) 0 := by
  unfold bodyChecksum at h
  generalize (0 : UInt32) = start at h ⊢
  induction body generalizing start with
  | nil => exact (Option.some.inj h).symm
  | cons c body ih =>
    rw [List.foldlM_cons] at h
    split_ifs at h with hprintable
    · cases h
    · exact ih _ h

theorem toBitVec_crc (body : Text) (crc : UInt32) :
    (body.foldl (checksumByte true) crc).toBitVec =
      Library.Crc.feedAll ieee crc.toBitVec (body.map UInt8.toBitVec) := by
  induction body generalizing crc with
  | nil => rfl
  | cons c body ih =>
    rw [List.foldl_cons, ih, toBitVec_checksumByte]
    rfl

/-! ### Damage -/

/-- The places where two texts differ are among the `n` from `p` on. -/
def Within (p n : ℕ) (xs ys : Text) : Prop := ∀ i, ys[i]? ≠ xs[i]? → p ≤ i ∧ i < p + n

variable {p n : ℕ} {xs ys : Text}

theorem Within.tail {x : UInt8} (h : Within p n (x :: xs) (x :: ys)) : Within (p - 1) n xs ys := by
  intro i hi
  have hplace := h (i + 1) (by simpa using hi)
  omega

/-- Four bytes in a row are a burst of 32 bits. -/
theorem Within.errors_subset (h : Within p n xs ys) (hn : n ≤ 4) :
    errors xs ys ⊆ Finset.Ico (8 * p) (8 * p + 32) := by
  intro i hi
  obtain ⟨-, hne⟩ := Library.Crc.mem_errors.1 hi
  have hbyte : ys[i / 8]? ≠ xs[i / 8]? := by
    intro heq
    rw [List.getD_eq_getElem?_getD, List.getD_eq_getElem?_getD, heq] at hne
    exact hne rfl
  have hplace := h _ hbyte
  exact Finset.mem_Ico.2 ⟨by omega, by omega⟩

/-- The CRC notices four characters in a row. -/
theorem crc_ne (hlen : ys.length = xs.length) (hne : ys ≠ xs) (h : Within p n xs ys)
    (hn : n ≤ 4) (crc : UInt32) :
    xs.foldl (checksumByte true) crc ≠ ys.foldl (checksumByte true) crc := by
  intro heq
  have hregister := congrArg UInt32.toBitVec heq
  rw [toBitVec_crc, toBitVec_crc] at hregister
  exact Library.Crc.feedAll_ne_of_burst (by decide) (by decide) _ hlen.symm hne.symm
    (h.errors_subset hn) hregister

theorem xorSum_injective (xs : Text) {a b : UInt32}
    (h : xs.foldl (checksumByte false) a = xs.foldl (checksumByte false) b) : a = b := by
  induction xs generalizing a b with
  | nil => exact h
  | cons x xs ih => exact (UInt32.xor_left_inj _).1 (ih h)

/-- The sum of the other sentences notices one character. -/
theorem xorSum_ne (hlen : ys.length = xs.length) (hne : ys ≠ xs) (h : Within p 1 xs ys)
    (crc : UInt32) :
    xs.foldl (checksumByte false) crc ≠ ys.foldl (checksumByte false) crc := by
  induction xs generalizing ys p crc with
  | nil => exact absurd (List.length_eq_zero_iff.1 hlen) hne
  | cons x xs ih =>
    obtain ⟨y, ys, rfl⟩ := List.exists_cons_of_length_eq_add_one hlen
    by_cases hxy : y = x
    · subst hxy
      exact ih (Nat.succ.inj hlen) (fun heq => hne (by rw [heq])) h.tail _
    · -- The one place is the first, and the rest is the same.
      have hzero := h 0 (by simpa using hxy)
      have hrest : ys = xs := by
        refine List.ext_getElem? fun i => ?_
        by_contra hi
        have hplace := h (i + 1) (by simpa using hi)
        omega
      intro heq
      rw [List.foldl_cons, List.foldl_cons, hrest] at heq
      have hbyte := (UInt32.xor_right_inj _).1 (xorSum_injective xs heq)
      exact hxy (UInt8.toUInt32_inj.1 hbyte.symm)

/-! ### Damaged sentences -/

variable {s t body body' digits digits' : Text}

/-- A sentence starts with the mark of its kind, and it is in the body. -/
theorem Sealed.head (h : Sealed s body digits) :
    body.head? = some (if isAdrnav s then '#'.toUInt8 else '$'.toUInt8) := by
  have hstart : s.head? = some (if isAdrnav s then '#'.toUInt8 else '$'.toUInt8) := by
    by_cases hadr : isAdrnav s
    · rw [if_pos hadr]
      obtain ⟨rest, hrest⟩ := List.isPrefixOf_iff_prefix.1 hadr
      rw [← hrest]
      rfl
    · rw [if_neg hadr]
      exact h.start.resolve_left hadr
  have hmark : (if isAdrnav s then '#'.toUInt8 else '$'.toUInt8) ≠ star := by
    split_ifs <;> decide
  generalize (if isAdrnav s then '#'.toUInt8 else '$'.toUInt8) = mark at hstart hmark ⊢
  rw [h.split] at hstart
  cases body with
  | nil => exact absurd (Option.some.inj hstart).symm hmark
  | cons c body => exact hstart

/-- The rest of a body, when two of one kind have the same length and differ. -/
theorem Sealed.drop_ne (h : Sealed s body digits) (h' : Sealed t body' digits)
    (hkind : isAdrnav t = isAdrnav s) (hne : body' ≠ body) : body'.drop 1 ≠ body.drop 1 := by
  have hhead := h.head
  have hhead' := h'.head
  rw [hkind, ← hhead] at hhead'
  intro hdrop
  apply hne
  cases body with
  | nil => cases hhead
  | cons c body =>
    cases body' with
    | nil => cases hhead'
    | cons c' body' => exact congrArg₂ List.cons (Option.some.inj hhead') hdrop

/-- With the star in its place the sums differ. -/
theorem Sealed.not_resealed (h : Sealed s body digits) (hlen : body'.length = body.length)
    (hne : body' ≠ body) (hwithin : Within p n body body')
    (hn : n = 1 ∨ n = 4 ∧ isAdrnav s = true) : ¬ Sealed t body' digits := by
  intro h'
  have hwidth := h'.width
  rw [h.width] at hwidth
  have hkind : isAdrnav t = isAdrnav s := by
    cases hs : isAdrnav s <;> cases ht : isAdrnav t <;> simp [hs, ht] at hwidth ⊢
  obtain ⟨expected, hexpected, hsum⟩ := h.sum
  obtain ⟨expected', hexpected', hsum'⟩ := h'.sum
  rw [hexpected, Option.some.injEq] at hexpected'
  have hfolds := (bodyChecksum_eq_some hsum).symm.trans
    (hexpected'.trans (bodyChecksum_eq_some hsum'))
  have hrest := h.drop_ne h' hkind hne
  have hlengths : (body'.drop 1).length = (body.drop 1).length := by
    rw [List.length_drop, List.length_drop, hlen]
  have htail : Within (p - 1) n (body.drop 1) (body'.drop 1) := by
    intro i hi
    rw [List.getElem?_drop, List.getElem?_drop] at hi
    have hplace := hwithin (1 + i) hi
    omega
  rw [hkind] at hfolds
  cases hadr : isAdrnav s with
  | true =>
    rw [hadr] at hfolds
    exact crc_ne hlengths hrest htail (by omega) 0 hfolds
  | false =>
    rw [hadr] at hfolds hn
    obtain rfl : n = 1 := hn.resolve_right fun h => Bool.false_ne_true h.2
    exact xorSum_ne hlengths hrest htail 0 hfolds

/-- A new star before the old one leaves the wrong number of digits, unless the first
character changes as well. -/
theorem Sealed.not_shortened (h : Sealed s body digits) (hwithin : Within p n body body')
    (hn : n = 1 ∨ n = 4 ∧ isAdrnav s = true) {front back : Text}
    (hsplit : body' = front ++ star :: back) : ¬ Sealed t front (back ++ star :: digits) := by
  intro h'
  have hwidth := h.width
  have hwidth' := h'.width
  rw [List.length_append, List.length_cons] at hwidth'
  cases hadr : isAdrnav s with
  | true =>
    rw [hadr, if_pos rfl] at hwidth
    split_ifs at hwidth' <;> omega
  | false =>
    rw [hadr] at hwidth hn
    obtain rfl : n = 1 := hn.resolve_right fun h => Bool.false_ne_true h.2
    rw [if_neg Bool.false_ne_true] at hwidth
    have hadr' : isAdrnav t = true := by
      by_contra hplain
      rw [if_neg hplain] at hwidth'
      omega
    -- The first characters differ, so that the first place is the only one.
    have hhead := h.head
    have hhead' := h'.head
    rw [hadr, if_neg Bool.false_ne_true, List.head?_eq_getElem?] at hhead
    rw [hadr', if_pos rfl] at hhead'
    cases front with
    | nil => cases hhead'
    | cons c front =>
      obtain rfl := Option.some.inj hhead'
      have hzero := hwithin 0 (by
        rw [hsplit, hhead]
        exact show some '#'.toUInt8 ≠ some '$'.toUInt8 by decide)
      have hstar : body'[front.length + 1]? = some star := by
        rw [hsplit]
        simp
      have hplace := hwithin (front.length + 1) (by
        rw [hstar]
        intro heq
        exact h.first (List.mem_of_getElem? heq.symm))
      omega

/-- A damaged sentence is rejected. -/
theorem Sealed.damaged (h : Sealed s body digits) (hlen : body'.length = body.length)
    (hne : body' ≠ body) (hwithin : Within p n body body')
    (hn : n = 1 ∨ n = 4 ∧ isAdrnav s = true) : checksum (body' ++ star :: digits) = false := by
  rw [← Bool.not_eq_true]
  intro haccepted
  by_cases hmem : star ∈ body'
  · obtain ⟨front, back, rfl, hfirst⟩ := List.eq_append_cons_of_mem hmem
    have hsealed := (checksum_split
      (show front ++ star :: back ++ star :: digits = front ++ star :: (back ++ star :: digits) by
        rw [List.append_assoc, List.cons_append]) hfirst).1 haccepted
    exact h.not_shortened hwithin hn rfl hsealed
  · exact h.not_resealed hlen hne hwithin hn ((checksum_split rfl hmem).1 haccepted)

/-! ### What a rejected record does -/

namespace Model

variable {D : Type} [Double D]

/-- The model with one more record counted as rejected. -/
def reject (m : Model D) : Model D := { m with rejected := m.rejected + 1 }

/-- The count of rejected records has no influence on what a sentence does. -/
theorem interpret_reject (m : Model D) (s : Sentence D) :
    m.reject.interpret s = (m.interpret s).reject := by
  cases s with
  | corrupt => rfl
  | ignored => rfl
  | gsa system used => rfl
  | gsvMisfit key => rfl
  | adrnav p =>
    obtain ⟨horigin, hsegment, hnext⟩ := append_congr m.reject m rfl rfl p m.rtkTrack m.lastRtk
    rw [interpret_adrnav, interpret_adrnav, show m.reject.rtkTrack = m.rtkTrack from rfl,
      show m.reject.lastRtk = m.lastRtk from rfl, horigin, hsegment, hnext]
    rfl
  | gga p =>
    obtain ⟨horigin, hsegment, hnext⟩ := append_congr m.reject m rfl rfl p m.gnssTrack m.lastGga
    rw [interpret_gga, interpret_gga, show m.reject.gnssTrack = m.gnssTrack from rfl,
      show m.reject.lastGga = m.lastGga from rfl, horigin, hsegment, hnext]
    rfl
  | gsv g =>
    obtain ⟨hpending, hcomplete⟩ := addPart_congr m.reject m rfl rfl g
    rw [interpret, interpret, addPart_eq m.reject, addPart_eq m, hpending, hcomplete]
    rfl

theorem sentence_reject (m : Model D) (r : GnssObservation) :
    m.reject.sentence r = (m.sentence r).reject := m.interpret_reject _

theorem sentences_reject (m : Model D) (rs : List GnssObservation) :
    rs.foldl sentence m.reject = (rs.foldl sentence m).reject := by
  induction rs generalizing m with
  | nil => rfl
  | cons r rs ih => rw [List.foldl_cons, sentence_reject, ih, List.foldl_cons]

theorem sentence_of_corrupt {r : GnssObservation} (h : checksum r.sentence = false)
    (m : Model D) : m.sentence r = m.reject := by
  rw [sentence, readSentence, h]
  rfl

/-- A batch with a corrupted record that is heard does what it does without the record, and
counts one more. -/
theorem apply_corrupt {m : Model D} {b : GnssObservations} {before after : List GnssObservation}
    {r : GnssObservation} (hrecords : b.records = before ++ r :: after)
    (hheard : Hears (m.enter b.session).cursor b.deviceMonotonicMs b.gap r = true)
    (h : checksum r.sentence = false) :
    m.apply b = (m.apply { b with records := before ++ after }).reject := by
  have hstart : m.start { b with records := before ++ after } = m.start b := rfl
  have hsplit : m.heard b = before.filter (Hears (m.enter b.session).cursor b.deviceMonotonicMs b.gap)
      ++ r :: after.filter (Hears (m.enter b.session).cursor b.deviceMonotonicMs b.gap) := by
    rw [heard, hrecords, List.filter_append, List.filter_cons, if_pos hheard]
  rw [apply_eq, apply_eq, hstart, hsplit, heard]
  dsimp only
  rw [List.filter_append, List.foldl_append, List.foldl_append, List.foldl_cons,
    sentence_of_corrupt h, sentences_reject]
  rfl

end Model

theorem Sealed.idxOf_star (h : Sealed s body digits) : s.idxOf star = body.length := by
  rw [h.split, List.idxOf_append_of_notMem h.first, List.idxOf_cons_self, Nat.add_zero]

/-- Damage before the star is caught: one character of any accepted sentence, or four in a
row of an ADRNAV sentence. An `apply` that interprets the damaged record does what it does
without the record, and counts it as rejected. -/
theorem corruption_caught (D : Type) [Double D] (s t : Text) (haccepted : checksum s = true)
    (hlen : t.length = s.length) (hne : t ≠ s)
    (hbefore : ∀ i, t[i]? ≠ s[i]? → i < s.idxOf '*'.toUInt8)
    (hspan : ∃ p, Within p 1 s t ∨ isAdrnav s = true ∧ Within p 4 s t) :
    checksum t = false ∧
      ∀ (m : Model D) (b : GnssObservations) (before after : List GnssObservation)
        (r : GnssObservation), b.records = before ++ r :: after → r.sentence = t →
        Model.Hears (m.enter b.session).cursor b.deviceMonotonicMs b.gap r = true →
        m.apply b = { m.apply { b with records := before ++ after } with
          rejected := (m.apply { b with records := before ++ after }).rejected + 1 } := by
  obtain ⟨body, digits, h⟩ := (checksum_iff s).1 haccepted
  have hrest : t.drop body.length = star :: digits := by
    have hsame : t.drop body.length = s.drop body.length := by
      refine List.ext_getElem? fun i => ?_
      rw [List.getElem?_drop, List.getElem?_drop]
      by_contra hi
      have hlt := hbefore _ hi
      rw [h.idxOf_star] at hlt
      omega
    rw [hsame, h.split, List.drop_left' rfl]
  have ht : t = t.take body.length ++ star :: digits := by rw [← hrest, List.take_append_drop]
  have hsplit := h.split
  have hbody : (t.take body.length).length = body.length := by
    rw [List.length_take, hlen, hsplit, List.length_append]
    omega
  have hbodies : t.take body.length ≠ body := by
    intro heq
    rw [heq] at ht
    exact hne (ht.trans hsplit.symm)
  have hwithin : ∀ p n, Within p n s t → Within p n body (t.take body.length) := by
    intro p n hst i hi
    by_cases hlt : i < body.length
    · refine hst i ?_
      rw [List.getElem?_take_of_lt hlt] at hi
      rwa [hsplit, List.getElem?_append_left hlt]
    · rw [List.getElem?_eq_none (by omega), List.getElem?_eq_none (by omega)] at hi
      exact absurd rfl hi
  have hrejected : checksum t = false := by
    rw [ht]
    obtain ⟨p, hone | ⟨hadr, hfour⟩⟩ := hspan
    · exact h.damaged hbody hbodies (hwithin p 1 hone) (.inl rfl)
    · exact h.damaged hbody hbodies (hwithin p 4 hfour) (.inr ⟨rfl, hadr⟩)
  refine ⟨hrejected, fun m b before after r hrecords hr hheard => ?_⟩
  exact Model.apply_corrupt hrecords hheard (hr ▸ hrejected)

theorem within_set (s : Text) (n : ℕ) (c : UInt8) : Within n 1 s (s.set n c) := by
  intro i hi
  by_contra hother
  rw [List.getElem?_set_ne (by omega)] at hi
  exact hi rfl

theorem corruption_caught_letter : checksum ((ascii "$A*41").set 1 'B'.toUInt8) = false :=
  (corruption_caught Rat (ascii "$A*41") ((ascii "$A*41").set 1 'B'.toUInt8) (by decide)
    (by decide) (by decide) (fun i hi => ((within_set _ 1 _) i hi).2)
    ⟨1, .inl (within_set _ 1 _)⟩).1

end PrismSdk.Gnss
