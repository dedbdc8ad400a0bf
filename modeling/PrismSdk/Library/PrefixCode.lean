import PrismSdk.Library.BitStream

/-! Codes that say themselves where they end. Reading a code word off the front of a
stream and writing it are inverse to each other in both directions: what is written
is read back, and whatever is read was written by exactly one value. Fixed-width,
unary and Rice codes, and sequences of them. -/

namespace PrismSdk.Library

open BitStream (bits value)

/-- A code: which values it has, their words, and the reader. -/
structure PrefixCode (α : Type*) where
  Valid : α → Prop
  write : α → List Bool
  read : List Bool → Option (α × List Bool)
  read_eq_some : ∀ {s a rest}, read s = some (a, rest) ↔ Valid a ∧ s = write a ++ rest

namespace PrefixCode

variable {α β : Type*}

theorem read_write (c : PrefixCode α) {a : α} (h : c.Valid a) (rest : List Bool) :
    c.read (c.write a ++ rest) = some (a, rest) := c.read_eq_some.2 ⟨h, rfl⟩

/-- `count` bits, the least significant first. -/
def fixed (count : ℕ) : PrefixCode ℕ where
  Valid v := v < 2 ^ count
  write := bits count
  read s := if count ≤ s.length then some (value (s.take count), s.drop count) else none
  read_eq_some {s v rest} := by
    constructor
    · intro h
      split_ifs at h with hlen
      obtain ⟨rfl, rfl⟩ : value (s.take count) = v ∧ s.drop count = rest := by simpa using h
      have htake : (s.take count).length = count := by simpa using hlen
      have hlt := BitStream.value_lt (s.take count)
      have hbits := BitStream.bits_value (s.take count)
      rw [htake] at hlt hbits
      exact ⟨hlt, by rw [hbits, List.take_append_drop]⟩
    · rintro ⟨hlt, rfl⟩
      have hlen := BitStream.length_bits count v
      rw [if_pos (by rw [List.length_append]; omega), List.take_left' hlen, List.drop_left' hlen,
        BitStream.value_bits hlt]

@[simp] theorem length_fixed (count v : ℕ) : ((fixed count).write v).length = count :=
  BitStream.length_bits count v

theorem read_fixed_eq_none {count : ℕ} {s : List Bool} :
    (fixed count).read s = none ↔ s.length < count := by
  show (if count ≤ s.length then some _ else none) = none ↔ _
  rw [← Nat.not_le]
  split_ifs with h <;> simp [h]

theorem read_fixed_one (b : Bool) (s : List Bool) :
    (fixed 1).read (b :: s) = some (b.toNat, s) := by
  cases b <;> simp [fixed, value]

/-- Zeros up to a one, and at most `limit` of them. -/
def readUnary : ℕ → List Bool → Option (ℕ × List Bool)
  | _, [] => none
  | _, true :: s => some (0, s)
  | 0, false :: _ => none
  | limit + 1, false :: s => (readUnary limit s).map fun (n, rest) => (n + 1, rest)

def writeUnary (n : ℕ) : List Bool := List.replicate n false ++ [true]

theorem readUnary_eq_some {limit n : ℕ} {s rest : List Bool} :
    readUnary limit s = some (n, rest) ↔ n ≤ limit ∧ s = writeUnary n ++ rest := by
  fun_induction readUnary limit s generalizing n with
  | case1 => simp [writeUnary]
  | case2 limit s =>
    cases n with
    | zero => simp [writeUnary, eq_comm]
    | succ n => simp [writeUnary, List.replicate_succ]
  | case3 s =>
    cases n with
    | zero => simp [writeUnary]
    | succ n => simp
  | case4 limit s ih =>
    cases n with
    | zero => simp [writeUnary]
    | succ n =>
      have hmap : (readUnary limit s).map (fun (n, rest) => (n + 1, rest)) = some (n + 1, rest) ↔
          readUnary limit s = some (n, rest) := by
        simp [Option.map_eq_some_iff]
      rw [hmap, ih]
      simp [writeUnary, List.replicate_succ]

def unary (limit : ℕ) : PrefixCode ℕ where
  Valid n := n ≤ limit
  write := writeUnary
  read := readUnary limit
  read_eq_some := readUnary_eq_some

/-- One code after another. -/
def pair (c : PrefixCode α) (d : PrefixCode β) : PrefixCode (α × β) where
  Valid p := c.Valid p.1 ∧ d.Valid p.2
  write p := c.write p.1 ++ d.write p.2
  read s :=
    (c.read s).bind fun p => (d.read p.2).map fun q => ((p.1, q.1), q.2)
  read_eq_some {s p rest} := by
    constructor
    · intro h
      obtain ⟨⟨a, t⟩, ha, h⟩ := Option.bind_eq_some_iff.1 h
      obtain ⟨⟨b, u⟩, hb, h⟩ := Option.map_eq_some_iff.1 h
      cases h
      obtain ⟨hva, rfl⟩ := c.read_eq_some.1 ha
      obtain ⟨hvb, rfl⟩ := d.read_eq_some.1 hb
      exact ⟨⟨hva, hvb⟩, (List.append_assoc _ _ _).symm⟩
    · rintro ⟨⟨ha, hb⟩, rfl⟩
      rw [List.append_assoc, c.read_write ha, Option.bind_some, d.read_write hb, Option.map_some]

/-- The values of a code under other names. -/
def map (c : PrefixCode α) (f : α → β) (g : β → α) (hg : ∀ a, c.Valid a → g (f a) = a) :
    PrefixCode β where
  Valid b := c.Valid (g b) ∧ f (g b) = b
  write b := c.write (g b)
  read s := (c.read s).map fun (a, rest) => (f a, rest)
  read_eq_some {s b rest} := by
    constructor
    · intro h
      obtain ⟨⟨a, t⟩, ha, h⟩ := Option.map_eq_some_iff.1 h
      cases h
      obtain ⟨hva, rfl⟩ := c.read_eq_some.1 ha
      rw [hg a hva]
      exact ⟨⟨hva, rfl⟩, rfl⟩
    · rintro ⟨⟨ha, hb⟩, rfl⟩
      rw [c.read_write ha, Option.map_some]
      exact congrArg (fun b => some (b, rest)) hb

/-- The Rice code: the quotient by `2 ^ k` in unary, then the remainder. -/
def rice (k limit : ℕ) : PrefixCode ℕ :=
  ((unary limit).pair (fixed k)).map (fun p => p.1 * 2 ^ k + p.2) (fun v => (v / 2 ^ k, v % 2 ^ k))
    (by
      rintro ⟨n, low⟩ ⟨-, hlow⟩
      have hlow : low < 2 ^ k := hlow
      have hdiv : (n * 2 ^ k + low) / 2 ^ k = n := by
        rw [Nat.mul_comm, Nat.mul_add_div (Nat.two_pow_pos k), Nat.div_eq_of_lt hlow, Nat.add_zero]
      have hmod : (n * 2 ^ k + low) % 2 ^ k = low := by
        rw [Nat.mul_comm, Nat.mul_add_mod, Nat.mod_eq_of_lt hlow]
      exact Prod.ext hdiv hmod)

@[simp] theorem rice_valid (k limit v : ℕ) : (rice k limit).Valid v ↔ v / 2 ^ k ≤ limit := by
  constructor
  · rintro ⟨⟨hv, -⟩, -⟩
    exact hv
  · intro h
    exact ⟨⟨h, Nat.mod_lt v (Nat.two_pow_pos k)⟩, Nat.div_add_mod' v (2 ^ k)⟩

@[simp] theorem length_rice (k limit v : ℕ) :
    ((rice k limit).write v).length = v / 2 ^ k + 1 + k := by
  change (writeUnary (v / 2 ^ k) ++ bits k (v % 2 ^ k)).length = _
  rw [List.length_append, BitStream.length_bits, writeUnary, List.length_append,
    List.length_replicate, List.length_singleton]

/-! ### Sequences -/

def readSeq (c : PrefixCode α) : ℕ → List Bool → Option (List α × List Bool)
  | 0, s => some ([], s)
  | n + 1, s => (c.read s).bind fun p => (readSeq c n p.2).map fun q => (p.1 :: q.1, q.2)

theorem readSeq_eq_some (c : PrefixCode α) {n : ℕ} {s rest : List Bool} {l : List α} :
    c.readSeq n s = some (l, rest) ↔
      (l.length = n ∧ ∀ a ∈ l, c.Valid a) ∧ s = l.flatMap c.write ++ rest := by
  induction n generalizing s l with
  | zero =>
    cases l with
    | nil => simp [readSeq, eq_comm]
    | cons a l => simp [readSeq]
  | succ n ih =>
    constructor
    · intro h
      obtain ⟨⟨a, t⟩, ha, h⟩ := Option.bind_eq_some_iff.1 h
      obtain ⟨⟨l', u⟩, hl, h⟩ := Option.map_eq_some_iff.1 h
      cases h
      obtain ⟨hva, rfl⟩ := c.read_eq_some.1 ha
      obtain ⟨⟨hlen, hvl⟩, rfl⟩ := ih.1 hl
      refine ⟨⟨by rw [List.length_cons, hlen], ?_⟩, ?_⟩
      · simpa using ⟨hva, hvl⟩
      · rw [List.flatMap_cons, List.append_assoc]
    · rintro ⟨⟨hlen, hv⟩, rfl⟩
      cases l with
      | nil => exact absurd hlen (Nat.succ_ne_zero n).symm
      | cons a l =>
        obtain ⟨hva, hvl⟩ := List.forall_mem_cons.1 hv
        have hl := ih.2 ⟨⟨Nat.succ.inj hlen, hvl⟩, rfl⟩
        rw [List.flatMap_cons, List.append_assoc]
        rw [readSeq, c.read_write hva, Option.bind_some, hl, Option.map_some]

/-- `n` words of a code. -/
def seq (n : ℕ) (c : PrefixCode α) : PrefixCode (List α) where
  Valid l := l.length = n ∧ ∀ a ∈ l, c.Valid a
  write l := l.flatMap c.write
  read := c.readSeq n
  read_eq_some := c.readSeq_eq_some

end PrefixCode

end PrismSdk.Library
