import Mathlib.Data.List.Flatten
import Mathlib.Tactic.Common

/-! Byte streams cut into chunks that name their own offset. A chunk list is
contiguous when each offset is the number of bytes before it, so its payload
is the stream without holes, repeats or reordering. -/

namespace PrismSdk.Library.Reassembly

variable {α β : Type*} (offset : α → ℕ) (bytes : α → List β)

/-- The bytes of the chunks, in order. -/
def payload (xs : List α) : List β := xs.flatMap bytes

@[simp] theorem payload_nil : payload bytes [] = [] := rfl

@[simp] theorem payload_cons (x : α) (xs : List α) :
    payload bytes (x :: xs) = bytes x ++ payload bytes xs := by
  simp [payload]

@[simp] theorem payload_append (xs ys : List α) :
    payload bytes (xs ++ ys) = payload bytes xs ++ payload bytes ys := by
  simp [payload]

/-- The offsets are `n` and then the running sums of the chunk sizes. -/
def ContiguousFrom : ℕ → List α → Prop
  | _, [] => True
  | n, x :: xs => offset x = n ∧ ContiguousFrom (n + (bytes x).length) xs

instance ContiguousFrom.decidable : ∀ (n : ℕ) (xs : List α),
    Decidable (ContiguousFrom offset bytes n xs)
  | _, [] => isTrue trivial
  | n, x :: xs =>
    have := ContiguousFrom.decidable (n + (bytes x).length) xs
    inferInstanceAs (Decidable (offset x = n ∧ ContiguousFrom offset bytes _ xs))

/-- The offsets start at zero. -/
abbrev Contiguous (xs : List α) : Prop := ContiguousFrom offset bytes 0 xs

theorem contiguousFrom_append (n : ℕ) (xs ys : List α) :
    ContiguousFrom offset bytes n (xs ++ ys) ↔
      ContiguousFrom offset bytes n xs ∧
        ContiguousFrom offset bytes (n + (payload bytes xs).length) ys := by
  induction xs generalizing n with
  | nil => simp [ContiguousFrom]
  | cons x xs ih =>
    simp only [List.cons_append, ContiguousFrom, ih, payload_cons, List.length_append, and_assoc,
      Nat.add_assoc]

/-- A chunk extends a contiguous list when its offset is the size reached. -/
theorem contiguous_snoc (xs : List α) (x : α) :
    Contiguous offset bytes (xs ++ [x]) ↔
      Contiguous offset bytes xs ∧ offset x = (payload bytes xs).length := by
  simp [Contiguous, contiguousFrom_append, ContiguousFrom]

/-- In a contiguous list every chunk starts where the chunks before it end. -/
theorem Contiguous.offset_eq {xs ys : List α} {x : α}
    (h : Contiguous offset bytes (xs ++ x :: ys)) : offset x = (payload bytes xs).length := by
  have := ((contiguousFrom_append offset bytes 0 xs (x :: ys)).1 h).2.1
  simpa using this

variable {bytes}

theorem length_payload_le {xs ys : List α} (h : xs.Sublist ys) :
    (payload bytes xs).length ≤ (payload bytes ys).length :=
  (h.flatMap bytes).length_le

/-- When some chunks are lost and none was empty, bytes are missing. -/
theorem eq_of_sublist {xs ys : List α} (h : xs.Sublist ys) (hne : ∀ y ∈ ys, bytes y ≠ [])
    (hlength : (payload bytes xs).length = (payload bytes ys).length) : xs = ys := by
  induction h with
  | slnil => rfl
  | cons y h ih =>
    have hpos := List.length_pos_iff.2 (hne y List.mem_cons_self)
    have hle : (payload bytes _).length ≤ _ := length_payload_le h
    rw [payload_cons, List.length_append] at hlength
    omega
  | cons_cons y h ih =>
    simp only [payload_cons, List.length_append, Nat.add_left_cancel_iff] at hlength
    rw [ih (fun z hz => hne z (List.mem_cons_of_mem y hz)) hlength]

end PrismSdk.Library.Reassembly
