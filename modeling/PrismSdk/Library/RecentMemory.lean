import Mathlib.Data.List.DropRight
import Mathlib.Tactic.Common

/-! A first-in first-out memory of the last `n` items. Items are pushed only
when the memory does not hold them, so equal items of the whole history are
more than `n` places apart. -/

namespace PrismSdk.Library.RecentMemory

variable {α : Type*} (n : ℕ)

/-- Remember `x`, and forget what is older than the last `n` items. -/
def push (memory : List α) (x : α) : List α := (memory ++ [x]).rtake n

def pushAll (memory : List α) (xs : List α) : List α := xs.foldl (push n) memory

/-- Every item is unknown to the memory when it is pushed. -/
def Fresh : List α → List α → Prop
  | _, [] => True
  | memory, x :: xs => x ∉ memory ∧ Fresh (push n memory x) xs

@[simp] theorem pushAll_nil (memory : List α) : pushAll n memory [] = memory := rfl

@[simp] theorem pushAll_cons (memory : List α) (x : α) (xs : List α) :
    pushAll n memory (x :: xs) = pushAll n (push n memory x) xs := rfl

/-- The memory holds nothing that was not in it or pushed. -/
theorem mem_of_mem_pushAll {memory xs : List α} {y : α} (h : y ∈ pushAll n memory xs) :
    y ∈ memory ∨ y ∈ xs := by
  induction xs generalizing memory with
  | nil => exact Or.inl h
  | cons x xs ih =>
    rcases ih h with h | h
    · have := List.mem_of_mem_drop h
      rw [List.mem_append, List.mem_singleton] at this
      rcases this with h | rfl
      · exact Or.inl h
      · exact Or.inr List.mem_cons_self
    · exact Or.inr (List.mem_cons_of_mem x h)

theorem pushAll_append (memory xs ys : List α) :
    pushAll n memory (xs ++ ys) = pushAll n (pushAll n memory xs) ys := List.foldl_append

theorem fresh_append (memory xs ys : List α) :
    Fresh n memory (xs ++ ys) ↔ Fresh n memory xs ∧ Fresh n (pushAll n memory xs) ys := by
  induction xs generalizing memory with
  | nil => simp [Fresh]
  | cons x xs ih => simp only [List.cons_append, Fresh, ih, pushAll_cons, and_assoc]

theorem rtake_rtake_append (xs ys : List α) :
    (xs.rtake n ++ ys).rtake n = (xs ++ ys).rtake n := by
  simp only [List.rtake_eq_reverse_take_reverse, List.reverse_append, List.reverse_reverse,
    List.take_append, List.take_take]
  congr 3
  omega

theorem length_push_le (memory : List α) (x : α) : (push n memory x).length ≤ n := by
  simp only [push, List.rtake, List.length_drop]
  omega

theorem rtake_subset_rtake {i j : ℕ} (h : i ≤ j) (xs : List α) : xs.rtake i ⊆ xs.rtake j :=
  (List.drop_sublist_drop_left xs (Nat.sub_le_sub_left h xs.length)).subset

theorem rtake_rtake {i j : ℕ} (h : i ≤ j) (xs : List α) : (xs.rtake j).rtake i = xs.rtake i := by
  rw [List.rtake, List.rtake, List.rtake, List.drop_drop, List.length_drop]
  congr 1
  omega

/-- A push moves what is remembered by one place. -/
theorem mem_rtake_push {j : ℕ} (hj : j ≤ n) {memory : List α} {x y : α}
    (h : y ∈ memory.rtake (j - 1)) : y ∈ (push n memory x).rtake j := by
  cases j with
  | zero => simp at h
  | succ j =>
    rw [push, rtake_rtake hj, List.rtake_concat_succ]
    exact List.mem_append_left _ h

/-- The memory holds the last `n` items of the history. -/
theorem pushAll_eq_rtake (memory xs : List α) (h : memory.length ≤ n) :
    pushAll n memory xs = (memory ++ xs).rtake n := by
  induction xs generalizing memory with
  | nil =>
    rw [List.append_nil, List.rtake, Nat.sub_eq_zero_of_le h, List.drop_zero, pushAll_nil]
  | cons x xs ih =>
    rw [pushAll_cons, ih _ (length_push_le n memory x), push, rtake_rtake_append,
      List.append_assoc]
    rfl

/-- In a fresh history an item does not come back within `n` places. -/
theorem Fresh.ne_of_close {xs : List α} (h : Fresh n [] xs) {i j : ℕ} (hij : i < j)
    (hj : j ≤ i + n) {x : α} (hi : xs[i]? = some x) : xs[j]? ≠ some x := by
  intro hx
  obtain ⟨hlt, rfl⟩ := List.getElem?_eq_some_iff.1 hx
  have hsplit : xs = xs.take j ++ xs[j] :: xs.drop (j + 1) := by simp
  rw [hsplit, fresh_append] at h
  refine h.2.1 ?_
  rw [pushAll_eq_rtake n [] _ (by simp), List.nil_append, List.rtake, List.length_take,
    Nat.min_eq_left hlt.le]
  refine List.mem_of_getElem? (i := i - (j - n)) ?_
  rw [List.getElem?_drop, show j - n + (i - (j - n)) = i by omega, List.getElem?_take_of_lt hij,
    hi]

end PrismSdk.Library.RecentMemory
