import Mathlib.Data.List.Chain
import Mathlib.Tactic.Common

/-! Queues of at most `cap` elements, whose front is dropped when a push makes them
longer. The same queue, run on elements that carry the time of their push, tells when
each element of the queue was pushed. -/

namespace PrismSdk.Library.BoundedQueue

variable {α β : Type*}

/-- What may happen to a queue. -/
inductive Op (α : Type*) where
  | keep
  | push (x : α)
  | clear

def Op.map (f : α → β) : Op α → Op β
  | .keep => .keep
  | .push x => .push (f x)
  | .clear => .clear

def act (cap : ℕ) (q : List α) : Op α → List α
  | .keep => q
  | .push x => if (q ++ [x]).length > cap then (q ++ [x]).tail else q ++ [x]
  | .clear => []

def run (cap : ℕ) (ops : List (Op α)) : List α := ops.foldl (act cap) []

/-- The elements of the queue, each with the number of operations before its push. -/
def stamped (cap : ℕ) (ops : List (Op α)) : List (α × ℕ) :=
  run cap (ops.zipIdx.map fun p => p.1.map fun x => (x, p.2))

theorem run_snoc (cap : ℕ) (ops : List (Op α)) (op : Op α) :
    run cap (ops ++ [op]) = act cap (run cap ops) op := by
  rw [run, List.foldl_append]; rfl

theorem stamped_snoc (cap : ℕ) (ops : List (Op α)) (op : Op α) :
    stamped cap (ops ++ [op]) = act cap (stamped cap ops) (op.map fun x => (x, ops.length)) := by
  rw [stamped, List.zipIdx_append, List.map_append]
  simp only [List.zipIdx_singleton, List.map_singleton, Nat.zero_add]
  exact run_snoc cap _ _

theorem map_act (f : α → β) (cap : ℕ) (q : List α) (op : Op α) :
    (act cap q op).map f = act cap (q.map f) (op.map f) := by
  cases op with
  | keep => rfl
  | clear => rfl
  | push x =>
    simp only [act, Op.map, apply_ite (List.map f), List.map_tail, List.map_append,
      List.map_singleton, List.length_append, List.length_map, List.length_singleton]

theorem Op.map_eq_push {f : α → β} {op : Op α} {y : β} :
    op.map f = .push y ↔ ∃ x, op = .push x ∧ f x = y := by
  cases op <;> simp [map]

@[simp] theorem Op.map_fst_map (op : Op α) (n : ℕ) :
    (op.map fun x => (x, n)).map Prod.fst = op := by
  cases op <;> rfl

/-- Without their times, the stamped elements are those of the queue. -/
theorem map_fst_stamped (cap : ℕ) (ops : List (Op α)) :
    (stamped cap ops).map Prod.fst = run cap ops := by
  induction ops using List.reverseRecOn with
  | nil => rfl
  | append_singleton ops op ih =>
    rw [stamped_snoc, map_act, ih, Op.map_fst_map, run_snoc]

theorem length_act_le {cap : ℕ} {q : List α} (h : q.length ≤ cap) (op : Op α) :
    (act cap q op).length ≤ cap := by
  cases op with
  | keep => exact h
  | clear => exact Nat.zero_le _
  | push x =>
    simp only [act]
    split_ifs with hlong
    · rw [List.length_tail, List.length_append, List.length_singleton]
      exact h
    · exact Nat.not_lt.1 hlong

theorem length_run_le (cap : ℕ) (ops : List (Op α)) : (run cap ops).length ≤ cap := by
  induction ops using List.reverseRecOn with
  | nil => exact Nat.zero_le _
  | append_singleton ops op ih =>
    rw [run_snoc]
    exact length_act_le ih op

/-- An element of the queue was there or is new. -/
theorem mem_act {cap : ℕ} {q : List α} {op : Op α} {x : α} (h : x ∈ act cap q op) :
    (x ∈ q ∧ op ≠ .clear) ∨ op = .push x := by
  cases op with
  | keep => exact .inl ⟨h, by simp⟩
  | clear => exact absurd h List.not_mem_nil
  | push y =>
    have hmem : x ∈ q ++ [y] := by
      simp only [act] at h
      split_ifs at h
      · exact List.mem_of_mem_tail h
      · exact h
    rcases List.mem_append.1 hmem with hx | hx
    · exact .inl ⟨hx, by simp⟩
    · exact .inr (by rw [List.mem_singleton.1 hx])

/-- A push has to be related to the back of the queue only. -/
theorem isChain_act {R : α → α → Prop} {cap : ℕ} {q : List α} {op : Op α}
    (h : q.IsChain R) (hpush : ∀ x, op = .push x → ∀ y ∈ q.getLast?, R y x) :
    (act cap q op).IsChain R := by
  cases op with
  | keep => exact h
  | clear => exact List.isChain_nil
  | push x =>
    have hall : (q ++ [x]).IsChain R := by
      rw [List.isChain_append]
      refine ⟨h, List.isChain_singleton x, fun y hy z hz => ?_⟩
      obtain rfl : x = z := by simpa using hz
      exact hpush x rfl y hy
    simp only [act]
    split_ifs
    · exact hall.tail
    · exact hall

/-- An element was pushed at its time. -/
theorem getElem?_of_mem_stamped {cap : ℕ} {ops : List (Op α)} {a : α × ℕ}
    (h : a ∈ stamped cap ops) : ops[a.2]? = some (.push a.1) := by
  induction ops using List.reverseRecOn with
  | nil => exact absurd h List.not_mem_nil
  | append_singleton ops op ih =>
    rw [stamped_snoc] at h
    rcases mem_act h with ⟨hold, -⟩ | hnew
    · have hat := ih hold
      rw [List.getElem?_append_left (List.getElem?_eq_some_iff.1 hat).1]
      exact hat
    · obtain ⟨x, rfl, rfl⟩ := Op.map_eq_push.1 hnew
      exact List.getElem?_concat_length

theorem lt_of_mem_stamped {cap : ℕ} {ops : List (Op α)} {a : α × ℕ}
    (h : a ∈ stamped cap ops) : a.2 < ops.length :=
  (List.getElem?_eq_some_iff.1 (getElem?_of_mem_stamped h)).1

end PrismSdk.Library.BoundedQueue
