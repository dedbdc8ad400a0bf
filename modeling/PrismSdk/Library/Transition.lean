import Mathlib.Data.List.Induction
import Mathlib.Tactic.Common

/-! Deterministic transition systems with outputs. A call takes a state to the
next state and an output, a run is a list of calls. Invariants, facts that
relate a state to the calls that led to it, and facts about runs whose steps
all meet a condition are each proved by one step lemma. -/

namespace PrismSdk.Library

variable {σ ι ο : Type*}

/-- An initial state and a total step function. -/
structure System (σ ι ο : Type*) where
  init : σ
  step : σ → ι → σ × ο

namespace System

variable (M : System σ ι ο)

/-- The state after a list of calls. -/
def exec (s : σ) : List ι → σ
  | [] => s
  | c :: calls => exec (M.step s c).1 calls

/-- The outputs of a list of calls, in order. -/
def outputs (s : σ) : List ι → List ο
  | [] => []
  | c :: calls => (M.step s c).2 :: outputs (M.step s c).1 calls

@[simp] theorem exec_nil (s : σ) : M.exec s [] = s := rfl

@[simp] theorem exec_cons (s : σ) (c : ι) (calls : List ι) :
    M.exec s (c :: calls) = M.exec (M.step s c).1 calls := rfl

@[simp] theorem outputs_nil (s : σ) : M.outputs s [] = [] := rfl

@[simp] theorem outputs_cons (s : σ) (c : ι) (calls : List ι) :
    M.outputs s (c :: calls) = (M.step s c).2 :: M.outputs (M.step s c).1 calls := rfl

theorem exec_append (s : σ) (xs ys : List ι) :
    M.exec s (xs ++ ys) = M.exec (M.exec s xs) ys := by
  induction xs generalizing s with
  | nil => rfl
  | cons c xs ih => exact ih _

theorem exec_snoc (s : σ) (calls : List ι) (c : ι) :
    M.exec s (calls ++ [c]) = (M.step (M.exec s calls) c).1 := by
  rw [exec_append]; rfl

theorem outputs_append (s : σ) (xs ys : List ι) :
    M.outputs s (xs ++ ys) = M.outputs s xs ++ M.outputs (M.exec s xs) ys := by
  induction xs generalizing s with
  | nil => rfl
  | cons c xs ih => simp only [List.cons_append, outputs_cons, exec_cons, ih]

theorem outputs_snoc (s : σ) (calls : List ι) (c : ι) :
    M.outputs s (calls ++ [c]) = M.outputs s calls ++ [(M.step (M.exec s calls) c).2] := by
  rw [outputs_append]; rfl

theorem length_outputs (s : σ) (calls : List ι) : (M.outputs s calls).length = calls.length := by
  induction calls generalizing s with
  | nil => rfl
  | cons c calls ih => simp only [outputs_cons, List.length_cons, ih]

/-- The calls of a run, each with its output. -/
def transcript (s : σ) (calls : List ι) : List (ι × ο) := calls.zip (M.outputs s calls)

theorem transcript_snoc (s : σ) (calls : List ι) (c : ι) :
    M.transcript s (calls ++ [c]) =
      M.transcript s calls ++ [(c, (M.step (M.exec s calls) c).2)] := by
  rw [transcript, outputs_snoc, List.zip_append (M.length_outputs s calls).symm]
  rfl

/-- A variable that some steps assign, and all others leave, has the value of the last
assignment. -/
theorem exec_assigned {β : Type*} (f : σ → β) (assigned : ι → ο → Option β)
    (hstep : ∀ s c, f (M.step s c).1 = (assigned c (M.step s c).2).getD (f s)) (s : σ)
    (calls : List ι) : f (M.exec s calls) =
      ((M.transcript s calls).reverse.findSome? fun e => assigned e.1 e.2).getD (f s) := by
  induction calls using List.reverseRecOn with
  | nil => rfl
  | append_singleton calls c ih =>
    rw [exec_snoc, transcript_snoc, List.reverse_append, List.reverse_singleton,
      List.singleton_append, List.findSome?_cons, hstep, ih]
    cases assigned c (M.step (M.exec s calls) c).2 <;> rfl

/-- Two systems stay related along a run of which the second one leaves out some calls and
sees others changed. -/
theorem exec_filterMap {σ' ι' ο' : Type*} (N : System σ' ι' ο') {R : σ → σ' → Prop}
    {f : ι → Option ι'} (skip : ∀ s s' c, R s s' → f c = none → R (M.step s c).1 s')
    (step : ∀ s s' c c', R s s' → f c = some c' → R (M.step s c).1 (N.step s' c').1)
    {s : σ} {s' : σ'} (h : R s s') (calls : List ι) :
    R (M.exec s calls) (N.exec s' (calls.filterMap f)) := by
  induction calls generalizing s s' with
  | nil => exact h
  | cons c calls ih =>
    cases hc : f c with
    | none =>
      rw [List.filterMap_cons_none hc]
      exact ih (skip s s' c h hc)
    | some c' =>
      rw [List.filterMap_cons_some hc]
      exact ih (step s s' c c' h hc)

/-- The states of the runs from the initial state. -/
def Reachable (s : σ) : Prop := ∃ calls, M.exec M.init calls = s

theorem reachable_exec (calls : List ι) : M.Reachable (M.exec M.init calls) := ⟨calls, rfl⟩

/-- A property that every step keeps holds along a run, whatever its start. -/
theorem exec_invariant {I : σ → Prop} (step : ∀ s c, I s → I (M.step s c).1)
    {s : σ} (h : I s) (calls : List ι) : I (M.exec s calls) := by
  induction calls generalizing s with
  | nil => exact h
  | cons c calls ih => exact ih (step s c h)

/-- A property of the initial state that every step keeps holds in every
reachable state. -/
theorem Reachable.invariant {I : σ → Prop} (init : I M.init)
    (step : ∀ s c, I s → I (M.step s c).1) {s : σ} (h : M.Reachable s) : I s := by
  obtain ⟨calls, rfl⟩ := h
  exact M.exec_invariant step init calls

/-- A relation between the calls made so far and the state they led to. -/
theorem history {R : List ι → σ → Prop} (init : R [] M.init)
    (step : ∀ calls c, R calls (M.exec M.init calls) →
      R (calls ++ [c]) (M.step (M.exec M.init calls) c).1) (calls : List ι) :
    R calls (M.exec M.init calls) := by
  induction calls using List.reverseRecOn with
  | nil => exact init
  | append_singleton calls c ih =>
    rw [exec_snoc]
    exact step calls c ih

/-- Every step of the run from `s` meets `K`, a condition on the state before
the step and the call. -/
def Along (K : σ → ι → Prop) (s : σ) : List ι → Prop
  | [] => True
  | c :: calls => K s c ∧ Along K (M.step s c).1 calls

instance Along.decidable (K : σ → ι → Prop) [∀ s c, Decidable (K s c)] :
    ∀ (s : σ) (calls : List ι), Decidable (M.Along K s calls)
  | _, [] => isTrue trivial
  | s, c :: calls =>
    have := Along.decidable K (M.step s c).1 calls
    inferInstanceAs (Decidable (K s c ∧ M.Along K (M.step s c).1 calls))

theorem along_append (K : σ → ι → Prop) (s : σ) (xs ys : List ι) :
    M.Along K s (xs ++ ys) ↔ M.Along K s xs ∧ M.Along K (M.exec s xs) ys := by
  induction xs generalizing s with
  | nil => simp [Along]
  | cons c xs ih => simp only [List.cons_append, Along, ih, exec_cons, and_assoc]

theorem along_snoc (K : σ → ι → Prop) (s : σ) (calls : List ι) (c : ι) :
    M.Along K s (calls ++ [c]) ↔ M.Along K s calls ∧ K (M.exec s calls) c := by
  simp only [along_append, Along, and_true]

/-- `history` for the runs whose steps all meet a condition. -/
theorem historyAlong {K : σ → ι → Prop} {R : List ι → σ → Prop} (init : R [] M.init)
    (step : ∀ calls c, K (M.exec M.init calls) c → R calls (M.exec M.init calls) →
      R (calls ++ [c]) (M.step (M.exec M.init calls) c).1) (calls : List ι)
    (h : M.Along K M.init calls) : R calls (M.exec M.init calls) := by
  induction calls using List.reverseRecOn with
  | nil => exact init
  | append_singleton calls c ih =>
    rw [along_snoc] at h
    rw [exec_snoc]
    exact step calls c h.2 (ih h.1)

/-- The value of the last step of the run from `s` that has one. -/
def last {α : Type*} (P : σ → ι → Option α) (s : σ) : List ι → Option α
  | [] => none
  | c :: calls => (last P (M.step s c).1 calls).or (P s c)

theorem last_snoc {α : Type*} (P : σ → ι → Option α) (s : σ) (calls : List ι) (c : ι) :
    M.last P s (calls ++ [c]) = (P (M.exec s calls) c).or (M.last P s calls) := by
  induction calls generalizing s with
  | nil => simp [last]
  | cons d calls ih => simp only [List.cons_append, last, ih, exec_cons, Option.or_assoc]

/-- The values of the steps of the run from `s` that have one, in order. -/
def gather {α : Type*} (P : σ → ι → Option α) (s : σ) : List ι → List α
  | [] => []
  | c :: calls => (P s c).toList ++ gather P (M.step s c).1 calls

theorem gather_append {α : Type*} (P : σ → ι → Option α) (s : σ) (xs ys : List ι) :
    M.gather P s (xs ++ ys) = M.gather P s xs ++ M.gather P (M.exec s xs) ys := by
  induction xs generalizing s with
  | nil => rfl
  | cons c xs ih => simp only [List.cons_append, gather, exec_cons, ih, List.append_assoc]

theorem mem_gather {α : Type*} {P : σ → ι → Option α} {s : σ} {calls : List ι} {a : α}
    (h : a ∈ M.gather P s calls) :
    ∃ before c after, calls = before ++ c :: after ∧ P (M.exec s before) c = some a := by
  induction calls generalizing s with
  | nil => exact absurd h List.not_mem_nil
  | cons c calls ih =>
    rcases List.mem_append.1 h with hnow | hlater
    · exact ⟨[], c, calls, rfl, Option.mem_toList.1 hnow⟩
    · obtain ⟨before, d, after, rfl, hd⟩ := ih hlater
      exact ⟨c :: before, d, after, rfl, hd⟩

end System

end PrismSdk.Library
