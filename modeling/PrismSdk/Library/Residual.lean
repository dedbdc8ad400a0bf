import Mathlib.Algebra.BigOperators.Intervals
import Mathlib.Tactic.Common

/-! Values modulo `2 M`, each coded as its difference from the value two before it:
the difference taken to the nearest of zero, and then the signs folded away. -/

namespace PrismSdk.Library.Residual

/-- The signed differences as natural numbers: 0, -1, 1, -2, 2, … -/
def zigzag (d : ℤ) : ℕ := if 0 ≤ d then (2 * d).toNat else (-2 * d - 1).toNat

def unzigzag (q : ℕ) : ℤ := if q % 2 = 1 then -((q + 1) / 2 : ℕ) else (q / 2 : ℕ)

theorem unzigzag_zigzag (d : ℤ) : unzigzag (zigzag d) = d := by
  unfold zigzag unzigzag
  split_ifs <;> omega

theorem zigzag_unzigzag (q : ℕ) : zigzag (unzigzag q) = q := by
  unfold zigzag unzigzag
  split_ifs <;> omega

variable (M : ℕ)

/-- The residual of a value with respect to an earlier one. -/
def residual (previous v : ℕ) : ℕ := zigzag (Int.bmod ((v : ℤ) - previous) (2 * M))

/-- The value with a given residual. -/
def restore (previous q : ℕ) : ℕ := (((previous : ℤ) + unzigzag q) % (2 * M : ℕ)).toNat

variable {M}

theorem residual_lt (hM : 0 < M) (previous v : ℕ) : residual M previous v < 2 * M := by
  have hle := Int.le_bmod (x := (v : ℤ) - previous) (show 0 < 2 * M by omega)
  have hlt := Int.bmod_lt (x := (v : ℤ) - previous) (show 0 < 2 * M by omega)
  unfold residual zigzag
  split_ifs <;> omega

theorem restore_lt (hM : 0 < M) (previous q : ℕ) : restore M previous q < 2 * M := by
  have hpos : (0 : ℤ) < (2 * M : ℕ) := by omega
  have hlt := Int.emod_lt_of_pos ((previous : ℤ) + unzigzag q) hpos
  unfold restore
  omega

theorem restore_residual {v : ℕ} (previous : ℕ) (h : v < 2 * M) :
    restore M previous (residual M previous v) = v := by
  have hsum : (previous : ℤ) + Int.bmod ((v : ℤ) - previous) (2 * M) =
      v - (2 * M : ℕ) * Int.bdiv ((v : ℤ) - previous) (2 * M) := by
    rw [Int.bmod_eq_self_sub_mul_bdiv]
    omega
  unfold restore residual
  rw [unzigzag_zigzag, hsum, Int.sub_mul_emod_self_left, Int.emod_eq_of_lt (by omega) (by omega),
    Int.toNat_natCast]

theorem residual_restore {q : ℕ} (previous : ℕ) (h : q < 2 * M) :
    residual M previous (restore M previous q) = q := by
  have hvalue : ((restore M previous q : ℕ) : ℤ) = (previous + unzigzag q) % (2 * M : ℕ) :=
    Int.toNat_of_nonneg (Int.emod_nonneg _ (by omega))
  have hrange : -(M : ℤ) ≤ unzigzag q ∧ unzigzag q < M := by
    unfold unzigzag
    split_ifs <;> omega
  have hcancel : (previous : ℤ) + unzigzag q - previous = unzigzag q := by omega
  unfold residual
  rw [hvalue, Int.emod_sub_bmod, hcancel, Int.bmod_eq_of_le (by omega) (by omega),
    zigzag_unzigzag]

/-! ### Sequences -/

/-- The values from the third on, given the first two and the residuals. -/
def restoreAll (M : ℕ) : ℕ → ℕ → List ℕ → List ℕ
  | _, _, [] => []
  | a, b, q :: qs => restore M a q :: restoreAll M b (restore M a q) qs

/-- The residuals of the values that follow the first two. -/
def residuals (M : ℕ) : ℕ → ℕ → List ℕ → List ℕ
  | _, _, [] => []
  | a, b, v :: vs => residual M a v :: residuals M b v vs

@[simp] theorem length_residuals (a b : ℕ) (vs : List ℕ) :
    (residuals M a b vs).length = vs.length := by
  induction vs generalizing a b with
  | nil => rfl
  | cons v vs ih => rw [residuals, List.length_cons, ih, List.length_cons]

@[simp] theorem length_restoreAll (a b : ℕ) (qs : List ℕ) :
    (restoreAll M a b qs).length = qs.length := by
  induction qs generalizing a b with
  | nil => rfl
  | cons q qs ih => rw [restoreAll, List.length_cons, ih, List.length_cons]

theorem restoreAll_lt (hM : 0 < M) (a b : ℕ) (qs : List ℕ) :
    ∀ v ∈ restoreAll M a b qs, v < 2 * M := by
  induction qs generalizing a b with
  | nil => exact List.forall_mem_nil _
  | cons q qs ih => exact List.forall_mem_cons.2 ⟨restore_lt hM a q, ih b _⟩

theorem restoreAll_residuals (a b : ℕ) {vs : List ℕ} (h : ∀ v ∈ vs, v < 2 * M) :
    restoreAll M a b (residuals M a b vs) = vs := by
  induction vs generalizing a b with
  | nil => rfl
  | cons v vs ih =>
    obtain ⟨hv, hvs⟩ := List.forall_mem_cons.1 h
    rw [residuals, restoreAll, restore_residual a hv, ih b v hvs]

theorem residuals_restoreAll (a b : ℕ) {qs : List ℕ} (h : ∀ q ∈ qs, q < 2 * M) :
    residuals M a b (restoreAll M a b qs) = qs := by
  induction qs generalizing a b with
  | nil => rfl
  | cons q qs ih =>
    obtain ⟨hq, hqs⟩ := List.forall_mem_cons.1 h
    rw [restoreAll, residuals, residual_restore a hq, ih b _ hqs]

/-- The residual of the value at index `i`. -/
def residualAt (M : ℕ) (values : List ℕ) (i : ℕ) : ℕ :=
  residual M (values.getD (i - 2) 0) (values.getD i 0)

theorem residuals_eq_map (a b : ℕ) (vs : List ℕ) :
    residuals M a b vs =
      (List.range vs.length).map fun i => residualAt M (a :: b :: vs) (i + 2) := by
  induction vs generalizing a b with
  | nil => rfl
  | cons v vs ih =>
    rw [residuals, ih, List.length_cons, List.range_succ_eq_map, List.map_cons, List.map_map]
    rfl

theorem forall_residuals (P : ℕ → Prop) (a b : ℕ) (vs : List ℕ) :
    (∀ q ∈ residuals M a b vs, P q) ↔
      ∀ i, 2 ≤ i → i < vs.length + 2 → P (residualAt M (a :: b :: vs) i) := by
  rw [residuals_eq_map]
  simp only [List.forall_mem_map, List.mem_range]
  constructor
  · intro h i hi hlt
    have hP := h (i - 2) (by omega)
    rwa [Nat.sub_add_cancel hi] at hP
  · intro h i hi
    exact h (i + 2) (Nat.le_add_left 2 i) (by omega)

theorem sum_residuals (f : ℕ → ℕ) (a b : ℕ) (vs : List ℕ) :
    ((residuals M a b vs).map f).sum =
      ∑ i ∈ Finset.Ico 2 (vs.length + 2), f (residualAt M (a :: b :: vs) i) := by
  rw [residuals_eq_map, List.map_map, Finset.sum_Ico_eq_sum_range, Nat.add_sub_cancel]
  simp only [Nat.add_comm 2]
  rfl

end PrismSdk.Library.Residual
