import Mathlib.Data.List.Basic
import PrismSdk.Library.Checked

/-! Records of one size in a buffer, one after the other. A program that writes inside a
window of the buffer does there what it does to the window alone, so that a loop over the
records fills the buffer with what each of them writes into zeros. -/

namespace PrismSdk.Library.Records

open Checked (save Safe)

variable {α : Type} {s : ℕ}

/-! ### Records -/

/-- Record `i` of a buffer of records of size `s`. -/
def record (s i : ℕ) (out : List UInt8) : List UInt8 := (out.drop (i * s)).take s

theorem length_flatten {records : List (List UInt8)} (h : ∀ r ∈ records, r.length = s) :
    records.flatten.length = records.length * s := by
  induction records with
  | nil => simp
  | cons r records ih =>
    obtain ⟨hr, hrecords⟩ := List.forall_mem_cons.1 h
    rw [List.flatten_cons, List.length_append, ih hrecords, hr, List.length_cons, Nat.succ_mul,
      Nat.add_comm]

theorem record_flatten {records : List (List UInt8)} (h : ∀ r ∈ records, r.length = s) {i : ℕ}
    (hi : i < records.length) : record s i records.flatten = records[i] := by
  induction records generalizing i with
  | nil => exact absurd hi (Nat.not_lt_zero i)
  | cons r records ih =>
    obtain ⟨hr, hrecords⟩ := List.forall_mem_cons.1 h
    cases i with
    | zero =>
      rw [record, Nat.zero_mul, List.drop_zero, List.flatten_cons, List.take_left' hr]
      rfl
    | succ i =>
      have hrest := ih hrecords (Nat.lt_of_succ_lt_succ hi)
      rw [record, Nat.succ_mul, Nat.add_comm, ← List.drop_drop, List.flatten_cons,
        List.drop_left' hr, ← record, hrest]
      rfl

/-! ### Windows -/

/-- The program `y` on the whole buffer does what `x` does to the window between `front`
and `back`, and keeps its size. -/
structure Inside (front back : List UInt8) (s : ℕ) (x y : Checked (List UInt8)) : Prop where
  eq : y = (fun w => front ++ w ++ back) <$> x
  length : ∀ w, x = .ok w → w.length = s

variable {front back w : List UInt8} {x y : Checked (List UInt8)}

theorem Inside.ok (h : w.length = s) : Inside front back s (.ok w) (.ok (front ++ w ++ back)) :=
  ⟨rfl, fun _ hw => Except.ok.inj hw ▸ h⟩

theorem Inside.error (e : Fault) : Inside front back s (.error e) (.error e) :=
  ⟨rfl, fun _ hw => nomatch hw⟩

theorem Inside.save {i : ℕ} (hw : w.length = s) (hi : i < s) (byte : UInt8) :
    Inside front back s (save w i byte) (save (front ++ w ++ back) (front.length + i) byte) := by
  have hall : front.length + i < (front ++ w ++ back).length := by
    simp only [List.length_append]
    omega
  rw [Checked.save_of_lt (hw ▸ hi), Checked.save_of_lt hall, List.append_assoc,
    List.set_append_right _ _ (Nat.le_add_right _ _), Nat.add_sub_cancel_left,
    List.set_append_left _ _ (hw ▸ hi), ← List.append_assoc]
  exact Inside.ok (by rw [List.length_set, hw])

theorem Inside.bind {f g : List UInt8 → Checked (List UInt8)} (h : Inside front back s x y)
    (hf : ∀ w : List UInt8, w.length = s → Inside front back s (f w) (g (front ++ w ++ back))) :
    Inside front back s (x >>= f) (y >>= g) := by
  obtain ⟨rfl, hlength⟩ := h
  cases x with
  | error e => exact Inside.error e
  | ok w => exact hf w (hlength w rfl)

theorem Inside.foldlM {β : Type} {f g : List UInt8 → β → Checked (List UInt8)} {bs : List β}
    (hf : ∀ b ∈ bs, ∀ w : List UInt8, w.length = s →
      Inside front back s (f w b) (g (front ++ w ++ back) b)) (hw : w.length = s) :
    Inside front back s (bs.foldlM f w) (bs.foldlM g (front ++ w ++ back)) := by
  induction bs generalizing w with
  | nil => exact Inside.ok hw
  | cons b bs ih =>
    rw [List.foldlM_cons, List.foldlM_cons]
    refine (hf b List.mem_cons_self w hw).bind fun w' hw' => ?_
    exact ih (fun b' hb' => hf b' (List.mem_cons_of_mem b hb')) hw'

/-! ### The loop -/

/-- `write p a` writes the record of `a` at `p` and nothing elsewhere. -/
def Local (s : ℕ) (write : ℕ → α → List UInt8 → Checked (List UInt8)) : Prop :=
  ∀ (a : α) (front w back : List UInt8), w.length = s →
    Inside front back s (write 0 a w) (write front.length a (front ++ w ++ back))

/-- The record of `a`: what `write` makes of zeros. -/
def written (s : ℕ) (write : ℕ → α → List UInt8 → Checked (List UInt8)) (a : α) :
    Checked (List UInt8) := write 0 a (List.replicate s 0)

/-- The loop leaves the records one after the other, or fails as the first of them that
does. -/
theorem foldlM_write {write : ℕ → α → List UInt8 → Checked (List UInt8)} (h : Local s write)
    (as : List α) (front : List UInt8) {k : ℕ} (hk : front.length = k * s) :
    (as.zipIdx k).foldlM (fun out x => write (x.2 * s) x.1 out)
        (front ++ List.replicate (as.length * s) 0) =
      (fun records => front ++ records.flatten) <$> as.mapM (written s write) := by
  induction as generalizing front k with
  | nil => simp [pure, Except.pure, Functor.map, Except.map]
  | cons a as ih =>
    have hzeros : front ++ List.replicate ((a :: as).length * s) 0 =
        front ++ List.replicate s 0 ++ List.replicate (as.length * s) (0 : UInt8) := by
      rw [List.length_cons, Nat.succ_mul, Nat.add_comm, List.replicate_add, List.append_assoc]
    have hinside := h a front (List.replicate s 0) (List.replicate (as.length * s) 0)
      List.length_replicate
    rw [List.zipIdx_cons, List.foldlM_cons, hzeros, ← hk, hinside.eq, List.mapM_cons]
    change (fun w => front ++ w ++ List.replicate (as.length * s) 0) <$> written s write a >>= _ =
      _ <$> (written s write a >>= _)
    cases hr : written s write a with
    | error e => rfl
    | ok r =>
      have hfront : (front ++ r).length = (k + 1) * s := by
        rw [List.length_append, hinside.length r hr, hk, Nat.succ_mul]
      change (as.zipIdx (k + 1)).foldlM _ _ = _
      rw [ih _ hfront]
      cases as.mapM (written s write) with
      | error e => rfl
      | ok records =>
        exact congrArg Except.ok (List.append_assoc front r records.flatten)

/-- A pass that fails at what is bad, and only there. -/
theorem mapM_guard {β : Type} (bad : α → Prop) [DecidablePred bad] (e : Fault) (f : α → β)
    (as : List α) : as.mapM (fun a => if bad a then (.error e : Checked β) else .ok (f a)) =
      if ∃ a ∈ as, bad a then .error e else .ok (as.map f) := by
  induction as with
  | nil => simp [pure, Except.pure]
  | cons a as ih =>
    rw [List.mapM_cons, ih]
    by_cases ha : bad a
    · rw [if_pos ha, Checked.error_bind, if_pos ⟨a, List.mem_cons_self, ha⟩]
    · rw [if_neg ha, Checked.ok_bind]
      by_cases has : ∃ b ∈ as, bad b
      · obtain ⟨b, hb, hbad⟩ := has
        rw [if_pos ⟨b, hb, hbad⟩, Checked.error_bind, if_pos ⟨b, List.mem_cons_of_mem a hb, hbad⟩]
      · have hnone : ¬ ∃ b ∈ a :: as, bad b := by
          rintro ⟨b, hb, hbad⟩
          rcases List.mem_cons.1 hb with rfl | hb
          · exact ha hbad
          · exact has ⟨b, hb, hbad⟩
        rw [if_neg has, if_neg hnone, Checked.ok_bind]
        rfl

end PrismSdk.Library.Records
