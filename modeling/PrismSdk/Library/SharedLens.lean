import Mathlib.Data.Fintype.Defs
import Mathlib.Logic.Function.Basic
import Mathlib.Tactic.Common

/-! Lenses, and a part that every record of a family has. The part is put into all the
records or, when one of them would be bad with it, into none. A loop that rewrites the
records one after the other and throws at the first bad one does just that. -/

namespace PrismSdk.Library

/-- A part of the records in `S`, with values in `A`. -/
structure Lens (S A : Type*) where
  get : S → A
  put : A → S → S
  get_put : ∀ a s, get (put a s) = a
  put_get : ∀ s, put (get s) s = s
  put_put : ∀ a b s, put b (put a s) = put b s

namespace Lens

variable {ι S A ε : Type*} (l : Lens S A) {good : S → Bool} {e : ε} {a b : A} {v w : ι → S}

/-- All records have the same part. -/
def Shared (v : ι → S) : Prop := ∀ i j, l.get (v i) = l.get (v j)

/-- The records with the part `a`, if all of them are good. -/
def putAll [Fintype ι] (good : S → Bool) (e : ε) (a : A) (v : ι → S) : Except ε (ι → S) :=
  if ∀ i, good (l.put a (v i)) then .ok fun i => l.put a (v i) else .error e

section Laws

variable [Fintype ι]

theorem putAll_eq_ok : l.putAll good e a v = .ok w ↔
    (∀ i, good (w i)) ∧ w = fun i => l.put a (v i) := by
  unfold putAll
  split_ifs with h
  · rw [Except.ok.injEq]
    constructor
    · rintro rfl
      exact ⟨h, rfl⟩
    · rintro ⟨-, rfl⟩
      rfl
  · constructor
    · rintro ⟨⟩
    · rintro ⟨hgood, rfl⟩
      exact absurd hgood h

theorem putAll_eq_error {e' : ε} : l.putAll good e a v = .error e' ↔
    e = e' ∧ ∃ i, good (l.put a (v i)) = false := by
  unfold putAll
  split_ifs with h
  · constructor
    · rintro ⟨⟩
    · rintro ⟨-, i, hi⟩
      exact absurd (h i) (by rw [hi]; exact Bool.false_ne_true)
  · have hbad : ∃ i, good (l.put a (v i)) = false := by
      simpa only [not_forall, Bool.not_eq_true] using h
    rw [Except.error.injEq]
    exact ⟨fun heq => ⟨heq, hbad⟩, fun heq => heq.1⟩

/-- What was put is what is got. -/
theorem get_of_putAll (h : l.putAll good e a v = .ok w) (i : ι) : l.get (w i) = a := by
  obtain ⟨-, rfl⟩ := (l.putAll_eq_ok).1 h
  exact l.get_put a (v i)

theorem shared_of_putAll (h : l.putAll good e a v = .ok w) : l.Shared w := by
  intro i j
  rw [l.get_of_putAll h i, l.get_of_putAll h j]

/-- Good records keep the part they share. -/
theorem putAll_get (hshared : l.Shared v) (hgood : ∀ i, good (v i)) (i : ι) :
    l.putAll good e (l.get (v i)) v = .ok v := by
  refine (l.putAll_eq_ok).2 ⟨hgood, funext fun j => ?_⟩
  rw [hshared i j, l.put_get]

/-- The first of two parts leaves no trace. -/
theorem putAll_putAll (h : l.putAll good e a v = .ok w) (b : A) :
    l.putAll good e b w = l.putAll good e b v := by
  obtain ⟨-, rfl⟩ := (l.putAll_eq_ok).1 h
  unfold putAll
  simp only [l.put_put]

end Laws

/-! ### The loop -/

/-- A loop that rewrites the records of distinct places, and throws at the first bad one. -/
theorem foldlM_update [DecidableEq ι] (f : S → S) (good : S → Bool) (e : ε) {places : List ι}
    (hnodup : places.Nodup) (v : ι → S) :
    places.foldlM (fun v i =>
        if !good (f (v i)) then .error e else .ok (Function.update v i (f (v i)))) v =
      if ∀ i ∈ places, good (f (v i)) then
        .ok fun i => if i ∈ places then f (v i) else v i
      else (.error e : Except ε (ι → S)) := by
  induction places generalizing v with
  | nil => simp [pure, Except.pure]
  | cons i places ih =>
    obtain ⟨hi, hplaces⟩ := List.nodup_cons.1 hnodup
    rw [List.foldlM_cons]
    cases hgood : good (f (v i)) with
    | false => simp [hgood, bind, Except.bind]
    | true =>
      -- The places still to come hold what they held before.
      have hother : ∀ j ∈ places, Function.update v i (f (v i)) j = v j := by
        intro j hj
        exact Function.update_of_ne (ne_of_mem_of_not_mem hj hi) _ _
      have hrest := ih hplaces (Function.update v i (f (v i)))
      simp only [Bool.not_true, Bool.false_eq_true, if_false, bind, Except.bind]
      rw [hrest]
      have hall : (∀ j ∈ places, good (f (Function.update v i (f (v i)) j))) ↔
          ∀ j ∈ i :: places, good (f (v j)) := by
        rw [List.forall_mem_cons]
        refine ⟨fun h => ⟨hgood, fun j hj => hother j hj ▸ h j hj⟩, fun h j hj => ?_⟩
        rw [hother j hj]
        exact h.2 j hj
      simp only [hall]
      congr 2
      funext j
      by_cases hj : j = i
      · subst hj
        rw [if_neg hi, Function.update_self, if_pos List.mem_cons_self]
      · rw [Function.update_of_ne hj]
        simp only [List.mem_cons, hj, false_or]

/-- Over all places, the loop puts the part into all records or none. -/
theorem foldlM_putAll [Fintype ι] [DecidableEq ι] {places : List ι} (hnodup : places.Nodup)
    (hall : ∀ i, i ∈ places) (good : S → Bool) (e : ε) (a : A) (v : ι → S) :
    places.foldlM (fun v i =>
        if !good (l.put a (v i)) then .error e
        else .ok (Function.update v i (l.put a (v i)))) v = l.putAll good e a v := by
  rw [foldlM_update (l.put a) good e hnodup]
  unfold putAll
  simp only [hall, forall_const, if_true]

end Lens

end PrismSdk.Library
