import Mathlib.Data.List.DropRight
import Mathlib.Data.List.Induction
import Std.Data.ExtTreeMap.Lemmas

/-! A map that is written key by key and cleared from time to time. What it has at a key is
the last value written there since it was last cleared: earlier values are lost. -/

namespace PrismSdk.Library

open Std (ExtTreeMap TransOrd LawfulEqOrd)

universe u v

/-- What happens to a map. -/
inductive KeyedWrite (κ : Type u) (β : Type v) where
  | put (k : κ) (b : β)
  | clear
  | keep

namespace KeyedWrite

variable {κ : Type u} {β : Type v}

def isClear : KeyedWrite κ β → Bool
  | clear => true
  | _ => false

/-- What happened since the map was last cleared. -/
def sinceClear (ws : List (KeyedWrite κ β)) : List (KeyedWrite κ β) :=
  ws.rtakeWhile fun w => !w.isClear

theorem sinceClear_clear (ws : List (KeyedWrite κ β)) : sinceClear (ws ++ [clear]) = [] :=
  List.rtakeWhile_concat_neg _ _ _ (by simp [isClear])

theorem sinceClear_snoc (ws : List (KeyedWrite κ β)) {w : KeyedWrite κ β} (h : w.isClear = false) :
    sinceClear (ws ++ [w]) = sinceClear ws ++ [w] :=
  List.rtakeWhile_concat_pos _ _ _ (by simp [h])

section Values

variable [DecidableEq κ]

/-- What is written at `k`. -/
def valueAt (k : κ) : KeyedWrite κ β → Option β
  | put k' b => if k' = k then some b else none
  | _ => none

/-- The values written at `k`, in order. -/
def valuesAt (k : κ) (ws : List (KeyedWrite κ β)) : List β := ws.filterMap (valueAt k)

theorem valuesAt_snoc (k : κ) (ws : List (KeyedWrite κ β)) (w : KeyedWrite κ β) :
    valuesAt k (ws ++ [w]) = valuesAt k ws ++ (w.valueAt k).toList := by
  rw [valuesAt, List.filterMap_append, valuesAt]
  cases h : w.valueAt k with
  | none => simp [h]
  | some b => simp [h]

/-- The values since the map was last cleared are the last ones of all. -/
theorem valuesAt_sinceClear_suffix (k : κ) (ws : List (KeyedWrite κ β)) :
    valuesAt k (sinceClear ws) <:+ valuesAt k ws :=
  (List.rtakeWhile_suffix _ _).filterMap _

end Values

variable [Ord κ] [TransOrd κ]

def act (t : ExtTreeMap κ β) : KeyedWrite κ β → ExtTreeMap κ β
  | put k b => t.insert k b
  | clear => ∅
  | keep => t

def run (ws : List (KeyedWrite κ β)) : ExtTreeMap κ β := ws.foldl act ∅

theorem run_snoc (ws : List (KeyedWrite κ β)) (w : KeyedWrite κ β) :
    run (ws ++ [w]) = act (run ws) w := by
  rw [run, List.foldl_append]
  rfl

/-- The map has the last value written at a key since it was last cleared. -/
theorem getElem?_run [LawfulEqOrd κ] [DecidableEq κ] (ws : List (KeyedWrite κ β)) (k : κ) :
    (run ws)[k]? = (valuesAt k (sinceClear ws)).getLast? := by
  induction ws using List.reverseRecOn with
  | nil => simp [run, sinceClear, valuesAt]
  | append_singleton ws w ih =>
    rw [run_snoc]
    cases w with
    | put k' b =>
      rw [sinceClear_snoc ws rfl, valuesAt_snoc, act, ExtTreeMap.getElem?_insert]
      by_cases hk : k' = k
      · simp [valueAt, hk]
      · simp [valueAt, hk, ih]
    | clear =>
      rw [sinceClear_clear, act]
      simp [valuesAt]
    | keep =>
      rw [sinceClear_snoc ws rfl, valuesAt_snoc, act, ih]
      simp [valueAt]

end KeyedWrite

end PrismSdk.Library
