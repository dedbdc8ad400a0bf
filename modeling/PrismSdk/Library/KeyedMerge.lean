import Mathlib.Order.Bounds.Basic
import Mathlib.Data.List.Induction
import Std.Data.ExtTreeMap.Lemmas

/-! Items merged by their keys into an ordered map. The first item of a key makes the value,
every later one is merged into it, so that the value at a key is a fold over the items of
that key alone. The merging of optional numbers that keeps the greatest is one such fold. -/

namespace PrismSdk.Library

open Std (ExtTreeMap TransOrd LawfulEqOrd)

universe u v w

variable {κ : Type u} {α : Type v} {β : Type w}

/-- How items are merged. -/
structure Merging (κ : Type u) (α : Type v) (β : Type w) where
  key : α → κ
  /-- The value of the first item of a key. -/
  make : α → β
  /-- The value with one more item of its key. -/
  merge : β → α → β

namespace Merging

variable (M : Merging κ α β)

/-- The value of items of one key. -/
def value : List α → Option β
  | [] => none
  | a :: as => some (as.foldl M.merge (M.make a))

theorem value_snoc (as : List α) (a : α) :
    M.value (as ++ [a]) = some (match M.value as with
      | none => M.make a
      | some b => M.merge b a) := by
  cases as with
  | nil => rfl
  | cons a' as => simp [value]

/-- What the first item has and merging keeps, the value has. -/
theorem value_induction {P : List α → β → Prop} (make : ∀ a, P [a] (M.make a))
    (merge : ∀ as b a, P as b → P (as ++ [a]) (M.merge b a)) {as : List α} {b : β}
    (h : M.value as = some b) : P as b := by
  induction as using List.reverseRecOn generalizing b with
  | nil => cases h
  | append_singleton as a ih =>
    rw [value_snoc] at h
    obtain rfl := Option.some.inj h
    cases hold : M.value as with
    | none =>
      cases as with
      | nil => exact make a
      | cons a' as => cases hold
    | some b => exact merge as b a (ih hold)

variable [Ord κ] [TransOrd κ] [LawfulEqOrd κ]

/-- One item, merged into the map. -/
def add (t : ExtTreeMap κ β) (a : α) : ExtTreeMap κ β :=
  t.insert (M.key a) (match t[M.key a]? with
    | none => M.make a
    | some b => M.merge b a)

/-- The values of the merged items, by increasing key. -/
def results (as : List α) : List β := (as.foldl M.add ∅).toList.map Prod.snd

/-- The value at a key comes from the items of the key. -/
theorem getElem?_foldl_add [DecidableEq κ] (as : List α) (k : κ) :
    (as.foldl M.add ∅)[k]? = M.value (as.filter fun a => M.key a = k) := by
  induction as using List.reverseRecOn with
  | nil => simp [value]
  | append_singleton as a ih =>
    rw [List.foldl_append, List.filter_append, List.foldl_cons, List.foldl_nil, add,
      ExtTreeMap.getElem?_insert]
    by_cases hk : M.key a = k
    · subst hk
      simp [ih, value_snoc]
    · simp [hk, ih]

theorem mem_results [DecidableEq κ] {as : List α} {b : β} :
    b ∈ M.results as ↔ ∃ k, M.value (as.filter fun a => M.key a = k) = some b := by
  simp only [results, List.mem_map, Prod.exists, ExtTreeMap.mem_toList_iff_getElem?_eq_some,
    getElem?_foldl_add, exists_eq_right]

section Keys

variable {M} {keyOf : β → κ} (make : ∀ a, keyOf (M.make a) = M.key a)
  (merge : ∀ b a, keyOf (M.merge b a) = keyOf b)

include make merge

omit [Ord κ] [TransOrd κ] [LawfulEqOrd κ] in
theorem keyOf_value {as : List α} {k : κ} (has : ∀ a ∈ as, M.key a = k) {b : β}
    (h : M.value as = some b) : keyOf b = k := by
  revert has
  refine M.value_induction (P := fun as b => (∀ a ∈ as, M.key a = k) → keyOf b = k) ?_ ?_ h
  · intro a ha
    rw [make, ha a (List.mem_singleton_self a)]
  · intro as b a ih has
    rw [merge]
    exact ih fun a' ha' => has a' (List.mem_append_left _ ha')

/-- The value at a key, of the items of the key. -/
theorem mem_results_iff [DecidableEq κ] {as : List α} {b : β} :
    b ∈ M.results as ↔ M.value (as.filter fun a => M.key a = keyOf b) = some b := by
  rw [mem_results]
  refine ⟨fun ⟨k, hk⟩ => ?_, fun h => ⟨_, h⟩⟩
  have hkey : keyOf b = k :=
    keyOf_value make merge (fun a ha => of_decide_eq_true (List.mem_filter.1 ha).2) hk
  rwa [hkey]

theorem map_keyOf_results (as : List α) :
    (M.results as).map keyOf = (as.foldl M.add ∅).toList.map Prod.fst := by
  classical
  rw [results, List.map_map]
  refine List.map_congr_left fun entry hentry => ?_
  have hk : (as.foldl M.add ∅)[entry.1]? = some entry.2 :=
    ExtTreeMap.mem_toList_iff_getElem?_eq_some.1 hentry
  rw [getElem?_foldl_add] at hk
  exact keyOf_value make merge (fun a ha => of_decide_eq_true (List.mem_filter.1 ha).2) hk

/-- The results stand in the order of their keys, each key once. -/
theorem pairwise_results (as : List α) :
    ((M.results as).map keyOf).Pairwise fun k k' => compare k k' = .lt := by
  rw [map_keyOf_results make merge, List.pairwise_map]
  exact ExtTreeMap.ordered_keys_toList

theorem mem_map_results [DecidableEq κ] {as : List α} {k : κ} :
    k ∈ (M.results as).map keyOf ↔ ∃ a ∈ as, M.key a = k := by
  rw [map_keyOf_results make merge, ExtTreeMap.map_fst_toList_eq_keys, ExtTreeMap.mem_keys,
    ExtTreeMap.mem_iff_isSome_getElem?, getElem?_foldl_add]
  cases hitems : as.filter fun a => M.key a = k with
  | nil =>
    simp only [List.filter_eq_nil_iff, decide_eq_true_eq] at hitems
    simpa [value] using hitems
  | cons a rest =>
    have ha : a ∈ as.filter fun a => M.key a = k := hitems ▸ List.mem_cons_self
    simp only [List.mem_filter, decide_eq_true_eq] at ha
    simpa [value] using ⟨a, ha⟩

end Keys

end Merging

/-! ### The greatest of optional values -/

/-- `best` is the greatest of the values among `xs`, when there is one. -/
def IsBest {α : Type v} [LE α] (xs : List (Option α)) : Option α → Prop
  | none => ∀ x ∈ xs, x = none
  | some best => IsGreatest {x | some x ∈ xs} best

/-- The old value, unless the new one is greater. -/
def better {α : Type v} (less : α → α → Bool) : Option α → Option α → Option α
  | old, none => old
  | none, some x => some x
  | some y, some x => if less y x then some x else some y

theorem isBest_singleton {α : Type v} [Preorder α] (x : Option α) : IsBest [x] x := by
  cases x with
  | none => simp [IsBest]
  | some x => simp [IsBest, isGreatest_singleton]

theorem IsBest.eq_none_iff {α : Type v} [LE α] {xs : List (Option α)} {best : Option α}
    (h : IsBest xs best) : best = none ↔ ∀ x ∈ xs, x = none := by
  cases best with
  | none => exact ⟨fun _ => h, fun _ => rfl⟩
  | some y => exact ⟨fun heq => (nomatch heq), fun hnone => hnone _ h.1⟩

theorem IsBest.snoc {α : Type v} [LinearOrder α] {less : α → α → Bool}
    (hless : ∀ x y, less x y = decide (x < y)) {xs : List (Option α)} {best : Option α}
    (h : IsBest xs best) (x : Option α) : IsBest (xs ++ [x]) (better less best x) := by
  cases x with
  | none =>
    cases best with
    | none => simpa [better, IsBest, or_imp, forall_and] using h
    | some y => simpa [better, IsBest] using h
  | some x =>
    cases best with
    | none =>
      refine ⟨by simp, fun y hy => ?_⟩
      rcases List.mem_append.1 hy with hold | hnew
      · exact absurd (h _ hold) (by simp)
      · exact (Option.some.inj (List.mem_singleton.1 hnew)).le
    | some y =>
      have hmem : ∀ z, some z ∈ xs ++ [some x] → z ≤ y ∨ z = x := by
        intro z hz
        rcases List.mem_append.1 hz with hold | hnew
        · exact .inl (h.2 hold)
        · exact .inr (Option.some.inj (List.mem_singleton.1 hnew))
      rw [better, hless]
      by_cases hlt : y < x
      · rw [if_pos (decide_eq_true hlt)]
        refine ⟨by simp, fun z hz => ?_⟩
        rcases hmem z hz with hle | rfl
        · exact hle.trans hlt.le
        · exact le_rfl
      · rw [if_neg (by simpa using hlt)]
        refine ⟨List.mem_append_left _ h.1, fun z hz => ?_⟩
        rcases hmem z hz with hle | rfl
        · exact hle
        · exact not_lt.1 hlt

section Choice

variable {less : α → α → Bool} {xs : List (Option α)}

/-- What is kept of values compared one after the other is one of them, if there are any. -/
theorem foldl_better (less : α → α → Bool) (xs : List (Option α)) :
    (xs.foldl (better less) none = none → ∀ x ∈ xs, x = none) ∧
      ∀ best ∈ xs.foldl (better less) none, some best ∈ xs := by
  induction xs using List.reverseRecOn with
  | nil => exact ⟨fun _ _ => nofun, fun _ => nofun⟩
  | append_singleton xs x ih =>
    obtain ⟨hnone, hsome⟩ := ih
    rw [List.foldl_append, List.foldl_cons, List.foldl_nil]
    cases hbest : xs.foldl (better less) none with
    | none =>
      cases x with
      | none => simpa [better, or_imp, forall_and] using hnone hbest
      | some x => simp [better]
    | some y =>
      have hy := hsome y hbest
      cases x with
      | none => simp [better, hy]
      | some x =>
        rw [better]
        split_ifs <;> simp [hy]

/-- Where the comparison is that of heights on the values compared, the highest is kept. -/
theorem foldl_better_le {γ : Type w} [LinearOrder γ] (height : α → γ)
    (hless : ∀ x y, some x ∈ xs → some y ∈ xs → (less y x = true ↔ height y < height x)) :
    ∀ best ∈ xs.foldl (better less) none, ∀ y, some y ∈ xs → height y ≤ height best := by
  induction xs using List.reverseRecOn with
  | nil => exact fun _ => nofun
  | append_singleton xs x ih =>
    intro best hkept z hz
    have ih := ih fun x y hx hy =>
      hless x y (List.mem_append_left _ hx) (List.mem_append_left _ hy)
    have hz : some z ∈ xs ∨ some z = x := by simpa using hz
    obtain ⟨hnone, hsome⟩ := foldl_better less xs
    rw [List.foldl_append, List.foldl_cons, List.foldl_nil] at hkept
    cases hbest : xs.foldl (better less) none with
    | none =>
      rw [hbest] at hkept
      have hlast : x = some best := by cases x <;> simp_all [better]
      rcases hz with hz | hz
      · cases hnone hbest _ hz
      · exact (Option.some.inj (hz.trans hlast)).symm ▸ le_rfl
    | some y =>
      have hold := ih y hbest
      rw [hbest] at hkept
      cases x with
      | none =>
        obtain rfl := Option.mem_some_iff.1 hkept
        exact hold z (hz.resolve_right nofun)
      | some x =>
        have hcompare := hless x y (by simp) (List.mem_append_left _ (hsome y hbest))
        rw [better] at hkept
        split_ifs at hkept with hlt
        · obtain rfl := Option.mem_some_iff.1 hkept
          rcases hz with hz | hz
          · exact (hold z hz).trans (hcompare.1 hlt).le
          · rw [Option.some.inj hz]
        · obtain rfl := Option.mem_some_iff.1 hkept
          rcases hz with hz | hz
          · exact hold z hz
          · rw [Option.some.inj hz]
            exact not_lt.1 fun h => hlt (hcompare.2 h)

end Choice

end PrismSdk.Library
