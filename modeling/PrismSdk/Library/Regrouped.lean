import PrismSdk.Library.RecentMemory

/-! Two memories that were given the same items under a renaming, some of them in
groups that each memory took in its own order. As long as no group is cut, the
memories hold the same items; a group that was cut keeps its place, so that later
items are forgotten at the same time in both. -/

namespace PrismSdk.Library.RecentMemory

variable {α β : Type*}

/-- The items of `xs` that are unknown when their turn comes. -/
def news [DecidableEq α] (n : ℕ) : List α → List α → List α
  | _, [] => []
  | memory, x :: xs =>
    if x ∈ memory then news n memory xs else x :: news n (push n memory x) xs

/-- The right memory is the left one renamed by `φ`, but for the order inside the groups
of `G`. What a group has lost is `gone`. -/
inductive Regrouped (φ : α → β) (G : List α → Prop) (gone : α → Prop) : List α → List β → Prop
  | nil : Regrouped φ G gone [] []
  | single (x : α) {m : List α} {m' : List β} (h : Regrouped φ G gone m m') :
    Regrouped φ G gone (x :: m) (φ x :: m')
  | group {lost kept : List α} {lost' kept' : List β} {m : List α} {m' : List β}
    (hg : G (lost ++ kept)) (hperm : (lost' ++ kept').Perm ((lost ++ kept).map φ))
    (hlen : kept'.length = kept.length) (hlost : ∀ x ∈ lost, gone x)
    (h : Regrouped φ G gone m m') : Regrouped φ G gone (kept ++ m) (kept' ++ m')

namespace Regrouped

variable {φ : α → β} {G G' : List α → Prop} {gone gone' : α → Prop} {m : List α} {m' : List β}

theorem length_eq (h : Regrouped φ G gone m m') : m'.length = m.length := by
  induction h with
  | nil => rfl
  | single x _ ih => rw [List.length_cons, List.length_cons, ih]
  | group _ _ hlen _ _ ih => rw [List.length_append, List.length_append, hlen, ih]

theorem mono (h : Regrouped φ G gone m m') (hG : ∀ l, G l → G' l)
    (hgone : ∀ l, G l → ∀ x ∈ l, gone x → gone' x) : Regrouped φ G' gone' m m' := by
  induction h with
  | nil => exact .nil
  | single x _ ih => exact .single x ih
  | group hg hperm hlen hlost _ ih =>
    exact .group (hG _ hg) hperm hlen
      (fun x hx => hgone _ hg x (List.mem_append_left _ hx) (hlost x hx)) ih

/-- A group that the memory has lost as a whole is a group no more. -/
theorem prune (h : Regrouped φ G gone m m') {memory : List α} (hm : m ⊆ memory)
    (hG : ∀ l, G l → G' l ∨ ∀ x ∈ l, x ∉ memory) : Regrouped φ G' gone m m' := by
  induction h with
  | nil => exact .nil
  | single x _ ih => exact .single x (ih fun y hy => hm (List.mem_cons_of_mem x hy))
  | @group lost kept lost' kept' m m' hg hperm hlen hlost _ ih =>
    have ih := ih fun y hy => hm (List.mem_append_right kept hy)
    rcases hG _ hg with hg | hnone
    · exact .group hg hperm hlen hlost ih
    · have hkept : kept = [] := by
        rw [List.eq_nil_iff_forall_not_mem]
        exact fun y hy => hnone y (List.mem_append_right lost hy) (hm (List.mem_append_left m hy))
      subst hkept
      obtain rfl := List.length_eq_zero_iff.1 hlen
      exact ih

theorem append (h : Regrouped φ G gone m m') {xs : List α} {xs' : List β}
    (hx : Regrouped φ G gone xs xs') : Regrouped φ G gone (m ++ xs) (m' ++ xs') := by
  induction h with
  | nil => exact hx
  | single x _ ih => exact .single x ih
  | group hg hperm hlen hlost _ ih =>
    rw [List.append_assoc, List.append_assoc]
    exact .group hg hperm hlen hlost ih

/-- Items that are not in a group. -/
theorem of_map (xs : List α) : Regrouped φ G gone xs (xs.map φ) := by
  induction xs with
  | nil => exact .nil
  | cons x xs ih => exact .single x ih

/-- A whole group. -/
theorem of_perm {xs : List α} {xs' : List β} (hg : G xs) (h : xs'.Perm (xs.map φ)) :
    Regrouped φ G gone xs xs' := by
  have hlen : xs'.length = xs.length := by rw [h.length_eq, List.length_map]
  have hwhole : Regrouped φ G gone (xs ++ []) (xs' ++ []) :=
    .group (show G ([] ++ xs) from hg) (show ([] ++ xs').Perm (([] ++ xs).map φ) from h) hlen
      (List.forall_mem_nil _) .nil
  rwa [List.append_nil, List.append_nil] at hwhole

/-- Both memories forget their oldest item. -/
theorem tail (h : Regrouped φ G gone m m') (hgone : ∀ x ∈ m.head?, gone x) :
    Regrouped φ G gone m.tail m'.tail := by
  induction h with
  | nil => exact .nil
  | single x h _ => exact h
  | @group lost kept lost' kept' m m' hg hperm hlen hlost h ih =>
    cases kept with
    | nil =>
      obtain rfl := List.length_eq_zero_iff.1 hlen
      exact ih hgone
    | cons x kept =>
      obtain ⟨x', kept', rfl⟩ : ∃ x' t, kept' = x' :: t :=
        List.exists_cons_of_length_eq_add_one hlen
      have hcut : lost ++ x :: kept = (lost ++ [x]) ++ kept := by simp
      have hcut' : lost' ++ x' :: kept' = (lost' ++ [x']) ++ kept' := by simp
      rw [hcut] at hg hperm
      rw [hcut'] at hperm
      refine .group hg hperm (Nat.succ.inj hlen) (fun y hy => ?_) h
      rcases List.mem_append.1 hy with hy | hy
      · exact hlost y hy
      · rw [List.mem_singleton.1 hy]
        exact hgone x rfl

theorem drop (h : Regrouped φ G gone m m') {i : ℕ} (hgone : ∀ x ∈ m.take i, gone x) :
    Regrouped φ G gone (m.drop i) (m'.drop i) := by
  induction i with
  | zero => exact h
  | succ i ih =>
    have hi := ih fun x hx => hgone x (List.take_subset_take_left m (Nat.le_succ i) hx)
    rw [← List.tail_drop, ← List.tail_drop]
    refine hi.tail fun x hx => hgone x ?_
    rw [List.head?_drop] at hx
    rw [List.take_add_one, hx]
    simp

/-- Both memories forget what is older than the last `n` items. -/
theorem rtake {n : ℕ} (h : Regrouped φ G gone m m') (hm : m.Nodup)
    (hgone : ∀ x ∈ m, x ∉ m.rtake n → gone x) : Regrouped φ G gone (m.rtake n) (m'.rtake n) := by
  rw [List.rtake, List.rtake, h.length_eq]
  refine h.drop fun x hx => hgone x (List.mem_of_mem_take hx) fun hkept => ?_
  rw [← List.take_append_drop (m.length - n) m, List.nodup_append] at hm
  exact hm.2.2 x hx x hkept rfl

/-- An item is in both memories or in none, unless its group was cut. -/
theorem mem_iff (h : Regrouped φ G gone m m') (hφ : Function.Injective φ) {x : α}
    (hx : ∀ l, G l → x ∈ l → ∀ y ∈ l, ¬ gone y) : φ x ∈ m' ↔ x ∈ m := by
  induction h with
  | nil => simp
  | single y _ ih => rw [List.mem_cons, List.mem_cons, hφ.eq_iff, ih]
  | @group lost kept lost' kept' m m' hg hperm hlen hlost _ ih =>
    rw [List.mem_append, List.mem_append, ih]
    refine or_congr ?_ Iff.rfl
    by_cases hmem : x ∈ lost ++ kept
    · have hnil : lost = [] := by
        rw [List.eq_nil_iff_forall_not_mem]
        exact fun y hy => hx _ hg hmem y (List.mem_append_left _ hy) (hlost y hy)
      have hnil' : lost' = [] := by
        have := hperm.length_eq
        rw [List.length_append, List.length_map, List.length_append, hlen, hnil] at this
        exact List.length_eq_zero_iff.1 (by simpa using this)
      rw [hnil, hnil', List.nil_append, List.nil_append] at hperm
      rw [hperm.mem_iff, List.mem_map_of_injective hφ]
    · have hmem' : φ x ∉ lost' ++ kept' := by
        rw [hperm.mem_iff, List.mem_map_of_injective hφ]
        exact hmem
      exact iff_of_false (fun h => hmem' (List.mem_append_right _ h))
        (fun h => hmem (List.mem_append_right _ h))

/-- Both memories are given items `xs`, in the order of the left one or as groups. -/
theorem pushAll {n : ℕ} (h : Regrouped φ G (· ∉ m) m m') (hm : m.length ≤ n) {xs : List α}
    {xs' : List β} (hnodup : (m ++ xs).Nodup) (hG : ∀ l, G l → ∀ x ∈ l, x ∉ xs)
    (hle : ∀ l, G l → G' l)
    (hx : Regrouped φ G' (· ∉ RecentMemory.pushAll n m xs) xs xs') :
    Regrouped φ G' (· ∉ RecentMemory.pushAll n m xs) (RecentMemory.pushAll n m xs)
      (RecentMemory.pushAll n m' xs') := by
  have hold : Regrouped φ G' (· ∉ RecentMemory.pushAll n m xs) m m' :=
    h.mono hle fun l hl x hxl hxm hmem =>
      (mem_of_mem_pushAll n hmem).elim hxm (hG l hl x hxl)
  have hall := hold.append hx
  rw [pushAll_eq_rtake n m xs hm, pushAll_eq_rtake n m' xs' (h.length_eq.trans_le hm)] at *
  exact hall.rtake hnodup fun x _ hx => hx

end Regrouped

section News

variable [DecidableEq α] {n : ℕ}

theorem news_sublist (memory xs : List α) : (news n memory xs).Sublist xs := by
  induction xs generalizing memory with
  | nil => exact List.Sublist.slnil
  | cons x xs ih =>
    unfold news
    split_ifs
    · exact (ih _).cons x
    · exact (ih _).cons_cons x

/-- Distinct items, of which the known ones are recent enough to stay while the unknown ones
are pushed: the new ones are those that are unknown at the start. -/
theorem news_eq_filter {memory xs : List α} (hn : xs.Nodup)
    (h : ∀ x ∈ xs, x ∈ memory → x ∈ memory.rtake (n - (xs.filter (· ∉ memory)).length)) :
    news n memory xs = xs.filter (· ∉ memory) := by
  induction xs generalizing memory with
  | nil => rfl
  | cons x xs ih =>
    rw [List.nodup_cons] at hn
    rw [news]
    by_cases hx : x ∈ memory
    · rw [List.filter_cons_of_neg (by simpa using hx)] at h ⊢
      rw [if_pos hx]
      exact ih hn.2 fun y hy => h y (List.mem_cons_of_mem x hy)
    · rw [List.filter_cons_of_pos (by simpa using hx)] at h ⊢
      rw [if_neg hx]
      have hrest : ∀ y ∈ xs, y ∈ memory →
          y ∈ memory.rtake (n - (xs.filter (· ∉ memory)).length - 1) := by
        intro y hy hmem
        have := h y (List.mem_cons_of_mem x hy) hmem
        rwa [List.length_cons, ← Nat.sub_sub] at this
      have hkept : ∀ y ∈ xs, y ∈ memory →
          y ∈ (push n memory x).rtake (n - (xs.filter (· ∉ memory)).length) :=
        fun y hy hmem => mem_rtake_push n (Nat.sub_le _ _) (hrest y hy hmem)
      have hknown : ∀ y ∈ xs, y ∈ push n memory x ↔ y ∈ memory := by
        intro y hy
        constructor
        · intro hmem
          have hmem : y ∈ pushAll n memory [x] := hmem
          refine (mem_of_mem_pushAll n hmem).resolve_right fun he => hn.1 ?_
          exact List.mem_singleton.1 he ▸ hy
        · exact fun hmem => List.mem_of_mem_drop (hkept y hy hmem)
      have hfilter : xs.filter (· ∉ push n memory x) = xs.filter (· ∉ memory) :=
        List.filter_congr fun y hy => decide_eq_decide.2 (not_congr (hknown y hy))
      rw [ih hn.2 fun y hy hmem => hfilter ▸ hkept y hy ((hknown y hy).1 hmem), hfilter]

/-- Items outside the groups are new to both memories or to none. -/
theorem Regrouped.news [DecidableEq β] {φ : α → β} (hφ : Function.Injective φ)
    {G : List α → Prop} {m : List α} {m' : List β} (h : Regrouped φ G (· ∉ m) m m')
    (hm : m.length ≤ n) (hnodup : m.Nodup) {xs : List α} (hG : ∀ l, G l → ∀ x ∈ l, x ∉ xs) :
    RecentMemory.news n m' (xs.map φ) = (RecentMemory.news n m xs).map φ ∧
      Regrouped φ G (· ∉ RecentMemory.pushAll n m (RecentMemory.news n m xs))
        (RecentMemory.pushAll n m (RecentMemory.news n m xs))
        (RecentMemory.pushAll n m' (RecentMemory.news n m' (xs.map φ))) := by
  induction xs generalizing m m' with
  | nil => exact ⟨rfl, h⟩
  | cons x xs ih =>
    have hiff : φ x ∈ m' ↔ x ∈ m :=
      h.mem_iff hφ fun l hl hxl => absurd List.mem_cons_self (hG l hl x hxl)
    have hG' : ∀ l, G l → ∀ y ∈ l, y ∉ xs := fun l hl y hy hmem =>
      hG l hl y hy (List.mem_cons_of_mem x hmem)
    rw [List.map_cons, RecentMemory.news, RecentMemory.news]
    by_cases hx : x ∈ m
    · rw [if_pos hx, if_pos (hiff.2 hx)]
      exact ih h hm hnodup hG'
    · rw [if_neg hx, if_neg (mt hiff.1 hx)]
      have hpush : (m ++ [x]).Nodup := by
        rw [List.nodup_append]
        refine ⟨hnodup, List.pairwise_singleton _ x, fun y hy z hz => ?_⟩
        rw [List.mem_singleton.1 hz]
        exact fun he => hx (he ▸ hy)
      have hsingle : Regrouped φ G (· ∉ RecentMemory.pushAll n m [x]) [x] ([x].map φ) := of_map [x]
      have hnext : Regrouped φ G (· ∉ push n m x) (push n m x) (push n m' (φ x)) :=
        h.pushAll hm hpush (fun l hl y hy hmem =>
          hG l hl y hy (List.mem_singleton.1 hmem ▸ List.mem_cons_self)) (fun _ hl => hl) hsingle
      obtain ⟨heq, hreg⟩ := ih hnext (length_push_le n m x)
        (hpush.sublist (List.drop_sublist _ _)) hG'
      exact ⟨by rw [heq, List.map_cons], hreg⟩

end News

end PrismSdk.Library.RecentMemory
