import Mathlib.Data.Finset.Card

/-!
# Maps that forget the oldest keys

A map of bounded size together with the order in which its keys were put: a key that is put
anew comes last, and as soon as there are too many, those that were put first are
forgotten. A key that is put again while it is there stays where it is in the order, and
a key may be removed at any time.

* `Sound`: the keys of the map are those of the order, each once, and not too many;
* `Aged`: after a key in the order there are only keys that were put anew since it was;
* `forgotten_of_put`: so a key is only forgotten if enough others were put anew since.
-/

namespace Recent

open Function List

variable {κ α : Type}

/-- A map, and the order of its keys. -/
structure Cache (κ α : Type) where
  ids : List κ := []
  entries : κ → Option α := fun _ => none

namespace Cache

/-- The order is one of the keys of the map, which has `max` of them at most. -/
structure Sound (max : ℕ) (c : Cache κ α) : Prop where
  nodup : c.ids.Nodup
  mem : ∀ x, x ∈ c.ids ↔ (c.entries x).isSome
  length : c.ids.length ≤ max

theorem sound_empty (max : ℕ) : Sound max ({} : Cache κ α) := ⟨.nil, by simp, by simp⟩

variable [DecidableEq κ] {c : Cache κ α} {max : ℕ} {k x : κ} {v : α}

/-- A key is removed. -/
def remove (c : Cache κ α) (k : κ) : Cache κ α where
  ids := c.ids.filter (· ≠ k)
  entries := update c.entries k none

/-- The first keys are forgotten, as long as there are more than `max`. -/
def trim (max : ℕ) : List κ → (κ → Option α) → Cache κ α
  | [], entries => ⟨[], entries⟩
  | k :: ids, entries =>
    if max < (k :: ids).length then trim max ids (update entries k none)
    else ⟨k :: ids, entries⟩

/-- The order once `k` is put: it comes last if it was not there. -/
def order (c : Cache κ α) (k : κ) : List κ :=
  if c.entries k = none then c.ids.filter (· ≠ k) ++ [k] else c.ids

/-- A value is put. -/
def put (max : ℕ) (c : Cache κ α) (k : κ) (v : α) : Cache κ α :=
  trim max (c.order k) (update c.entries k (some v))

/-! ## The order and the map -/

theorem trim_ids (max : ℕ) (ids : List κ) (entries : κ → Option α) :
    (trim max ids entries).ids = ids.drop (ids.length - max) := by
  induction ids generalizing entries with
  | nil => simp [trim]
  | cons k ids ih =>
    rw [trim]
    split
    · rename_i hlt
      rw [ih, length_cons, Nat.succ_sub (by simpa [Nat.lt_succ_iff] using hlt),
        drop_succ_cons]
    · rw [Nat.sub_eq_zero_of_le (by omega), drop_zero]

theorem trim_entries (max : ℕ) (ids : List κ) (entries : κ → Option α) (x : κ) :
    (trim max ids entries).entries x =
      if x ∈ ids.take (ids.length - max) then none else entries x := by
  induction ids generalizing entries with
  | nil => simp [trim]
  | cons k ids ih =>
    rw [trim]
    split
    · rename_i hlt
      rw [ih, length_cons, Nat.succ_sub (by simpa [Nat.lt_succ_iff] using hlt),
        take_succ_cons]
      by_cases hx : x = k
      · simp [hx]
      · simp [hx]
    · rw [Nat.sub_eq_zero_of_le (by omega), take_zero]
      simp

theorem mem_order (h : Sound max c) (k x : κ) :
    x ∈ c.order k ↔ x = k ∨ x ∈ c.ids := by
  by_cases hk : c.entries k = none
  · have hnot : k ∉ c.ids := by simp [h.mem, hk]
    rw [order, if_pos hk]
    by_cases hx : x = k
    · simp [hx]
    · simp [hx]
  · have hin : k ∈ c.ids := (h.mem k).mpr (Option.isSome_iff_ne_none.mpr hk)
    rw [order, if_neg hk]
    exact ⟨.inr, fun hx => hx.elim (fun hx => hx ▸ hin) id⟩

theorem nodup_order (h : Sound max c) (k : κ) : (c.order k).Nodup := by
  rw [order]
  split
  · refine nodup_append.mpr ⟨h.nodup.filter _, by simp, ?_⟩
    simp
  · exact h.nodup

theorem Sound.put (h : Sound max c) (k : κ) (v : α) : Sound max (c.put max k v) where
  nodup := by
    rw [Cache.put, trim_ids]
    exact (nodup_order h k).drop
  mem x := by
    have hsplit := take_append_drop ((c.order k).length - max) (c.order k)
    have hnodup := nodup_order h k
    rw [← hsplit, nodup_append] at hnodup
    have hmem := mem_order h k x
    rw [← hsplit, mem_append] at hmem
    rw [Cache.put, trim_ids, trim_entries]
    by_cases htake : x ∈ (c.order k).take ((c.order k).length - max)
    · simp only [htake, if_true, Option.isSome_none, Bool.false_eq_true, iff_false]
      exact fun hdrop => hnodup.2.2 x htake x hdrop rfl
    · simp only [htake, if_false, false_or] at hmem ⊢
      rw [hmem, h.mem]
      by_cases hx : x = k
      · simp [hx]
      · simp [hx]
  length := by
    rw [Cache.put, trim_ids, length_drop]
    omega

theorem Sound.remove (h : Sound max c) (k : κ) : Sound max (c.remove k) where
  nodup := h.nodup.filter _
  mem x := by
    rw [Cache.remove, mem_filter, h.mem]
    by_cases hx : x = k
    · simp [hx]
    · simp [hx]
  length := (length_filter_le _ _).trans h.length

theorem remove_entries_of_ne (hx : x ≠ k) : (c.remove k).entries x = c.entries x :=
  update_of_ne hx _ _

/-! ## What was put since -/

/-- The keys that were put anew since `x` was, once `k` is put. -/
def since (c : Cache κ α) (s : κ → Finset κ) (k x : κ) : Finset κ :=
  if c.entries k ≠ none then s x else if x = k then ∅ else insert k (s x)

/-- What comes after a key was put anew since. -/
def Aged (c : Cache κ α) (s : κ → Finset κ) : Prop := c.ids.Pairwise fun x y => y ∈ s x

variable {s : κ → Finset κ}

theorem aged_order (h : Sound max c) (ha : c.Aged s) (k : κ) :
    (c.order k).Pairwise fun x y => y ∈ c.since s k x := by
  by_cases hk : c.entries k = none
  · have hnot : k ∉ c.ids := by simp [h.mem, hk]
    rw [order, if_pos hk, pairwise_append]
    refine ⟨(List.Pairwise.filter _ ha).imp_of_mem fun {x y} hx _ hy => ?_, by simp, ?_⟩
    · have hne : x ≠ k := by simpa using (mem_filter.mp hx).2
      rw [since, if_neg (not_not.mpr hk), if_neg hne]
      exact Finset.mem_insert_of_mem hy
    · intro x hx y hy
      obtain rfl := mem_singleton.mp hy
      have hne : x ≠ y := by simpa using (mem_filter.mp hx).2
      rw [since, if_neg (not_not.mpr hk), if_neg hne]
      exact Finset.mem_insert_self _ _
  · rw [order, if_neg hk]
    refine ha.imp fun {x y} hy => ?_
    rwa [since, if_pos hk]

theorem Aged.put (ha : c.Aged s) (h : Sound max c) (k : κ) (v : α) :
    (c.put max k v).Aged (c.since s k) := by
  rw [Aged, Cache.put, trim_ids]
  exact (aged_order h ha k).drop

theorem Aged.remove (ha : c.Aged s) (k : κ) : (c.remove k).Aged s := List.Pairwise.filter _ ha

/-- A key that is forgotten is one since which at least `max` others were put anew. -/
theorem forgotten_of_put (h : Sound max c) (ha : c.Aged s)
    (hx : x = k ∨ c.entries x ≠ none) (hnone : (c.put max k v).entries x = none) :
    max ≤ (c.since s k x).card := by
  have hsplit := take_append_drop ((c.order k).length - max) (c.order k)
  have haged := aged_order h ha k
  rw [Cache.put, trim_entries] at hnone
  by_cases htake : x ∈ (c.order k).take ((c.order k).length - max)
  · -- all that is kept comes after `x` in the order
    rw [← hsplit, pairwise_append] at haged
    have hkept : ((c.order k).drop ((c.order k).length - max)).toFinset ⊆ c.since s k x :=
      fun y hy => haged.2.2 x htake y (mem_toFinset.mp hy)
    have hlt : max < (c.order k).length := by
      by_contra hle
      rw [Nat.sub_eq_zero_of_le (not_lt.mp hle), take_zero] at htake
      exact absurd htake (by simp)
    calc max = ((c.order k).drop ((c.order k).length - max)).length := by
          rw [length_drop]
          omega
      _ = ((c.order k).drop ((c.order k).length - max)).toFinset.card :=
          (toFinset_card_of_nodup (nodup_order h k).drop).symm
      _ ≤ _ := Finset.card_le_card hkept
  · rw [if_neg htake] at hnone
    by_cases hk : x = k
    · simp [hk] at hnone
    · rw [update_of_ne hk] at hnone
      exact absurd hnone (hx.resolve_left hk)

/-- A key that is kept has the value that was put last. -/
theorem put_entries (c : Cache κ α) (k : κ) (v : α) (x : κ) :
    (c.put max k v).entries x = none ∨
      (c.put max k v).entries x = if x = k then some v else c.entries x := by
  rw [put, trim_entries]
  split
  · exact .inl rfl
  · refine .inr ?_
    by_cases hx : x = k
    · simp [hx]
    · simp [hx]

end Cache

end Recent
