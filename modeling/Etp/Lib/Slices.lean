import Mathlib.Algebra.Order.Group.Nat
import Mathlib.Data.List.Nodup

/-!
# Slices that share their arrays

A slice is a window of an array: `len` elements from its beginning, with room for `cap`.
`append` writes behind the elements of a slice into its array if there is room, and into a new
array otherwise, so two slices appended to the same slice may share what is behind it.

* `read_append`: what is read after appending;
* `Keeps s h h'`: from `h` to `h'` nothing was written but behind the elements of `s`. It holds
  of appending to `s` (`keeps_append`), and of whatever only writes behind the result of that
  (`Keeps.trans_append`), so a slice is read as before after any work on its extensions.
-/

namespace Slices

open Function

variable {α : Type*}

/-- The arrays by their numbers; `next` is the number of the next one. -/
structure Heap (α : Type*) where
  array : ℕ → List α := fun _ => []
  next : ℕ := 0

/-- The zero value is the nil slice. -/
structure Slice where
  array : ℕ := 0
  len : ℕ := 0
  cap : ℕ := 0

def Heap.read (h : Heap α) (s : Slice) : List α := (h.array s.array).take s.len

/-- `append`. A new array has room for as much as `grow` says, and for what is needed. -/
def Heap.append (grow : ℕ → ℕ) (h : Heap α) (s : Slice) (xs : List α) : Heap α × Slice :=
  if s.len + xs.length ≤ s.cap then
    let array := h.read s ++ xs ++ (h.array s.array).drop (s.len + xs.length)
    ({ h with array := update h.array s.array array },
      { s with len := s.len + xs.length })
  else
    ({ array := update h.array h.next (h.read s ++ xs), next := h.next + 1 },
      ⟨h.next, s.len + xs.length, max (s.len + xs.length) (grow (s.len + xs.length))⟩)

/-- A slice of an array that was made, or without elements. -/
structure Valid (h : Heap α) (s : Slice) : Prop where
  made : s.array < h.next ∨ s.len = 0
  len : s.len ≤ (h.array s.array).length
  cap : s.array < h.next ∨ s.cap = 0

/-- From one state to another, slices are as they were if they have no elements behind those
    of `s`. -/
def Keeps (s : Slice) (h h' : Heap α) : Prop :=
  h.next ≤ h'.next ∧ ∀ t, Valid h t → (t.array = s.array → t.len ≤ s.len) →
    Valid h' t ∧ h'.read t = h.read t

variable (grow : ℕ → ℕ) {h h₁ h₂ : Heap α} {s t : Slice} (xs : List α)

theorem valid_nil : Valid h {} := ⟨.inr rfl, Nat.zero_le _, .inr rfl⟩

theorem Valid.length_read (hs : Valid h s) : (h.read s).length = s.len := by
  simp [Heap.read, hs.len]

theorem read_append (hs : Valid h s) : Valid (h.append grow s xs).1 (h.append grow s xs).2 ∧
    (h.append grow s xs).1.read (h.append grow s xs).2 = h.read s ++ xs := by
  have hlen := hs.length_read
  unfold Heap.append
  split
  · rename_i hroom
    have hread : ∀ l : List α, (h.read s ++ xs ++ l).take (s.len + xs.length) = h.read s ++ xs :=
      fun l => List.take_left' (by simp [hlen])
    refine ⟨⟨?_, by simp [hlen], ?_⟩, by simp [Heap.read] at hread ⊢; exact hread _⟩
    · rcases hs.cap with hmade | hcap
      · exact .inl hmade
      · exact .inr (by simp only; omega)
    · exact hs.cap
  · refine ⟨⟨.inl (Nat.lt_succ_self _), by simp [hlen], .inl (Nat.lt_succ_self _)⟩, ?_⟩
    show (update h.array h.next (h.read s ++ xs) h.next).take (s.len + xs.length) = _
    rw [update_self]
    exact List.take_of_length_le (by simp [hlen])

theorem Keeps.refl (s : Slice) (h : Heap α) : Keeps s h h :=
  ⟨le_rfl, fun _ ht _ => ⟨ht, rfl⟩⟩

theorem Keeps.trans (h01 : Keeps s h h₁) (h12 : Keeps s h₁ h₂) : Keeps s h h₂ := by
  refine ⟨h01.1.trans h12.1, fun t ht hts => ?_⟩
  obtain ⟨ht1, hr1⟩ := h01.2 t ht hts
  obtain ⟨ht2, hr2⟩ := h12.2 t ht1 hts
  exact ⟨ht2, hr2.trans hr1⟩

/-- The slice itself is as it was. -/
theorem Keeps.self (hk : Keeps s h h₁) (hs : Valid h s) : Valid h₁ s ∧ h₁.read s = h.read s :=
  hk.2 s hs fun _ => le_rfl

/-- Appending writes behind the elements of the slice, or elsewhere. -/
theorem keeps_append (hs : Valid h s) : Keeps s h (h.append grow s xs).1 := by
  unfold Heap.append
  split
  · refine ⟨le_rfl, fun t ht hts => ?_⟩
    by_cases hst : t.array = s.array
    · have hpre : ((h.read s ++ xs ++ (h.array s.array).drop (s.len + xs.length)).take t.len) =
          h.read t := by
        have hle := hts hst
        rw [List.append_assoc, List.take_append_of_le_length (by rw [hs.length_read]; exact hle)]
        simp [Heap.read, hst, List.take_take, hle]
      refine ⟨⟨ht.made, ?_, ht.cap⟩, by simpa [Heap.read, hst] using hpre⟩
      have := hts hst
      simp only [hst, update_self, List.length_append, hs.length_read]
      omega
    · refine ⟨⟨ht.made, ?_, ht.cap⟩, ?_⟩ <;> simp [Heap.read, update_of_ne hst, ht.len]
  · refine ⟨Nat.le_succ _, fun t ht _ => ?_⟩
    rcases ht.made with hmade | hzero
    · have hne : t.array ≠ h.next := hmade.ne
      refine ⟨⟨.inl (hmade.trans (Nat.lt_succ_self _)), ?_,
        ht.cap.imp_left (·.trans (Nat.lt_succ_self _))⟩, ?_⟩ <;>
        simp [Heap.read, update_of_ne hne, ht.len]
    · exact ⟨⟨.inr hzero, by simp [hzero], ht.cap.imp_left (·.trans (Nat.lt_succ_self _))⟩,
        by simp [Heap.read, hzero]⟩

/-- What only writes behind an extension of a slice only writes behind the slice. -/
theorem Keeps.trans_append {grow : ℕ → ℕ} {xs : List α} (hs : Valid h s)
    (hk : Keeps (h.append grow s xs).2 (h.append grow s xs).1 h₂) : Keeps s h h₂ := by
  have happ := keeps_append grow xs hs
  refine ⟨happ.1.trans hk.1, fun t ht hts => ?_⟩
  obtain ⟨ht1, hr1⟩ := happ.2 t ht hts
  have hlen : t.array = (h.append grow s xs).2.array → t.len ≤ (h.append grow s xs).2.len := by
    unfold Heap.append
    split
    · exact fun harr => (hts harr).trans (Nat.le_add_right _ _)
    · intro harr
      rcases ht.made with hmade | hzero
      · exact absurd harr hmade.ne
      · exact hzero ▸ Nat.zero_le _
  obtain ⟨ht2, hr2⟩ := hk.2 t ht1 hlen
  exact ⟨ht2, hr2.trans hr1⟩

end Slices
