import Mathlib.Data.Int.ModEq

/-!
# Rings

A list that is read around: from a position on, and at its beginning again after its end.

* `Ring.content`: the elements from a position on, as many as are asked for;
* `content_set_end`, `content_cons`, `content_set_front`: how an element is added after the
  last one, and how the first one is taken away.
-/

namespace Ring

open List

/-- Within one round, no place is met twice. -/
theorem ne_of_lt {head i j n : ℕ} (hij : i < j) (hj : j < n) : (head + i) % n ≠ (head + j) % n := by
  intro h
  have hmod : i ≡ j [MOD n] := Nat.ModEq.add_left_cancel' head h
  rw [Nat.ModEq, Nat.mod_eq_of_lt (hij.trans hj), Nat.mod_eq_of_lt hj] at hmod
  omega

variable {α : Type*} [Inhabited α] {items : List α} {head n i j : ℕ}

/-- The `n` elements from `head` on. -/
def content (items : List α) (head n : ℕ) : List α :=
  (List.range n).map fun i => items.getD ((head + i) % items.length) default

@[simp] theorem length_content : (content items head n).length = n := by simp [content]

theorem content_succ : content items head (n + 1) =
    content items head n ++ [items.getD ((head + n) % items.length) default] := by
  simp [content, range_succ]

/-- What is at another place is not read. -/
theorem content_set (hk : ∀ i < n, (head + i) % items.length ≠ j) (x : α) :
    content (items.set j x) head n = content items head n := by
  refine map_congr_left fun i hi => ?_
  have hne := hk i (mem_range.mp hi)
  simp only [getD_eq_getElem?_getD, length_set]
  rw [List.getElem?_set_ne hne.symm]

/-- An element after the last one. -/
theorem content_set_end (hn : n < items.length) (x : α) :
    content (items.set ((head + n) % items.length) x) head (n + 1) =
      content items head n ++ [x] := by
  have hlt : (head + n) % items.length < items.length := Nat.mod_lt _ (by omega)
  rw [content_succ, content_set fun i hi => ne_of_lt hi hn, length_set]
  simp [hlt]

theorem content_cons (hhead : head < items.length) : content items head (n + 1) =
    items.getD head default :: content items ((head + 1) % items.length) n := by
  simp only [content, range_succ_eq_map, map_cons, map_map, Nat.add_zero,
    Nat.mod_eq_of_lt hhead]
  congr 1
  refine map_congr_left fun i _ => ?_
  simp only [Function.comp_apply, Nat.mod_add_mod]
  congr 2
  omega

/-- The place of the first element is not one of those that follow. -/
theorem content_set_front (hn : n < items.length) (hhead : head < items.length) (x : α) :
    content (items.set head x) ((head + 1) % items.length) n =
      content items ((head + 1) % items.length) n := by
  refine content_set (fun i hi h => ?_) x
  have hne : (head + 0) % items.length ≠ (head + (i + 1)) % items.length :=
    ne_of_lt (Nat.succ_pos i) (by omega)
  rw [Nat.add_zero, Nat.mod_eq_of_lt hhead] at hne
  rw [Nat.mod_add_mod, Nat.add_assoc, Nat.add_comm 1 i] at h
  exact hne h.symm

/-- From its beginning on, a list is read as it is. -/
theorem content_append (l m : List α) : content (l ++ m) 0 l.length = l := by
  refine ext_getElem length_content fun i hi hi' => ?_
  have hlt : i < l.length + m.length := by omega
  simp [content, Nat.mod_eq_of_lt hlt, List.getElem?_append_left hi', List.getElem?_eq_getElem hi']

end Ring
