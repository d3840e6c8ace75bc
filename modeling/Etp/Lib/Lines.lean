import Mathlib.Data.List.Infix

/-!
# One sequence over several lines

A sender puts the items of one sequence on several lines, each of which keeps its
order and may stop; what comes off any line is put together at the other end.
With one line the order of the sequence is kept. With several it is kept as long
as the sender goes on to another line only when all it has put on the lines
before has arrived (`Ordered.put`).

`Ordered` is the invariant: only the line used last carries anything, and what
was sent is what has arrived followed by what is on that line, but for items that
were lost when the line stopped, after which nothing comes off it.
-/

namespace Lines

open List

variable {ι α : Type*} {sent arrived : List α} {last : Option ι} {line line' : ι → List α}
  {live live' : ι → Prop} {i : ι} {a : α}

/-- Of the items `sent`, the ones that have `arrived` are the first, and the others are on the line
    used last, or lost if it stopped. -/
structure Ordered (sent arrived : List α) (last : Option ι) (line : ι → List α)
    (live : ι → Prop) : Prop where
  idle : ∀ i, last ≠ some i → line i = []
  split : ∃ lost, sent = arrived ++ lost ++ last.elim [] line ∧
    (lost ≠ [] → ∀ i, last = some i → ¬ live i)

namespace Ordered

theorem start (hline : ∀ i, line i = []) : Ordered [] [] none line live where
  idle i _ := hline i
  split := ⟨[], rfl, fun h => absurd rfl h⟩

section Ordered

variable (h : Ordered sent arrived last line live)
include h

/-- What has arrived is what was sent first, in this order. -/
theorem isPrefix : arrived <+: sent := by
  obtain ⟨lost, hsent, -⟩ := h.split
  rw [hsent, append_assoc]
  exact prefix_append _ _

/-- Lines may stop. -/
theorem mono (hline : ∀ i, line' i = line i) (hlive : ∀ i, live' i → live i) :
    Ordered sent arrived last line' live' := by
  have hsame : line' = line := funext hline
  obtain ⟨lost, hsent, hlost⟩ := h.split
  subst hsame
  exact ⟨h.idle, lost, hsent, fun hl i hi hv => hlost hl i hi (hlive i hv)⟩

/-- An item is put on the line used last, or on any line if all the others have arrived. -/
theorem put (hi : last = some i ∨ arrived = sent) (hline : line' i = line i ++ [a])
    (hothers : ∀ j, j ≠ i → line' j = line j) :
    Ordered (sent ++ [a]) arrived (some i) line' live := by
  obtain ⟨lost, hsent, hlost⟩ := h.split
  rcases hi with rfl | hall
  · refine ⟨fun j hj => ?_, lost, ?_, hlost⟩
    · rw [hothers j fun hji => hj (congrArg some hji.symm)]
      exact h.idle j hj
    · rw [hsent, Option.elim_some, Option.elim_some, hline, append_assoc]
  · -- nothing is on its way, so every line is empty
    have hrest : lost = [] ∧ last.elim [] line = [] := by
      rw [← hall, append_assoc] at hsent
      exact append_eq_nil_iff.mp (self_eq_append_right.mp hsent)
    have hempty : ∀ j, line j = [] := by
      intro j
      by_cases hj : last = some j
      · rw [hj] at hrest
        exact hrest.2
      · exact h.idle j hj
    refine ⟨fun j hj => ?_, [], ?_, fun hl => absurd rfl hl⟩
    · rw [hothers j fun hji => hj (congrArg some hji.symm), hempty j]
    · rw [hall, Option.elim_some, hline, hempty i, append_nil, nil_append]

/-- An item on a line is on the line used last. -/
theorem last_eq {rest : List α} (hline : line i = a :: rest) : last = some i := by
  by_contra hne
  rw [h.idle i hne] at hline
  cases hline

/-- The first item of a line that goes on arrives. -/
theorem take (hlive : live i) (hline : line i = a :: line' i)
    (hothers : ∀ j, j ≠ i → line' j = line j) : Ordered sent (arrived ++ [a]) last line' live := by
  obtain ⟨lost, hsent, hlost⟩ := h.split
  have hlast := h.last_eq hline
  subst hlast
  have hnone : lost = [] := by
    by_contra hl
    exact hlost hl i rfl hlive
  refine ⟨fun j hj => ?_, [], ?_, fun hl => absurd rfl hl⟩
  · rw [hothers j fun hji => hj (congrArg some hji.symm)]
    exact h.idle j hj
  · rw [hsent, hnone, Option.elim_some, Option.elim_some, hline]
    simp

/-- The first item of a line is lost, and the line stops. -/
theorem lose (hstop : ¬ live' i) (hline : line i = a :: line' i)
    (hothers : ∀ j, j ≠ i → line' j = line j) : Ordered sent arrived last line' live' := by
  obtain ⟨lost, hsent, -⟩ := h.split
  have hlast := h.last_eq hline
  subst hlast
  refine ⟨fun j hj => ?_, lost ++ [a], ?_, fun _ j hj => ?_⟩
  · rw [hothers j fun hji => hj (congrArg some hji.symm)]
    exact h.idle j hj
  · rw [hsent, Option.elim_some, Option.elim_some, hline]
    simp
  · obtain rfl := Option.some.inj hj
    exact hstop

end Ordered

end Ordered

end Lines
