import Etp.Lib.Ring

/-!
# The queues of the send queue

`sendItemQueue` keeps its items in a slice that is read around (`Ring.content`). What Go
checks when it runs is checked here as well: an index out of range and a division by zero are
`none`.

* `push_content`, `pop_content`: the operations are those of a list, and do not fail;
* `ring_is_queue`: so are all sequences of them, from an empty slice of any length on; this is
  why the model of the writer has lists (`SessionWriter.queue`).
-/

namespace Etp.Writer

open List

/-! ## Slices -/

section Slices

variable {α : Type}

/-- `l[i]`. -/
def index (l : List α) (i : ℕ) : Option α := l[i]?

/-- `l[i] = x`. -/
def assign (l : List α) (i : ℕ) (x : α) : Option (List α) :=
  if i < l.length then some (l.set i x) else none

/-- `a % b`. -/
def modulo (a b : ℕ) : Option ℕ := if b = 0 then none else some (a % b)

theorem index_eq [Inhabited α] {l : List α} {i : ℕ} (h : i < l.length) :
    index l i = some (l.getD i default) := by
  simp [index, h]

theorem assign_eq {l : List α} {i : ℕ} (h : i < l.length) (x : α) :
    assign l i x = some (l.set i x) :=
  if_pos h

theorem modulo_eq {a b : ℕ} (h : 0 < b) : modulo a b = some (a % b) := if_neg h.ne'

end Slices

/-! ## The operations -/

structure SendItemQueue (α : Type) where
  items : List α := []
  head : ℕ := 0
  size : ℕ := 0

namespace SendItemQueue

variable {α : Type} [Inhabited α]

/-- The slice is replaced by one of twice its length. -/
def grow (q : SendItemQueue α) : Option (SendItemQueue α) := do
  let capacity := if q.items.length * 2 = 0 then 64 else q.items.length * 2
  let items ← (List.range q.size).foldlM (fun items i => do
    let j ← modulo (q.head + i) q.items.length
    let item ← index q.items j
    assign items i item) (List.replicate capacity default)
  return { q with items := items, head := 0 }

/-- A slice that is full grows. -/
def makeRoom (q : SendItemQueue α) : Option (SendItemQueue α) :=
  if q.size = q.items.length then q.grow else some q

def push (q : SendItemQueue α) (item : α) : Option (SendItemQueue α) := do
  let q ← q.makeRoom
  let j ← modulo (q.head + q.size) q.items.length
  let items ← assign q.items j item
  return { q with items := items, size := q.size + 1 }

def pop (q : SendItemQueue α) : Option (Option α × SendItemQueue α) :=
  if q.size = 0 then some (none, q)
  else do
    let item ← index q.items q.head
    let items ← assign q.items q.head default
    let head ← modulo (q.head + 1) items.length
    let size := q.size - 1
    return (some item, ⟨items, if size = 0 then 0 else head, size⟩)

/-! ## The list of a queue -/

/-- The items of a queue, oldest first. -/
def content (q : SendItemQueue α) : List α := Ring.content q.items q.head q.size

/-- There are not more items than the slice has places, and the head is one of these. -/
structure WellFormed (q : SendItemQueue α) : Prop where
  size : q.size ≤ q.items.length
  head : 0 < q.items.length → q.head < q.items.length

variable {q : SendItemQueue α}

/-- The loop that fills the new slice. -/
theorem copy_eq (hsize : q.size ≤ q.items.length) {capacity n : ℕ} (hn : n ≤ q.size)
    (hcapacity : q.size ≤ capacity) :
    (List.range n).foldlM (fun items i => do
      let j ← modulo (q.head + i) q.items.length
      let item ← index q.items j
      assign items i item) (List.replicate capacity default) =
    some (Ring.content q.items q.head n ++ List.replicate (capacity - n) default) := by
  induction n with
  | zero => rfl
  | succ n ih =>
    have hpos : 0 < q.items.length := by omega
    rw [range_succ, foldlM_append, ih (by omega)]
    simp only [foldlM_cons, foldlM_nil, Option.bind_eq_bind, Option.bind_some,
      modulo_eq hpos, index_eq (Nat.mod_lt _ hpos)]
    rw [assign_eq (by simp; omega), Option.bind_some, Ring.content_succ]
    -- the place that is written is the first one that is not
    rw [set_append_right _ _ (by simp), Ring.length_content, Nat.sub_self,
      show capacity - n = (capacity - (n + 1)) + 1 by omega, replicate_succ]
    simp

/-- Growth keeps the items and their order, wherever the head is. -/
theorem grow_content (h : q.WellFormed) : ∃ q', q.grow = some q' ∧ q'.WellFormed ∧
    q'.content = q.content ∧ q'.size = q.size ∧ q.size < q'.items.length := by
  obtain ⟨capacity, hcapacity, hlt⟩ : ∃ capacity,
      (if q.items.length * 2 = 0 then 64 else q.items.length * 2) = capacity ∧
        q.size < capacity := by
    have := h.size
    refine ⟨_, rfl, ?_⟩
    split_ifs <;> omega
  refine ⟨⟨q.content ++ List.replicate (capacity - q.size) default, 0, q.size⟩, ?_, ⟨?_, id⟩, ?_,
    rfl, ?_⟩
  · rw [grow, hcapacity, copy_eq h.size le_rfl hlt.le]
    rfl
  · simp [content]
  · have := Ring.content_append q.content (List.replicate (capacity - q.size) default)
    simpa only [content, Ring.length_content] using this
  · simp [content]
    omega

theorem push_content (h : q.WellFormed) (x : α) : ∃ q', q.push x = some q' ∧ q'.WellFormed ∧
    q'.content = q.content ++ [x] := by
  obtain ⟨q₁, hq₁, hwf, hcontent, hroom⟩ : ∃ q₁, q.makeRoom = some q₁ ∧ q₁.WellFormed ∧
      q₁.content = q.content ∧ q₁.size < q₁.items.length := by
    unfold makeRoom
    split_ifs with hfull
    · obtain ⟨q', hq', hwf, hcontent, hsize, hlt⟩ := grow_content h
      exact ⟨q', hq', hwf, hcontent, hsize ▸ hlt⟩
    · exact ⟨q, rfl, h, rfl, lt_of_le_of_ne h.size hfull⟩
  have hpos : 0 < q₁.items.length := by omega
  refine ⟨⟨q₁.items.set ((q₁.head + q₁.size) % q₁.items.length) x, q₁.head, q₁.size + 1⟩, ?_,
    ⟨?_, ?_⟩, ?_⟩
  · simp only [push, hq₁, Option.bind_eq_bind, Option.bind_some, modulo_eq hpos,
      assign_eq (Nat.mod_lt _ hpos)]
    rfl
  · simpa only [length_set] using Nat.succ_le_of_lt hroom
  · simpa using hwf.head
  · rw [← hcontent]
    exact Ring.content_set_end hroom x

theorem pop_content (h : q.WellFormed) : ∃ q', q.pop = some (q.content.head?, q') ∧
    q'.WellFormed ∧ q'.content = q.content.tail := by
  unfold pop
  split_ifs with hsize
  · refine ⟨q, ?_, h, ?_⟩ <;> simp [content, hsize, Ring.content]
  obtain ⟨n, hn⟩ := Nat.exists_eq_succ_of_ne_zero hsize
  have hle := h.size
  have hpos : 0 < q.items.length := by omega
  have hhead := h.head hpos
  have hcons : q.content = q.items.getD q.head default ::
      Ring.content q.items ((q.head + 1) % q.items.length) n := by
    rw [content, hn]
    exact Ring.content_cons hhead
  refine ⟨⟨q.items.set q.head default,
    if n = 0 then 0 else (q.head + 1) % q.items.length, n⟩, ?_, ⟨?_, fun _ => ?_⟩, ?_⟩
  · have hlength : (q.items.set q.head default).length = q.items.length := length_set
    simp only [index_eq hhead, assign_eq hhead, modulo_eq hpos, hlength, Option.bind_eq_bind,
      Option.bind_some, hcons, hn]
    rfl
  · simp only [length_set]
    omega
  · simp only [length_set]
    split_ifs
    · exact hpos
    · exact Nat.mod_lt _ hpos
  · rw [hcons, tail_cons, ← Ring.content_set_front (by omega) hhead default]
    -- where the head is does not matter if nothing is left
    by_cases hlast : n = 0
    · simp [content, hlast, Ring.content]
    · simp only [content, if_neg hlast]

/-! ## Sequences of operations -/

inductive Op (α : Type)
  | push (x : α)
  | pop

/-- What the pops of a sequence return, and the queue after it. -/
def run : SendItemQueue α → List (Op α) → Option (List (Option α) × SendItemQueue α)
  | q, [] => some ([], q)
  | q, .push x :: ops => do
    let q ← q.push x
    run q ops
  | q, .pop :: ops => do
    let (item, q) ← q.pop
    let (items, q) ← run q ops
    return (item :: items, q)

/-- The same for a list. -/
def fifo : List α → List (Op α) → List (Option α) × List α
  | l, [] => ([], l)
  | l, .push x :: ops => fifo (l ++ [x]) ops
  | l, .pop :: ops => (l.head? :: (fifo l.tail ops).1, (fifo l.tail ops).2)

theorem run_content (h : q.WellFormed) (ops : List (Op α)) : ∃ q',
    q.run ops = some ((fifo q.content ops).1, q') ∧ q'.WellFormed ∧
      q'.content = (fifo q.content ops).2 := by
  induction ops generalizing q with
  | nil => exact ⟨q, rfl, h, rfl⟩
  | cons op ops ih =>
    cases op with
    | push x =>
      obtain ⟨q₁, hpush, hwf, hcontent⟩ := push_content h x
      obtain ⟨q', hrun, hwf', hcontent'⟩ := ih hwf
      rw [hcontent] at hrun hcontent'
      refine ⟨q', ?_, hwf', hcontent'⟩
      simpa only [run, fifo, hpush, Option.bind_eq_bind, Option.bind_some] using hrun
    | pop =>
      obtain ⟨q₁, hpop, hwf, hcontent⟩ := pop_content h
      obtain ⟨q', hrun, hwf', hcontent'⟩ := ih hwf
      rw [hcontent] at hrun hcontent'
      refine ⟨q', ?_, hwf', hcontent'⟩
      simp only [run, hpop, hrun, Option.bind_eq_bind, Option.bind_some]
      rfl

/-- A sequence of operations on a new queue, whatever the length of its slice, returns what it
    returns on a list, without an index out of range or a division by zero. After it the queue
    has the items of the list, in their order, the head is one of the places of the slice, and
    growth would keep all this. -/
theorem ring_is_queue (capacity : ℕ) (ops : List (Op α)) : ∃ q : SendItemQueue α,
    run { items := List.replicate capacity default } ops = some ((fifo [] ops).1, q) ∧
    q.content = (fifo [] ops).2 ∧ q.size = (fifo ([] : List α) ops).2.length ∧
    (0 < q.items.length → q.head < q.items.length) ∧
    ∃ q', q.grow = some q' ∧ q'.content = q.content ∧ q'.size = q.size := by
  have hnew : ({ items := List.replicate capacity default } : SendItemQueue α).WellFormed :=
    ⟨Nat.zero_le _, id⟩
  obtain ⟨q, hrun, hwf, hcontent⟩ := run_content hnew ops
  obtain ⟨q', hgrow, -, hsame, hsize, -⟩ := grow_content hwf
  refine ⟨q, hrun, hcontent, ?_, hwf.head, q', hgrow, hsame, hsize⟩
  have hlength := congrArg List.length hcontent
  rwa [content, Ring.length_content] at hlength

end SendItemQueue

end Etp.Writer
