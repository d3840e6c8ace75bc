import Etp.Frame
import Mathlib.Tactic.Push

/-!
# The send queue

`sessionWriter` decouples the goroutines that send from the transport: frames
are queued by priority, and one goroutine pops them in the order of a fixed
cyclic schedule and writes them. The lock-protected sections are pure functions
here: `enqueue` (up to the point where it would wait for room), `popLocked`,
`beginClosing` and `close`. Each of the five queues is the list of what it
holds, oldest first.

A pop takes the oldest item of one queue and leaves the other queues alone
(`popLocked_eq_some`), so items of one priority leave in the order in which
they were enqueued. Later proofs follow the items of one kind, all enqueued
with the same priority, through the writer: `outflow` lists them in the order
in which they will be written.
-/

namespace Etp

open Function List

def errSendQueueFull : Err := "send queue full"
def errSessionClosed : Err := "session closed"

/-- An item of the send queue: an encoded frame with its size. -/
structure SendItem (α : Type*) where
  priority : Priority
  channel : Channel
  data : α
  size : ℕ
  deriving DecidableEq

/-- The item a frame is enqueued as (`sendContext`). -/
def Frame.sendItem (f : Frame) : SendItem Frame where
  priority := f.header.priority
  channel := f.header.channelID
  data := f
  size := headerSize + f.payload.length

/-- The part of the configuration the queue reads. A limit that is not positive does not limit. -/
structure SendQueueConfig where
  enabled : Bool := true
  maxFrames : ℤ := 4096
  maxBytes : ℕ := 16 <<< 20
  deriving DecidableEq, Repr

/-- The send queue of a session. -/
structure SessionWriter (α : Type*) where
  queue : Priority → List (SendItem α) := fun _ => []
  queuedItems : ℕ := 0
  queuedBytes : ℕ := 0
  inFlight : Option (SendItem α) := none
  controlOnly : Bool := false
  closed : Bool := false
  err : Option Err := none
  scheduleAt : ℕ := 0

/-- The cyclic schedule of the priorities. -/
def writerPrioritySchedule : List Priority :=
  [.critical, .critical, .critical, .critical, .critical, .critical, .critical, .critical,
    .high, .high, .high, .high, .normal, .normal, .low, .idle]

namespace SessionWriter

variable {α : Type*}

/-- Whether there is room for `size` more bytes. -/
def canEnqueue (cfg : SendQueueConfig) (w : SessionWriter α) (size : ℕ) : Bool :=
  !(0 < cfg.maxFrames && cfg.maxFrames ≤ w.queuedItems) &&
    !(0 < cfg.maxBytes && cfg.maxBytes < w.queuedBytes + size)

/-- The error of a closed queue. -/
def closedErrLocked (w : SessionWriter α) : Option Err :=
  match w.err with
  | some e => some e
  | none => if w.closed then some errSessionClosed else none

/-- The item at the end of the queue of its priority. -/
def push (w : SessionWriter α) (item : SendItem α) : SessionWriter α :=
  { w with
    queue := update w.queue item.priority (w.queue item.priority ++ [item])
    queuedItems := w.queuedItems + 1
    queuedBytes := w.queuedBytes + item.size }

/-- Where a call of `enqueue` gets without waiting. -/
inductive Enqueued (α : Type*)
  | refused (e : Err)
  | waits
  | queued (w : SessionWriter α)

/-- `enqueue`: a closing queue only takes critical control items, a closed one
    none; without room the caller waits, until its deadline. -/
def enqueue (cfg : SendQueueConfig) (w : SessionWriter α) (item : SendItem α) : Enqueued α :=
  if w.controlOnly && (item.priority ≠ .critical || item.channel ≠ .control) then
    .refused errSessionClosed
  else
    match w.closedErrLocked with
    | some e => .refused e
    | none => if canEnqueue cfg w item.size then .queued (w.push item) else .waits

/-- The queue of priority `p` without its oldest item. -/
def popped (w : SessionWriter α) (p : Priority) (item : SendItem α) (rest : List (SendItem α)) :
    SessionWriter α :=
  { w with
    queue := update w.queue p rest
    queuedItems := w.queuedItems - 1
    queuedBytes := w.queuedBytes - item.size }

/-- The loop of `popLocked`: up to `n` slots of the schedule are tried. -/
def popLoop : ℕ → SessionWriter α → Option (SendItem α) × SessionWriter α
  | 0, w => (none, w)
  | n + 1, w =>
    let p := writerPrioritySchedule.getD w.scheduleAt .critical
    let w := { w with scheduleAt := (w.scheduleAt + 1) % writerPrioritySchedule.length }
    match w.queue p with
    | [] => popLoop n w
    | item :: rest => (some item, w.popped p item rest)

/-- `popLocked`: the oldest item of the next priority of the schedule that has one. -/
def popLocked (w : SessionWriter α) : Option (SendItem α) × SessionWriter α :=
  popLoop writerPrioritySchedule.length w

/-- Everything queued is dropped. -/
def releaseQueuedLocked (w : SessionWriter α) : SessionWriter α :=
  { w with queue := fun _ => [], queuedItems := 0, queuedBytes := 0 }

/-- `beginClosing`: from now on only critical control items pass. -/
def beginClosing (w : SessionWriter α) : SessionWriter α :=
  { w.releaseQueuedLocked with controlOnly := true }

/-- `close`. -/
def close (w : SessionWriter α) : SessionWriter α :=
  if w.closed then w
  else { w.releaseQueuedLocked with closed := true, err := some errSessionClosed }

/-- What follows a failed write: the queue closes with the error of the write. -/
def writeFailed (w : SessionWriter α) (e : Err) : SessionWriter α :=
  { w.releaseQueuedLocked with inFlight := none, closed := true, err := w.err.getD e |> some }

/-! ## What the operations do -/

theorem push_queue (w : SessionWriter α) (item : SendItem α) (p : Priority) :
    (w.push item).queue p =
      if p = item.priority then w.queue p ++ [item] else w.queue p := by
  by_cases h : p = item.priority
  · subst h; simp [push]
  · simp [push, h]

variable {w w' : SessionWriter α} {item : SendItem α}

/-- An item that gets in gets in at the end of the queue of its priority. -/
theorem enqueue_eq_queued {cfg : SendQueueConfig} (h : enqueue cfg w item = .queued w') :
    w' = w.push item := by
  unfold enqueue at h
  split at h
  · cases h
  · split at h
    · cases h
    · split at h
      · cases h; rfl
      · cases h

/-- What refuses an item: a closing queue, unless it is a critical control item,
    and a closed one. -/
theorem of_enqueue_refused {cfg : SendQueueConfig} {w : SessionWriter α} {e : Err}
    (h : enqueue cfg w item = .refused e) :
    (w.controlOnly = true ∧ (item.priority ≠ .critical ∨ item.channel ≠ .control)) ∨
      w.closed = true ∨ w.err.isSome = true := by
  unfold enqueue at h
  split at h
  · rename_i hc
    simp only [Bool.and_eq_true, Bool.or_eq_true, decide_eq_true_eq] at hc
    exact .inl hc
  · split at h
    · rename_i e' he
      unfold closedErrLocked at he
      split at he
      · rename_i herr
        exact .inr (.inr (by rw [herr]; rfl))
      · split_ifs at he with hclosed
        exact .inr (.inl hclosed)
    · split at h <;> cases h

/-- Closing drops what is queued, once. -/
theorem close_cases (w : SessionWriter α) :
    w.close = w ∨ w.close.inFlight = w.inFlight ∧ ∀ p, w.close.queue p = [] := by
  unfold close
  split
  · exact .inl rfl
  · exact .inr ⟨rfl, fun _ => rfl⟩

variable {n : ℕ}

theorem popLoop_eq_some (h : popLoop n w = (some item, w')) :
    ∃ p rest, w.queue p = item :: rest ∧ w'.queue = update w.queue p rest ∧
      w'.inFlight = w.inFlight := by
  induction n generalizing w with
  | zero => simp [popLoop] at h
  | succ n ih =>
    rw [popLoop] at h
    split at h
    · obtain ⟨p, rest, hq, hw, hf⟩ := ih h
      exact ⟨p, rest, hq, hw, hf⟩
    · -- The slot of the schedule whose queue has an item.
      rename_i i rest hq
      simp only [Prod.mk.injEq, Option.some.injEq] at h
      obtain ⟨rfl, rfl⟩ := h
      exact ⟨_, rest, hq, rfl, rfl⟩

/-- A pop takes the oldest item of one queue, and leaves the other queues alone. -/
theorem popLocked_eq_some {w w' : SessionWriter α} {item : SendItem α}
    (h : w.popLocked = (some item, w')) :
    ∃ p rest, w.queue p = item :: rest ∧ w'.queue = update w.queue p rest ∧
      w'.inFlight = w.inFlight :=
  popLoop_eq_some h

/-- Taking an item leaves what the queue accepts as it is. -/
theorem popLoop_status {first : Option (SendItem α)} (h : popLoop n w = (first, w')) :
    w'.controlOnly = w.controlOnly ∧ w'.closed = w.closed ∧ w'.err = w.err := by
  induction n generalizing w with
  | zero =>
    obtain ⟨-, rfl⟩ := Prod.mk.inj h
    exact ⟨rfl, rfl, rfl⟩
  | succ n ih =>
    rw [popLoop] at h
    split at h
    · exact (ih h :)
    · obtain ⟨-, rfl⟩ := Prod.mk.inj h
      exact ⟨rfl, rfl, rfl⟩

/-! ## Order

Followed are the items of some kind, picked by `sel`, all of which are enqueued
with one priority `p`. -/

section Order

variable {β : Type*} {sel : α → Option β} {p : Priority} {w w' : SessionWriter α}
  {item : SendItem α}

/-- What `sel` picks of some items, in their order. -/
def picked (sel : α → Option β) (items : List (SendItem α)) : List β :=
  items.filterMap fun i => sel i.data

@[simp] theorem picked_nil : picked sel [] = [] := rfl

@[simp] theorem picked_append (l m : List (SendItem α)) :
    picked sel (l ++ m) = picked sel l ++ picked sel m :=
  filterMap_append

@[simp] theorem picked_singleton (i : SendItem α) : picked sel [i] = (sel i.data).toList := by
  cases h : sel i.data <;> simp [picked, h]

/-- Nothing is picked of the queues of other priorities than `p`. -/
def OnlyIn (sel : α → Option β) (p : Priority) (w : SessionWriter α) : Prop :=
  ∀ q, q ≠ p → picked sel (w.queue q) = []

/-- What is picked of the items inside the writer, in the order in which it
    writes them: the one being written, then those queued. -/
def outflow (sel : α → Option β) (p : Priority) (w : SessionWriter α) : List β :=
  picked sel w.inFlight.toList ++ picked sel (w.queue p)

theorem onlyIn_push (h : OnlyIn sel p w) (hi : sel item.data = none ∨ item.priority = p) :
    OnlyIn sel p (w.push item) := by
  intro q hq
  rw [push_queue]
  split_ifs with hqi
  · rcases hi with hi | hi
    · rw [picked_append, h q hq, picked_singleton, hi]; rfl
    · exact absurd (hqi.trans hi) hq
  · exact h q hq

/-- What is pushed goes behind what is inside the writer. -/
theorem outflow_push (hi : sel item.data = none ∨ item.priority = p) :
    outflow sel p (w.push item) = outflow sel p w ++ (sel item.data).toList := by
  have hf : (w.push item).inFlight = w.inFlight := rfl
  rw [outflow, outflow, hf, push_queue, append_assoc]
  split_ifs with hp
  · rw [picked_append, picked_singleton]
  · rcases hi with hi | hi
    · rw [hi, Option.toList_none, append_nil]
    · exact absurd hi.symm hp

/-- A pop only moves the oldest item from a queue to the transport's side. -/
theorem outflow_pop (h : OnlyIn sel p w) (hf : w.inFlight = none)
    (hp : w.popLocked = (some item, w')) :
    OnlyIn sel p { w' with inFlight := some item } ∧
      outflow sel p { w' with inFlight := some item } = outflow sel p w := by
  obtain ⟨r, rest, hq, hw', -⟩ := popLocked_eq_some hp
  have hqueue : ∀ q, w'.queue q = if q = r then rest else w.queue q := by
    intro q
    rw [hw']
    by_cases hqr : q = r
    · subst hqr; simp
    · simp [hqr]
  have hitem : picked sel (w.queue r) = (sel item.data).toList ++ picked sel rest := by
    rw [hq, ← singleton_append, picked_append, picked_singleton]
  constructor
  · intro q hqp
    have := h q hqp
    change picked sel (w'.queue q) = []
    rw [hqueue]
    split_ifs with hqr
    · rw [hqr, hitem, append_eq_nil_iff] at this
      exact this.2
    · exact this
  · rw [outflow, outflow, hf]
    change picked sel [item] ++ picked sel (w'.queue p) = picked sel [] ++ picked sel (w.queue p)
    rw [picked_singleton, picked_nil, nil_append, hqueue]
    split_ifs with hpr
    · rw [hpr, hitem]
    · have := h r (Ne.symm hpr)
      rw [hitem, append_eq_nil_iff] at this
      rw [this.1, nil_append]

/-- A write hands the oldest item inside the writer to the transport. -/
theorem outflow_write (hf : w.inFlight = some item) :
    outflow sel p w = (sel item.data).toList ++ outflow sel p { w with inFlight := none } := by
  simp [outflow, hf]

/-- Dropping the queues loses what was last. -/
theorem outflow_drop (hf : w'.inFlight = w.inFlight) (hq : ∀ q, w'.queue q = []) :
    OnlyIn sel p w' ∧ (outflow sel p w').Sublist (outflow sel p w) := by
  refine ⟨fun q _ => by rw [hq, picked_nil], ?_⟩
  rw [outflow, hq, picked_nil, append_nil, hf]
  exact sublist_append_left _ _

end Order

/-! ## Counters

The counters of a queue are those of its content, so that a caller only waits
for room while there is something to write. -/

section Counters

variable {w w' : SessionWriter α} {item : SendItem α} {cfg : SendQueueConfig}

/-- The sum of `f` over all queued items. -/
def load (f : SendItem α → ℕ) (q : Priority → List (SendItem α)) : ℕ :=
  ((q .critical).map f).sum + ((q .high).map f).sum + ((q .normal).map f).sum +
    ((q .low).map f).sum + ((q .idle).map f).sum

theorem load_update (f : SendItem α → ℕ) (q : Priority → List (SendItem α)) (p : Priority)
    (l : List (SendItem α)) :
    load f (update q p l) + ((q p).map f).sum = load f q + (l.map f).sum := by
  cases p <;> simp [load, update] <;> omega

theorem load_push (f : SendItem α → ℕ) (w : SessionWriter α) (item : SendItem α) :
    load f (w.push item).queue = load f w.queue + f item := by
  have := load_update f w.queue item.priority (w.queue item.priority ++ [item])
  simp only [map_append, sum_append, map_cons, map_nil, sum_cons,
    sum_nil] at this
  simp only [push]
  omega

theorem load_pop (f : SendItem α → ℕ) (hp : w.popLocked = (some item, w')) :
    load f w.queue = load f w'.queue + f item := by
  obtain ⟨p, rest, hq, hw', -⟩ := popLocked_eq_some hp
  have := load_update f w.queue p rest
  rw [hq, map_cons, sum_cons] at this
  rw [hw']
  omega

/-- The counters are those of the content, and the schedule is within its bounds. -/
structure Consistent (w : SessionWriter α) : Prop where
  items : w.queuedItems = load (fun _ => 1) w.queue
  bytes : w.queuedBytes = load (·.size) w.queue
  schedule : w.scheduleAt < writerPrioritySchedule.length

theorem consistent_init : Consistent ({} : SessionWriter α) := ⟨rfl, rfl, Nat.zero_lt_succ _⟩

theorem consistent_push (h : Consistent w) (item : SendItem α) : Consistent (w.push item) := by
  refine ⟨?_, ?_, h.schedule⟩
  · rw [load_push, ← h.items]
    rfl
  · rw [load_push, ← h.bytes]
    rfl

theorem consistent_popped (h : Consistent w) {p : Priority} {rest : List (SendItem α)}
    (hq : w.queue p = item :: rest) : Consistent (w.popped p item rest) := by
  refine ⟨?_, ?_, h.schedule⟩
  · have := load_update (fun _ => 1) w.queue p rest
    simp only [popped, h.items, hq, map_cons, sum_cons] at this ⊢
    omega
  · have := load_update (·.size) w.queue p rest
    simp only [popped, h.bytes, hq, map_cons, sum_cons] at this ⊢
    omega

theorem consistent_popLoop (h : Consistent w) (hp : popLoop n w = (some item, w')) :
    Consistent w' := by
  induction n generalizing w with
  | zero => simp [popLoop] at hp
  | succ n ih =>
    have hs : Consistent
        { w with scheduleAt := (w.scheduleAt + 1) % writerPrioritySchedule.length } :=
      ⟨h.items, h.bytes, Nat.mod_lt _ (by decide)⟩
    rw [popLoop] at hp
    split at hp
    · exact ih hs hp
    · rename_i i rest hq
      simp only [Prod.mk.injEq, Option.some.injEq] at hp
      obtain ⟨rfl, rfl⟩ := hp
      exact consistent_popped hs hq

theorem consistent_close (h : Consistent w) : Consistent w.close := by
  unfold close
  split
  · exact h
  · exact ⟨rfl, rfl, h.schedule⟩

/-- The slots of the schedule that a fruitless loop has tried have empty queues. -/
theorem popLoop_eq_none (hs : w.scheduleAt < 16) (hp : (popLoop n w).1 = none) :
    ∀ i < n, w.queue (writerPrioritySchedule.getD ((w.scheduleAt + i) % 16) .critical) = [] := by
  induction n generalizing w with
  | zero => intro i hi; omega
  | succ n ih =>
    rw [popLoop] at hp
    split at hp
    · rename_i hq
      intro i hi
      cases i with
      | zero => simpa [Nat.mod_eq_of_lt hs] using hq
      | succ i =>
        have := ih (w := { w with scheduleAt := (w.scheduleAt + 1) % 16 })
          (Nat.mod_lt _ (by decide)) hp i (by omega)
        simpa [Nat.add_assoc, Nat.add_comm 1 i] using this
    · cases hp

/-- The schedule serves every priority: a pop finds an item if there is one. -/
theorem popLocked_isSome (h : Consistent w) {p : Priority} (hq : w.queue p ≠ []) :
    ∃ item w', w.popLocked = (some item, w') := by
  cases hpop : w.popLocked with
  | mk first rest =>
    cases first with
    | some item => exact ⟨item, rest, rfl⟩
    | none =>
      exfalso
      have hs : w.scheduleAt < 16 := h.schedule
      have tried := popLoop_eq_none (n := 16) hs (congrArg Prod.fst hpop)
      -- The slot of each priority is tried at some point of the cycle.
      have slot : ∀ k < 16, w.queue (writerPrioritySchedule.getD k .critical) = [] := by
        intro k hk
        have := tried ((k + 16 - w.scheduleAt) % 16) (Nat.mod_lt _ (by decide))
        rwa [show (w.scheduleAt + (k + 16 - w.scheduleAt) % 16) % 16 = k by omega] at this
      cases p with
      | critical => exact hq (slot 0 (by decide))
      | high => exact hq (slot 8 (by decide))
      | normal => exact hq (slot 12 (by decide))
      | low => exact hq (slot 14 (by decide))
      | idle => exact hq (slot 15 (by decide))

/-- Who waits for room for an item that fits waits for something to be written. -/
theorem of_enqueue_waits (h : Consistent w) (hfit : cfg.maxBytes = 0 ∨ item.size ≤ cfg.maxBytes)
    (hw : enqueue cfg w item = .waits) : ∃ p, w.queue p ≠ [] := by
  by_contra hempty
  push Not at hempty
  have hitems : w.queuedItems = 0 := by simp [h.items, load, hempty]
  have hbytes : w.queuedBytes = 0 := by simp [h.bytes, load, hempty]
  have hroom : canEnqueue cfg w item.size = true := by
    simp only [canEnqueue, hitems, hbytes, Bool.and_eq_true, Bool.not_eq_true',
      decide_eq_false_iff_not,
      Bool.and_eq_false_iff]
    omega
  unfold enqueue at hw
  rw [hroom] at hw
  split at hw
  · cases hw
  · split at hw <;> cases hw

end Counters

end SessionWriter

end Etp
