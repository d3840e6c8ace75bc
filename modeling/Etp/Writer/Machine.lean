import Etp.Lib.Run
import Etp.Writer

/-!
# The goroutines around the send queue

The lock of `sessionWriter` protects the queue (`SessionWriter`); one condition variable is
shared by those who wait for room (`enqueue`), by the run loop, which waits for something to
write, and by those who wait for an empty queue (`flush`). A section between two acquisitions
of the lock is one step here, and so is a write of the transport, which happens outside of it.

* `State.parked` has the goroutines that are in `cond.Wait` and have not been woken: `Signal`
  takes one of them out, whichever (`State.signal`), `Broadcast` all; who is in `cond.Wait`
  and not parked goes on when it gets the lock;
* `tryEnqueue` is the loop of `enqueue`, from its head, up to the next wait or to the end;
  what it is asked about the context and the clock is answered by its caller (`Env`);
* `runNext` is the next section of the run loop, `flushLoop` the loop of `flush`;
* `State.released` lists the calls of `releaseItem`, `State.wrote` the frames the transport
  was handed, each with its result.

`flush` counts itself out of `flushWaiters` after it has released the lock, in two steps: one
reads the counter, one writes it. A `Broadcast` of a timer or of the end of a context is
possible at any time.
-/

namespace Etp.Writer

open SessionWriter Function

/-- What makes an item a different one from any other: the buffer and the channel that it
    has, if any, are its own. -/
structure Handle where
  id : ℕ
  bufp : Bool
  done : Bool
  deriving DecidableEq

abbrev Item := SendItem Handle

/-- A critical item of the control channel: what a closing queue still takes. -/
def Control (x : Item) : Prop := x.priority = .critical ∧ x.channel = .control

instance : DecidablePred Control := fun _ => inferInstanceAs (Decidable (_ ∧ _))

structure Config extends SendQueueConfig where
  enqueueTimeout : ℤ := 0

/-- Who can wait for the condition variable. -/
inductive Waiter
  | run
  | enqueue (x : Item)
  | flush (j : ℕ)
  deriving DecidableEq

/-- Where the goroutine that enqueues an item is. -/
inductive Caller
  | absent
  | calling
  | waiting
  | returned (r : Option Err)

/-- Where the run loop is: before its lock, in `cond.Wait`, writing an item, with the result
    of a write and again after `releaseItem`, and after its end. -/
inductive Runner
  | top
  | waiting
  | writing (x : Item)
  | wrote (x : Item) (r : Option Err)
  | settled (x : Item) (r : Option Err)
  | finished

/-- Where a call of `flush` is. Its result is kept while it counts itself out. -/
inductive Flusher
  | absent
  | calling
  | waiting
  | leaving (r : Option Err)
  | decrementing (n : ℤ) (r : Option Err)
  | returned (r : Option Err)

structure State where
  w : SessionWriter Handle := {}
  flushWaiters : ℤ := 0
  queueWaiters : ℕ := 0
  parked : List Waiter := []
  caller : Item → Caller := fun _ => .absent
  flusher : ℕ → Flusher := fun _ => .absent
  runner : Runner := .top
  accepted : List Item := []
  popped : List Item := []
  wrote : List (Item × Option Err) := []
  released : List (Item × Option Err) := []

/-- What `enqueue` finds out when it has to wait: the error of its context, whether its
    deadline is over; and whom `Signal` wakes. -/
structure Env where
  ctx : Option Err := none
  expired : Bool := false
  woken : ℕ := 0

/-- What `write` is told: the deadline cannot be set, or the frame is handed to the
    transport, which answers. -/
inductive Outcome
  | noDeadline (e : Err)
  | sent (r : Option Err)

namespace State

variable (s : State) (cfg : Config) (x : Item)

/-- `cond.Broadcast`. -/
def broadcast : State := { s with parked := [] }

/-- `cond.Signal`. -/
def signal (k : ℕ) : State := { s with parked := s.parked.eraseIdx (k % s.parked.length) }

/-- `cond.Wait`, up to the point where the lock is released. -/
def park (t : Waiter) : State := { s with parked := s.parked ++ [t] }

/-- `releaseItem`. -/
def releaseItem (r : Option Err) : State := { s with released := s.released ++ [(x, r)] }

/-- `enqueue` gives up: it releases the item and returns the error. -/
def refuse (e : Err) : State :=
  { s.releaseItem x (some e) with caller := update s.caller x (.returned (some e)) }

/-- The end of `enqueue`. -/
def accept (k : ℕ) : State :=
  { s with
    w := s.w.push x
    accepted := s.accepted ++ [x]
    caller := update s.caller x (.returned none) }.signal k

/-- The loop of `enqueue` and what follows it. -/
def tryEnqueue (env : Env) : State :=
  if canEnqueue cfg.toSendQueueConfig s.w x.size then
    match s.w.closedErrLocked with
    | some e => s.refuse x e
    | none =>
      if s.w.controlOnly ∧ ¬Control x then s.refuse x errSessionClosed
      else s.accept x env.woken
  else
    match s.w.closedErrLocked with
    | some e => s.refuse x e
    | none =>
      match env.ctx with
      | some e => s.refuse x e
      | none =>
        if 0 < cfg.enqueueTimeout ∧ env.expired then s.refuse x errSendQueueFull
        else { s with
          queueWaiters := s.queueWaiters + 1
          caller := update s.caller x .waiting }.park (.enqueue x)

/-- `enqueue`, from the lock to the next wait or to the end. -/
def enqueue (env : Env) : Option State :=
  match s.caller x with
  | .calling =>
    if s.w.controlOnly ∧ ¬Control x then some (s.refuse x errSessionClosed)
    else some (s.tryEnqueue cfg x env)
  | .waiting =>
    if .enqueue x ∈ s.parked then none
    else some ({ s with queueWaiters := s.queueWaiters - 1 }.tryEnqueue cfg x env)
  | .absent | .returned _ => none

/-- The items in the five queues, in the order in which they are released. -/
def queued : List Item :=
  s.w.queue .critical ++ s.w.queue .high ++ s.w.queue .normal ++ s.w.queue .low ++ s.w.queue .idle

/-- `releaseItem` for all that is queued, which `w` has no longer. -/
def releaseQueued (w : SessionWriter Handle) (e : Err) : State :=
  { s with w := w, released := s.released ++ s.queued.map (·, some e) }

def beginClosing : State := (s.releaseQueued s.w.beginClosing errSessionClosed).broadcast

def close : State :=
  if s.w.closed then s.broadcast else (s.releaseQueued s.w.close errSessionClosed).broadcast

/-- The first section of the run loop. -/
def runTop : State :=
  if s.w.queuedItems = 0 ∧ ¬s.w.closed then { s with runner := .waiting }.park .run
  else if s.w.queuedItems = 0 ∧ s.w.closed then { s with runner := .finished }
  else
    let wake (t : State) : State := if 0 < s.queueWaiters then t.broadcast else t
    match s.w.popLocked with
    | (some x, w) =>
      wake { s with
        w := { w with inFlight := some x }, runner := .writing x, popped := s.popped ++ [x] }
    | (none, w) => wake { s with w := w, runner := .top }

/-- `write`: an empty item is not handed to the transport. -/
def write (o : Outcome) : State :=
  if x.size = 0 then { s with runner := .wrote x none }
  else
    match o with
    | .noDeadline e => { s with runner := .wrote x (some e) }
    | .sent r => { s with runner := .wrote x r, wrote := s.wrote ++ [(x, r)] }

/-- What the run loop does after a write that has failed. -/
def fail (e : Err) : State :=
  { s.releaseQueued (s.w.writeFailed e) e with runner := .finished }.broadcast

/-- The last section of the run loop, after `releaseItem`. -/
def settle : Option Err → State
  | some e => s.fail e
  | none =>
    let t := { s with w := { s.w with inFlight := none }, runner := .top }
    if 0 < s.flushWaiters then t.broadcast else t

/-- The next section of the run loop. -/
def runNext (o : Outcome) : Option State :=
  match s.runner with
  | .top => some s.runTop
  | .waiting => if .run ∈ s.parked then none else some s.runTop
  | .writing x => some (s.write x o)
  | .wrote x r => some { s.releaseItem x r with runner := .settled x r }
  | .settled _ r => some (s.settle r)
  | .finished => none

/-- The loop of `flush` and what follows it. -/
def flushLoop (j : ℕ) (ctx : Option Err) : State :=
  let leave (r : Option Err) : State :=
    { s with flusher := update s.flusher j (.leaving r) }
  if 0 < s.w.queuedItems ∨ s.w.inFlight.isSome then
    match ctx with
    | some e => leave (some e)
    | none =>
      match s.w.err with
      | some e => leave (some e)
      | none => { s with flusher := update s.flusher j .waiting }.park (.flush j)
  else leave s.w.err

/-- The next section of a call of `flush`. -/
def flush (j : ℕ) (ctx : Option Err) : Option State :=
  match s.flusher j with
  | .calling => some ({ s with flushWaiters := s.flushWaiters + 1 }.flushLoop j ctx)
  | .waiting => if .flush j ∈ s.parked then none else some (s.flushLoop j ctx)
  | .leaving r =>
    some { s with flusher := update s.flusher j (.decrementing s.flushWaiters r) }
  | .decrementing n r => some { s with
      flushWaiters := n - 1, flusher := update s.flusher j (.returned r) }
  | .absent | .returned _ => none

end State

/-- The sections of the goroutines, and what may begin at any time. -/
inductive Event
  | call (x : Item)
  | enqueue (x : Item) (env : Env)
  | run (o : Outcome)
  | callFlush (j : ℕ)
  | flush (j : ℕ) (ctx : Option Err)
  | beginClosing
  | close
  | broadcast

/-- The state after an event, if it is possible. -/
def exec (cfg : Config) (s : State) : Event → Option State
  | .call x =>
    match s.caller x with
    | .absent => some { s with caller := update s.caller x .calling }
    | _ => none
  | .enqueue x env => s.enqueue cfg x env
  | .run o => s.runNext o
  | .callFlush j =>
    match s.flusher j with
    | .absent => some { s with flusher := update s.flusher j .calling }
    | _ => none
  | .flush j ctx => s.flush j ctx
  | .beginClosing => some s.beginClosing
  | .close => some s.close
  | .broadcast => some s.broadcast

/-- A step of any goroutine. -/
def Step (cfg : Config) (s t : State) : Prop := ∃ e, exec cfg s e = some t

/-- The states that the goroutines of a new writer reach. -/
def Reachable (cfg : Config) : State → Prop := Relation.ReflTransGen (Step cfg) {}

/-- The state after a sequence of events, if they are possible. -/
def play (cfg : Config) : State → List Event → Option State
  | s, [] => some s
  | s, e :: es => (exec cfg s e).bind (play cfg · es)

theorem reachable_play {cfg : Config} (es : List Event) {t : State}
    (h : play cfg {} es = some t) :
    Reachable cfg t := by
  have hrun : ∀ es s, play cfg s es = some t → Relation.ReflTransGen (Step cfg) s t := by
    intro es
    induction es with
    | nil =>
      rintro s ⟨⟩
      exact .refl
    | cons e es ih =>
      intro s hs
      obtain ⟨u, hu, hs⟩ := Option.bind_eq_some_iff.1 hs
      exact .head ⟨e, hu⟩ (ih u hs)
  exact hrun es {} h

/-- No call and no loop that has begun can go on. -/
def Quiescent (cfg : Config) (s : State) : Prop :=
  (∀ x env, s.enqueue cfg x env = none) ∧ (∀ o, s.runNext o = none) ∧
    ∀ j ctx, s.flush j ctx = none

end Etp.Writer
