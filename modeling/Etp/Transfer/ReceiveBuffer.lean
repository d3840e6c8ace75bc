import Etp.Transfer.Counters
import Etp.Transfer.Limits
import Mathlib.Algebra.Order.BigOperators.Group.List

/-!
# The receive buffer of a session

All incoming transfers of a session share one counter of the bytes they have buffered,
`receiveBytes`. Bytes are reserved by the goroutine that handles a chunk, and given back by
it when the queue of the transfer is full, and by the runner of the transfer on all of its
ways. Both sides read the counter and swap it afterwards, so that others come in between.

Here a step is one operation on the counter, on a lease or on a channel, or a section under
the lock of a transfer that does nothing of that kind. The goroutine that handles a chunk
keeps the lock from its checks to the end (`Handler`); whoever fails, closes or commits the
transfer waits for it.

* `Slot.Balanced`: what one step does to the counter, to the leases and to what the transfer
  holds, for every step at once;
* `receive_buffer_exact`: in every run, the counter is the number of bytes of the chunks that are
  in a queue, in the hands of a runner, or of a goroutine that handles a chunk and has reserved
  them (`reserved_unqueued`); leases are released once, and nothing is sent on a closed queue.
-/

namespace Etp.ReceiveBuffer

open Relation Transfer List IncomingTransfer

/-! ## The section of a chunk -/

/-- The checks of `handleIncomingTransferData` before it reserves the bytes of a chunk. -/
def asks (tr : IncomingTransfer) (c : Chunk) : Bool :=
  tr.failed.isNone && tr.accepting && decide (c.chunkID = tr.acceptedNextChunk) &&
    decide (tr.nextChunk ≤ c.chunkID) &&
    decide (c.chunkID < tr.metadata.chunkCount ∧ c.payload.length ≤ tr.metadata.chunkSize) &&
    decide (c.payload.length = tr.expectedSize c.chunkID)

/-- The chunk is sent on the queue. -/
def enqueue (tr : IncomingTransfer) (c : Chunk) : IncomingTransfer :=
  { tr with
    queue := tr.queue ++ [c]
    acceptedBytes := tr.acceptedBytes + c.payload.length
    acceptedNextChunk := tr.acceptedNextChunk + 1 }

/-- The chunk is refused for want of room. -/
def block (tr : IncomingTransfer) : IncomingTransfer := { tr with flowBlocked := true }

variable {tr : IncomingTransfer} {c : Chunk}

theorem asks_iff : asks tr c = true ↔
    tr.failed = none ∧ tr.accepting = true ∧ c.chunkID = tr.acceptedNextChunk ∧
      tr.nextChunk ≤ c.chunkID ∧
      (c.chunkID < tr.metadata.chunkCount ∧ c.payload.length ≤ tr.metadata.chunkSize) ∧
      c.payload.length = tr.expectedSize c.chunkID := by
  simp only [asks, Bool.and_eq_true, Option.isNone_iff_eq_none, decide_eq_true_eq, and_assoc]

/-- A chunk that passes the checks is queued if its bytes are reserved and there is room. -/
theorem handleData_of_asks (h : asks tr c = true) (reserve : Bool) :
    (tr.handleData reserve c).1 =
      if reserve = true ∧ tr.queue.length < tr.capacity then enqueue tr c else block tr := by
  obtain ⟨hf, ha, hid, hnext, ⟨hcount, hle⟩, hsize⟩ := asks_iff.mp h
  have hbounds : ¬(decide (tr.metadata.chunkCount ≤ c.chunkID) ||
      decide (tr.metadata.chunkSize < c.payload.length)) = true := by
    simp only [Bool.or_eq_true, decide_eq_true_eq]
    omega
  rw [handleData]
  split
  · next e he =>
    rw [hf] at he
    cases he
  · rw [if_neg (by simp [ha]), if_neg (by omega), if_neg (by omega), if_neg (by omega),
      if_neg hbounds, if_neg (by omega)]
    cases reserve with
    | false => rfl
    | true =>
      simp only [Bool.not_true, Bool.false_eq_true, if_false, true_and]
      split_ifs <;> rfl

/-- A chunk that does not pass the checks leaves the record. -/
theorem handleData_of_not_asks (h : asks tr c = false) (reserve : Bool) :
    (tr.handleData reserve c).1 = tr := by
  rw [handleData]
  split
  · rfl
  next hf =>
  by_cases haccepting : (!tr.accepting) = true
  · rw [if_pos haccepting]
  by_cases hwritten : c.chunkID < tr.nextChunk
  · rw [if_neg haccepting, if_pos hwritten]
  by_cases hqueued : c.chunkID < tr.acceptedNextChunk
  · rw [if_neg haccepting, if_neg hwritten, if_pos hqueued]
  rw [if_neg haccepting, if_neg hwritten, if_neg hqueued]
  by_cases hahead : tr.acceptedNextChunk < c.chunkID
  · rw [if_pos hahead]
  rw [if_neg hahead]
  by_cases hbounds : (decide (tr.metadata.chunkCount ≤ c.chunkID) ||
      decide (tr.metadata.chunkSize < c.payload.length)) = true
  · rw [if_pos hbounds]
  rw [if_neg hbounds]
  by_cases hsize : c.payload.length ≠ tr.expectedSize c.chunkID
  · rw [if_pos hsize]
  -- all checks are passed
  simp only [Bool.or_eq_true, decide_eq_true_eq] at hbounds
  have hasks : asks tr c = true := asks_iff.mpr
    ⟨hf, by simpa using haccepting, by omega, by omega, ⟨by omega, by omega⟩, by omega⟩
  rw [h] at hasks
  cases hasks

/-! ## Goroutines -/

/-- Where the goroutine that handles a chunk is, from its checks to the end of the section;
    the lease is that of the frame. -/
inductive Handler
  | idle
  | reserving (c : Chunk) (lease : ℕ)
  | loaded (c : Chunk) (lease current : ℕ)
  | reserved (c : Chunk) (lease : ℕ)
  | retained (c : Chunk) (lease : ℕ)
  | full (c : Chunk) (lease : ℕ)
  | released (c : Chunk)
  | returning (c : Chunk) (current : ℕ)
  deriving DecidableEq, Repr

/-- Where the runner of a transfer is. Each of its ways leads through `releaseIncomingChunk`,
    after which it stops the transfer if the chunk could not be written. -/
inductive Runner
  | take
  | taken (c : Chunk) (lease : ℕ)
  | writing (c : Chunk) (lease : ℕ)
  | wrote (c : Chunk) (lease : ℕ)
  | releasing (c : Chunk) (lease : ℕ) (err : Option Err)
  | returning (c : Chunk) (lease : ℕ) (err : Option Err) (current : ℕ)
  | unleasing (lease : ℕ) (err : Option Err)
  | stopping (err : Err)
  | closing
  | finishing
  | exited
  deriving DecidableEq, Repr

/-- An incoming transfer with its goroutines, and the leases of the chunks in its queue. -/
structure Slot where
  tr : IncomingTransfer
  leases : List ℕ := []
  handler : Handler := .idle
  runner : Runner := .take

/-- What a step does outside of the transfer: the counter after it, whether a frame has arrived, and
    which leases were retained and released; `panicked` if a closed queue was sent on. -/
structure Outcome where
  bytes : ℕ
  arrived : Bool := false
  retained : List ℕ := []
  released : List ℕ := []
  panicked : Bool := false

/-- The test of `reserveReceiveBytes`. -/
def exceeds (limit current n : ℕ) : Bool := 0 < limit && (limit < current || limit - current < n)

/-- The value that `releaseReceiveBytes` swaps in. -/
def givenBack (current n : ℕ) : ℕ := if n < current then current - n else 0

namespace Slot

/-- One step of a goroutine at a transfer, where `bytes` is the counter and `lease` that of
    the next frame. -/
inductive Step (limit bytes lease : ℕ) (s : Slot) : Outcome → Slot → Prop
  -- `handleIncomingTransferData`
  | checked (c : Chunk) : s.handler = .idle → asks s.tr c = false →
      Step limit bytes lease s { bytes, arrived := true }
        { s with tr := (s.tr.handleData true c).1 }
  | data (c : Chunk) : s.handler = .idle → asks s.tr c = true →
      Step limit bytes lease s { bytes, arrived := true } { s with handler := .reserving c lease }
  | load (c : Chunk) (l : ℕ) : s.handler = .reserving c l →
      Step limit bytes lease s { bytes } { s with handler := .loaded c l bytes }
  | exceeded (c : Chunk) (l current : ℕ) : s.handler = .loaded c l current →
      exceeds limit current c.payload.length = true →
      Step limit bytes lease s { bytes } { s with tr := block s.tr, handler := .idle }
  | reserve (c : Chunk) (l current : ℕ) : s.handler = .loaded c l current →
      exceeds limit current c.payload.length = false → bytes = current →
      Step limit bytes lease s { bytes := current + c.payload.length }
        { s with handler := .reserved c l }
  | lost (c : Chunk) (l current : ℕ) : s.handler = .loaded c l current →
      exceeds limit current c.payload.length = false → bytes ≠ current →
      Step limit bytes lease s { bytes } { s with handler := .reserving c l }
  | retain (c : Chunk) (l : ℕ) : s.handler = .reserved c l →
      Step limit bytes lease s { bytes, retained := [l] } { s with handler := .retained c l }
  | send (c : Chunk) (l : ℕ) : s.handler = .retained c l → s.tr.queueClosed = false →
      s.tr.queue.length < s.tr.capacity →
      Step limit bytes lease s { bytes }
        { s with tr := enqueue s.tr c, leases := s.leases ++ [l], handler := .idle }
  | sendClosed (c : Chunk) (l : ℕ) : s.handler = .retained c l → s.tr.queueClosed = true →
      Step limit bytes lease s { bytes, panicked := true } s
  | full (c : Chunk) (l : ℕ) : s.handler = .retained c l → s.tr.queueClosed = false →
      s.tr.capacity ≤ s.tr.queue.length →
      Step limit bytes lease s { bytes } { s with handler := .full c l }
  | release (c : Chunk) (l : ℕ) : s.handler = .full c l →
      Step limit bytes lease s { bytes, released := [l] } { s with handler := .released c }
  | reload (c : Chunk) : s.handler = .released c →
      Step limit bytes lease s { bytes } { s with handler := .returning c bytes }
  | giveBack (c : Chunk) (current : ℕ) : s.handler = .returning c current → bytes = current →
      Step limit bytes lease s { bytes := givenBack current c.payload.length }
        { s with tr := block s.tr, handler := .idle }
  | lostBack (c : Chunk) (current : ℕ) : s.handler = .returning c current → bytes ≠ current →
      Step limit bytes lease s { bytes } { s with handler := .released c }
  -- `runIncomingTransfer`, `writeIncomingChunk`
  | take (c : Chunk) (l : ℕ) (rest : List Chunk) (leases : List ℕ) : s.runner = .take →
      s.tr.queue = c :: rest → s.leases = l :: leases →
      Step limit bytes lease s { bytes }
        { s with tr := { s.tr with queue := rest }, leases := leases, runner := .taken c l }
  | drained : s.runner = .take → s.tr.queue = [] → s.tr.queueClosed = true →
      Step limit bytes lease s { bytes } { s with runner := .finishing }
  | discard (c : Chunk) (l : ℕ) : s.runner = .taken c l → s.handler = .idle →
      s.tr.failed.isSome = true →
      Step limit bytes lease s { bytes } { s with runner := .releasing c l none }
  | write (c : Chunk) (l : ℕ) : s.runner = .taken c l → s.handler = .idle → s.tr.failed = none →
      Step limit bytes lease s { bytes } { s with runner := .writing c l }
  | writeFails (c : Chunk) (l : ℕ) (e : Err) : s.runner = .writing c l →
      Step limit bytes lease s { bytes } { s with runner := .releasing c l (some e) }
  | written (c : Chunk) (l : ℕ) : s.runner = .writing c l →
      Step limit bytes lease s { bytes } { s with runner := .wrote c l }
  | abandon (c : Chunk) (l : ℕ) : s.runner = .wrote c l → s.handler = .idle →
      s.tr.failed.isSome = true →
      Step limit bytes lease s { bytes } { s with runner := .releasing c l none }
  | account (c : Chunk) (l : ℕ) : s.runner = .wrote c l → s.handler = .idle →
      s.tr.failed = none →
      Step limit bytes lease s { bytes }
        { s with tr := s.tr.commitChunk c, runner := .releasing c l none }
  | loadRelease (c : Chunk) (l : ℕ) (e : Option Err) : s.runner = .releasing c l e →
      Step limit bytes lease s { bytes } { s with runner := .returning c l e bytes }
  | swapRelease (c : Chunk) (l : ℕ) (e : Option Err) (current : ℕ) :
      s.runner = .returning c l e current → bytes = current →
      Step limit bytes lease s { bytes := givenBack current c.payload.length }
        { s with runner := .unleasing l e }
  | lostRelease (c : Chunk) (l : ℕ) (e : Option Err) (current : ℕ) :
      s.runner = .returning c l e current → bytes ≠ current →
      Step limit bytes lease s { bytes } { s with runner := .releasing c l e }
  | unlease (l : ℕ) (e : Option Err) : s.runner = .unleasing l e →
      Step limit bytes lease s { bytes, released := [l] }
        { s with runner := match e with | some e => .stopping e | none => .take }
  | stopping (e : Err) : s.runner = .stopping e → s.handler = .idle →
      Step limit bytes lease s { bytes } { s with tr := (s.tr.fail e).cancel, runner := .closing }
  | closing : s.runner = .closing → s.handler = .idle →
      Step limit bytes lease s { bytes } { s with tr := s.tr.closeQueue, runner := .take }
  | finish : s.runner = .finishing → s.handler = .idle →
      Step limit bytes lease s { bytes }
        { s with tr := { s.tr with done := true, ctxDone := true }, runner := .exited }
  -- whoever cancels, stops, suspends, ends or cleans up the transfer, and its windows
  | fail (e : Err) : s.handler = .idle →
      Step limit bytes lease s { bytes } { s with tr := s.tr.fail e }
  | suspend (e : Err) : s.handler = .idle →
      Step limit bytes lease s { bytes }
        { s with tr := { s.tr with suspendOnFailure := true }.fail e }
  | cancel : Step limit bytes lease s { bytes } { s with tr := s.tr.cancel }
  | close : s.handler = .idle →
      Step limit bytes lease s { bytes } { s with tr := s.tr.closeQueue }
  | ending : s.handler = .idle →
      Step limit bytes lease s { bytes } { s with tr := { s.tr with ending := true } }
  | window (blocked : Bool) : s.handler = .idle →
      Step limit bytes lease s { bytes } { s with tr := { s.tr with flowBlocked := blocked } }

end Slot

/-! ## What a transfer holds -/

/-- The chunk that is handled under the lock. -/
def Handler.chunk : Handler → Option Chunk
  | .idle => none
  | .reserving c _ | .loaded c _ _ | .reserved c _ | .retained c _ | .full c _ | .released c
  | .returning c _ => some c

/-- The bytes that are reserved for a chunk that is not queued. -/
def Handler.bytes : Handler → ℕ
  | .reserved c _ | .retained c _ | .full c _ | .released c | .returning c _ => c.payload.length
  | .idle | .reserving _ _ | .loaded _ _ _ => 0

/-- The lease that is retained for a chunk that is not queued. -/
def Handler.leases : Handler → List ℕ
  | .retained _ l | .full _ l => [l]
  | _ => []

/-- The lease of a frame that is not yet retained. -/
def Handler.upcoming : Handler → List ℕ
  | .reserving _ l | .loaded _ l _ | .reserved _ l => [l]
  | _ => []

/-- The bytes of the chunk that the runner has in its hands, until they are given back. -/
def Runner.bytes : Runner → ℕ
  | .taken c _ | .writing c _ | .wrote c _ | .releasing c _ _ | .returning c _ _ _ =>
    c.payload.length
  | _ => 0

def Runner.leases : Runner → List ℕ
  | .taken _ l | .writing _ l | .wrote _ l | .releasing _ l _ | .returning _ l _ _
  | .unleasing l _ => [l]
  | _ => []

/-- The bytes of chunks. -/
def bytesOf (l : List Chunk) : ℕ := (l.map fun c => c.payload.length).sum

namespace Slot

/-- The bytes of the chunks that are in the queue or being written. -/
def buffered (s : Slot) : ℕ := bytesOf s.tr.queue + s.runner.bytes

/-- All bytes that are reserved for the transfer. -/
def bytes (s : Slot) : ℕ := s.buffered + s.handler.bytes

/-- The leases that are retained for the transfer. -/
def held (s : Slot) : List ℕ := s.leases ++ (s.handler.leases ++ s.runner.leases)

/-- What holds of a transfer between the steps: there is a lease for each chunk in the queue,
    a chunk that is handled has passed the checks, and the runner ends with a closed and empty
    queue. -/
structure Ok (s : Slot) : Prop where
  leases : s.leases.length = s.tr.queue.length
  closed : s.tr.queueClosed = true → s.tr.accepting = false
  checked : ∀ c, s.handler.chunk = some c → asks s.tr c = true
  drained : s.runner = .finishing ∨ s.runner = .exited →
    s.tr.queue = [] ∧ s.tr.queueClosed = true

/-- What a step does to the counter and to the leases is what it does to those of the transfer. -/
structure Balanced (limit bytes lease : ℕ) (s : Slot) (o : Outcome) (s' : Slot) : Prop where
  counter : o.bytes + s.bytes = bytes + s'.bytes
  within : 0 < limit → bytes ≤ limit → o.bytes ≤ limit
  held : ∀ l, o.released.count l + s'.held.count l = o.retained.count l + s.held.count l
  upcoming : ∀ l, o.retained.count l + s'.handler.upcoming.count l ≤
    s.handler.upcoming.count l + if o.arrived = true ∧ l = lease then 1 else 0

variable {limit bytes lease : ℕ} {s s' : Slot} {o : Outcome}

/-- While a chunk is handled the transfer accepts chunks, and its queue is open. -/
theorem Ok.queue_open (h : s.Ok) (hc : s.handler.chunk = some c) : s.tr.queueClosed = false := by
  obtain ⟨-, haccepting, -⟩ := asks_iff.mp (h.checked c hc)
  cases hclosed : s.tr.queueClosed with
  | false => rfl
  | true =>
    rw [h.closed hclosed] at haccepting
    cases haccepting

/-- A section under the lock of someone else. -/
theorem Ok.record (h : s.Ok) (tr : IncomingTransfer) (hidle : s.handler = .idle)
    (hqueue : tr.queue = s.tr.queue) (hclosed : tr.queueClosed = true → tr.accepting = false)
    (hkeep : s.tr.queueClosed = true → tr.queueClosed = true) :
    ({ s with tr := tr } : Slot).Ok where
  leases := h.leases.trans (congrArg List.length hqueue.symm)
  closed := hclosed
  checked c hc := by
    rw [hidle] at hc
    cases hc
  drained hr := ⟨hqueue.trans (h.drained hr).1, hkeep (h.drained hr).2⟩

/-- A step of the goroutine that handles a chunk, within its section. -/
theorem Ok.handling {x : Handler} (h : s.Ok)
    (hx : ∀ c, x.chunk = some c → s.handler.chunk = some c) : ({ s with handler := x } : Slot).Ok :=
  ⟨h.leases, h.closed, fun c hc => h.checked c (hx c hc), h.drained⟩

/-- A step of the runner that does not end it. -/
theorem Ok.running {x : Runner} (h : s.Ok) (hx : x ≠ .finishing ∧ x ≠ .exited) :
    ({ s with runner := x } : Slot).Ok :=
  ⟨h.leases, h.closed, h.checked, fun hr => absurd hr (not_or.mpr hx)⟩

theorem closeQueue_spec (tr : IncomingTransfer) (h : tr.queueClosed = true → tr.accepting = false) :
    tr.closeQueue.queue = tr.queue ∧ tr.closeQueue.queueClosed = true ∧
      tr.closeQueue.accepting = false := by
  rw [closeQueue]
  split_ifs with hclosed
  · exact ⟨rfl, hclosed, h hclosed⟩
  · exact ⟨rfl, rfl, rfl⟩

/-- The end of the section of a chunk. -/
theorem ok_of_done {leases : List ℕ} (hleases : leases.length = tr.queue.length)
    (hclosed : tr.queueClosed = true → tr.accepting = false)
    (hdrained : s.runner = .finishing ∨ s.runner = .exited →
      tr.queue = [] ∧ tr.queueClosed = true) :
    ({ s with tr := tr, leases := leases, handler := .idle } : Slot).Ok :=
  ⟨hleases, hclosed, nofun, hdrained⟩

theorem Ok.step (h : s.Ok) (hs : Step limit bytes lease s o s') : s'.Ok ∧ o.panicked = false := by
  cases hs with
  | checked c hidle hnot =>
    rw [handleData_of_not_asks hnot]
    exact ⟨h, rfl⟩
  | data c hidle hasks =>
    refine ⟨⟨h.leases, h.closed, fun d hd => ?_, h.drained⟩, rfl⟩
    cases hd
    exact hasks
  | load c l hc | lost c l _ hc | reserve c l _ hc | retain c l hc | full c l hc | release c l hc
  | reload c hc | lostBack c _ hc =>
    exact ⟨h.handling fun d hd => by rw [hc]; exact hd, rfl⟩
  | exceeded c l current hc _ | giveBack c current hc _ =>
    exact ⟨ok_of_done h.leases h.closed h.drained, rfl⟩
  | send c l hc hopen hroom =>
    refine ⟨ok_of_done ?_ h.closed fun hr => ?_, rfl⟩
    · rw [length_append, h.leases, enqueue, length_append]
      rfl
    · rw [(h.drained hr).2] at hopen
      cases hopen
  | sendClosed c l hc hclosed =>
    have hopen := h.queue_open (c := c) (by rw [hc]; rfl)
    rw [hclosed] at hopen
    cases hopen
  | take c l rest leases hrunner hqueue hleases =>
    refine ⟨⟨?_, h.closed, fun d hd => ?_, fun hr => ?_⟩, rfl⟩
    · have hlength := h.leases
      rw [hqueue, hleases, length_cons, length_cons] at hlength
      exact Nat.succ.inj hlength
    · have := h.checked d hd
      rw [asks_iff] at this ⊢
      exact this
    · rcases hr with hr | hr <;> cases hr
  | drained hrunner hqueue hclosed =>
    exact ⟨⟨h.leases, h.closed, h.checked, fun _ => ⟨hqueue, hclosed⟩⟩, rfl⟩
  | discard | write | writeFails | written | abandon | loadRelease | swapRelease | lostRelease =>
    exact ⟨h.running ⟨nofun, nofun⟩, rfl⟩
  | unlease l e _ =>
    refine ⟨h.running ?_, rfl⟩
    cases e <;> exact ⟨nofun, nofun⟩
  | account c l _ hidle _ =>
    exact ⟨(h.record (s.tr.commitChunk c) hidle rfl h.closed id).running ⟨nofun, nofun⟩, rfl⟩
  | stopping e _ hidle =>
    exact ⟨(h.record (s.tr.fail e).cancel hidle rfl h.closed id).running ⟨nofun, nofun⟩,
      rfl⟩
  | closing _ hidle =>
    obtain ⟨hqueue, hclosed, haccepting⟩ := closeQueue_spec s.tr h.closed
    exact ⟨(h.record _ hidle hqueue (fun _ => haccepting) fun _ => hclosed).running ⟨nofun, nofun⟩,
      rfl⟩
  | finish hrunner hidle =>
    refine ⟨⟨h.leases, h.closed, fun c hc => ?_, fun _ => h.drained (.inl hrunner)⟩, rfl⟩
    rw [hidle] at hc
    cases hc
  | fail e hidle | suspend e hidle | ending hidle | window b hidle =>
    exact ⟨h.record _ hidle rfl h.closed id, rfl⟩
  | cancel =>
    refine ⟨⟨h.leases, h.closed, fun c hc => ?_, h.drained⟩, rfl⟩
    have := h.checked c hc
    rw [asks_iff] at this ⊢
    exact this
  | close hidle =>
    obtain ⟨hqueue, hclosed, haccepting⟩ := closeQueue_spec s.tr h.closed
    exact ⟨h.record _ hidle hqueue (fun _ => haccepting) fun _ => hclosed, rfl⟩

/-! ### The balance -/

theorem bytesOf_append (l l' : List Chunk) : bytesOf (l ++ l') = bytesOf l + bytesOf l' := by
  rw [bytesOf, map_append, sum_append]
  rfl

/-- A step of the goroutine that handles a chunk. -/
theorem balanced_handler {x y : Handler} (hy : s.handler = y) (hqueue : tr.queue = s.tr.queue)
    (hbytes : o.bytes + y.bytes = bytes + x.bytes)
    (hwithin : 0 < limit → bytes ≤ limit → o.bytes ≤ limit)
    (hleases : ∀ l, o.released.count l + x.leases.count l = o.retained.count l + y.leases.count l)
    (hupcoming : ∀ l, o.retained.count l + x.upcoming.count l ≤
      y.upcoming.count l + if o.arrived = true ∧ l = lease then 1 else 0) :
    Balanced limit bytes lease s o { s with tr := tr, handler := x } := by
  subst hy
  refine ⟨?_, hwithin, fun l => ?_, hupcoming⟩
  · simp only [Slot.bytes, buffered, hqueue]
    omega
  · have := hleases l
    simp only [held, count_append]
    omega

/-- A step of the runner. -/
theorem balanced_runner {x y : Runner} {n : ℕ} {released : List ℕ} (hy : s.runner = y)
    (hqueue : tr.queue = s.tr.queue) (hbytes : n + y.bytes = bytes + x.bytes) (hle : n ≤ bytes)
    (hleases : ∀ l, released.count l + x.leases.count l = y.leases.count l) :
    Balanced limit bytes lease s { bytes := n, released := released }
      { s with tr := tr, runner := x } := by
  subst hy
  refine ⟨?_, fun _ h => hle.trans h, fun l => ?_, fun l => by simp⟩
  · simp only [Slot.bytes, buffered, hqueue]
    omega
  · have := hleases l
    simp only [held, count_append, count_nil]
    omega

/-- A chunk goes from the hands of its handler to the queue. -/
theorem balanced_send {l : ℕ} (hc : s.handler = .retained c l) :
    Balanced limit bytes lease s { bytes }
      { s with tr := enqueue s.tr c, leases := s.leases ++ [l], handler := .idle } := by
  refine ⟨?_, fun _ h => h, fun k => ?_, fun k => by simp [Handler.upcoming]⟩
  · simp only [Slot.bytes, buffered, hc, Handler.bytes, enqueue, bytesOf_append]
    simp only [bytesOf, map_singleton, sum_singleton]
    omega
  · simp only [held, hc, Handler.leases, count_append, count_nil]
    omega

/-- A chunk goes from the queue to the hands of the runner. -/
theorem balanced_take {l : ℕ} {rest : List Chunk} {leases : List ℕ} (hrunner : s.runner = .take)
    (hqueue : s.tr.queue = c :: rest) (hleases : s.leases = l :: leases) :
    Balanced limit bytes lease s { bytes }
      { s with tr := { s.tr with queue := rest }, leases := leases, runner := .taken c l } := by
  refine ⟨?_, fun _ h => h, fun k => ?_, fun k => by simp⟩
  · simp only [Slot.bytes, buffered, hrunner, Runner.bytes, hqueue, bytesOf, map_cons, sum_cons]
    omega
  · simp only [held, hrunner, hleases, Runner.leases, count_append, count_nil, count_cons]
    omega

/-- Giving back bytes that are counted. -/
theorem givenBack_add {current n : ℕ} (h : n ≤ current) : givenBack current n + n = current := by
  rw [givenBack]
  split_ifs <;> omega

theorem exceeds_eq_false {current n : ℕ} (h : exceeds limit current n = false) (hpos : 0 < limit) :
    current + n ≤ limit := by
  simp only [exceeds, hpos, decide_true, Bool.true_and, Bool.or_eq_false_iff,
    decide_eq_false_iff_not] at h
  omega

theorem balanced_step (hle : s.bytes ≤ bytes) (hs : Step limit bytes lease s o s') :
    Balanced limit bytes lease s o s' := by
  cases hs with
  | checked c hidle hnot =>
    rw [handleData_of_not_asks hnot]
    exact balanced_handler rfl rfl rfl (fun _ h => h) (fun _ => rfl) fun l => by simp
  | data c hidle hasks =>
    refine balanced_handler hidle rfl rfl (fun _ h => h) (fun _ => rfl) fun l => ?_
    rcases eq_or_ne l lease with rfl | hl
    · simp [Handler.upcoming]
    · simp [Handler.upcoming, hl, hl.symm]
  | load c l hc | lost c l _ hc | full c l hc | reload c hc | lostBack c _ hc | exceeded c l _ hc
  | retain c l hc | release c l hc =>
    exact balanced_handler hc rfl rfl (fun _ h => h) (fun k => by simp [Handler.leases])
      fun k => by simp [Handler.upcoming]
  | reserve c l current hc hfits hcurrent =>
    exact balanced_handler hc rfl (by simp [Handler.bytes, hcurrent])
      (fun hpos _ => exceeds_eq_false hfits hpos) (fun _ => rfl) fun k => by simp [Handler.upcoming]
  | send c l hc => exact balanced_send hc
  | sendClosed c l hc hclosed =>
    exact balanced_handler rfl rfl rfl (fun _ h => h) (fun _ => rfl) fun l => by simp
  | giveBack c current hc hcurrent =>
    have hadd : givenBack current c.payload.length + c.payload.length = current := by
      apply givenBack_add
      simp only [Slot.bytes, hc, Handler.bytes] at hle
      omega
    refine balanced_handler hc rfl ?_ (fun _ _ => ?_) (fun _ => rfl)
      fun k => by simp [Handler.upcoming]
    all_goals simp only [Handler.bytes]; omega
  | take c l rest leases hrunner hqueue hleases => exact balanced_take hrunner hqueue hleases
  | drained hr | discard c l hr | write c l hr | writeFails c l e hr | written c l hr
  | abandon c l hr | loadRelease c l e hr | lostRelease c l e _ hr | account c l hr | stopping e hr
  | finish hr => exact balanced_runner hr rfl rfl le_rfl fun _ => Nat.zero_add _
  | swapRelease c l e current hr hcurrent =>
    have hadd : givenBack current c.payload.length + c.payload.length = current := by
      apply givenBack_add
      simp only [Slot.bytes, buffered, hr, Runner.bytes] at hle
      omega
    refine balanced_runner hr rfl ?_ (by omega) fun _ => Nat.zero_add _
    simp only [Runner.bytes]
    omega
  | unlease l e hr =>
    cases e <;> exact balanced_runner hr rfl rfl le_rfl fun k => by simp [Runner.leases]
  | closing hr _ =>
    exact balanced_runner hr s.tr.counters_closeQueue.2.2.2 rfl le_rfl fun _ => Nat.zero_add _
  | close _ =>
    exact balanced_runner rfl s.tr.counters_closeQueue.2.2.2 rfl le_rfl fun _ => Nat.zero_add _
  | fail | suspend | cancel | ending | window =>
    exact balanced_runner rfl rfl rfl le_rfl fun _ => Nat.zero_add _

end Slot

/-! ## The session -/

/-- The counter, the transfers, and what has happened to the leases. -/
structure State where
  receiveBytes : ℕ := 0
  frames : ℕ := 0
  slots : List Slot := []
  retained : List ℕ := []
  released : List ℕ := []
  panicked : Bool := false

namespace State

/-- The state after a step with an outcome. -/
def after (b : State) (slots : List Slot) (o : Outcome) : State where
  receiveBytes := o.bytes
  frames := if o.arrived then b.frames + 1 else b.frames
  slots := slots
  retained := b.retained ++ o.retained
  released := b.released ++ o.released
  panicked := b.panicked || o.panicked

/-- A transfer is registered, or a goroutine at a transfer takes a step. -/
inductive Step (cfg : Storage.Config) (b : State) : State → Prop
  | opened (v : Wire.TransferBegin) (r : Receiver) : Admitted cfg v r →
      Step cfg b { b with slots := b.slots ++ [{ tr := r.tr }] }
  | slot (before after : List Slot) (s s' : Slot) (o : Outcome) :
      b.slots = before ++ s :: after →
      Slot.Step cfg.maxReceiveBufferBytes b.receiveBytes b.frames s o s' →
      Step cfg b (b.after (before ++ s' :: after) o)

/-- The sum over all transfers. -/
def total (f : Slot → ℕ) (slots : List Slot) : ℕ := (slots.map f).sum

theorem total_replace (f : Slot → ℕ) (before after : List Slot) (s s' : Slot) :
    total f (before ++ s' :: after) + f s = total f (before ++ s :: after) + f s' := by
  simp only [total, map_append, map_cons, sum_append, sum_cons]
  omega

theorem total_concat (f : Slot → ℕ) (slots : List Slot) (s : Slot) :
    total f (slots ++ [s]) = total f slots + f s := by
  simp only [total, map_append, sum_append, map_singleton, sum_singleton]

theorem le_total (f : Slot → ℕ) {slots : List Slot} {s : Slot} (hs : s ∈ slots) :
    f s ≤ total f slots :=
  le_sum_of_mem (mem_map_of_mem hs)

theorem total_eq_zero {f : Slot → ℕ} {slots : List Slot} (h : ∀ s ∈ slots, f s = 0) :
    total f slots = 0 := by
  rw [total, sum_eq_zero]
  intro n hn
  obtain ⟨s, hs, rfl⟩ := mem_map.mp hn
  exact h s hs

/-- What holds in every state of a run. -/
structure Inv (limit : ℕ) (b : State) : Prop where
  slots : ∀ s ∈ b.slots, s.Ok
  counter : b.receiveBytes = total Slot.bytes b.slots
  within : 0 < limit → b.receiveBytes ≤ limit
  leases : ∀ l, b.released.count l + total (fun s => s.held.count l) b.slots = b.retained.count l
  once : ∀ l, b.retained.count l + total (fun s => s.handler.upcoming.count l) b.slots ≤
    if l < b.frames then 1 else 0
  panicked : b.panicked = false

variable {cfg : Storage.Config} {b b' : State}

theorem ok_of_admitted {v : Wire.TransferBegin} {r : Receiver} (hr : Admitted cfg v r) :
    ({ tr := r.tr } : Slot).Ok ∧ r.tr.queue = [] := by
  cases hr with
  | begin sha256 requestID early hcheck hearly => exact ⟨⟨rfl, nofun, nofun, nofun⟩, rfl⟩
  | resume sha256 requestID resume d hmeta hcheck => exact ⟨⟨rfl, nofun, nofun, nofun⟩, rfl⟩

theorem Inv.opened {limit : ℕ} (h : b.Inv limit) (htr : ({ tr := tr } : Slot).Ok)
    (hqueue : tr.queue = []) : 
    ({ b with slots := b.slots ++ [{ tr := tr }] } : State).Inv limit := by
  have hbytes : ({ tr := tr } : Slot).bytes = 0 := by
    simp only [Slot.bytes, Slot.buffered, hqueue]
    rfl
  have hslots := forall_mem_append.mpr ⟨h.slots, forall_mem_singleton.mpr htr⟩
  refine ⟨hslots, ?_, h.within, fun l => ?_, fun l => ?_, h.panicked⟩
  · rw [total_concat, hbytes]
    exact h.counter
  · rw [total_concat]
    exact h.leases l
  · rw [total_concat]
    exact h.once l

theorem Inv.slot {limit : ℕ} {before after : List Slot} {s s' : Slot} {o : Outcome}
    (h : b.Inv limit) (hslots : b.slots = before ++ s :: after)
    (hs : Slot.Step limit b.receiveBytes b.frames s o s') :
    (b.after (before ++ s' :: after) o).Inv limit := by
  have hmem : s ∈ b.slots := by
    rw [hslots]
    exact mem_append_right _ mem_cons_self
  obtain ⟨hok, hpanicked⟩ := (h.slots s hmem).step hs
  have hle : s.bytes ≤ b.receiveBytes := by
    rw [h.counter]
    exact le_total Slot.bytes hmem
  have hbalanced := Slot.balanced_step hle hs
  refine ⟨fun x hx => ?_, ?_, fun hpos => hbalanced.within hpos (h.within hpos), fun l => ?_,
    fun l => ?_, ?_⟩
  · rcases mem_append.mp hx with hx | hx
    · exact h.slots x (by rw [hslots]; exact mem_append_left _ hx)
    · rcases mem_cons.mp hx with rfl | hx
      · exact hok
      · exact h.slots x (by rw [hslots]; exact mem_append_right _ (mem_cons_of_mem _ hx))
  · have hreplace := total_replace Slot.bytes before after s s'
    have hcounter := h.counter
    have hbytes := hbalanced.counter
    rw [hslots] at hcounter
    show o.bytes = total Slot.bytes (before ++ s' :: after)
    omega
  · have hreplace := total_replace (fun s => s.held.count l) before after s s'
    have hleases := h.leases l
    have hheld := hbalanced.held l
    rw [hslots] at hleases
    show (b.released ++ o.released).count l + total (fun s => s.held.count l)
      (before ++ s' :: after) = (b.retained ++ o.retained).count l
    rw [count_append, count_append]
    omega
  · have hreplace := total_replace (fun s => s.handler.upcoming.count l) before after s s'
    have honce := h.once l
    have hupcoming := hbalanced.upcoming l
    rw [hslots] at honce
    show (b.retained ++ o.retained).count l + total (fun s => s.handler.upcoming.count l)
      (before ++ s' :: after) ≤ if l < (if o.arrived then b.frames + 1 else b.frames) then 1 else 0
    rw [count_append]
    by_cases hnew : o.arrived = true ∧ l = b.frames
    · -- the lease of the frame that arrives was not known
      rw [if_neg (by omega)] at honce
      rw [if_pos hnew] at hupcoming
      rw [if_pos (by rw [if_pos hnew.1]; omega)]
      omega
    · rw [if_neg hnew] at hupcoming
      by_cases hlt : l < b.frames
      · rw [if_pos hlt] at honce
        rw [if_pos (by split_ifs <;> omega)]
        omega
      · rw [if_neg hlt] at honce
        omega
  · rw [State.after, h.panicked, hpanicked]
    rfl

theorem Inv.step (h : b.Inv cfg.maxReceiveBufferBytes) (hs : Step cfg b b') :
    b'.Inv cfg.maxReceiveBufferBytes := by
  cases hs with
  | opened v r hr =>
    obtain ⟨hok, hqueue⟩ := ok_of_admitted hr
    exact h.opened hok hqueue
  | slot before after s s' o hslots hs => exact h.slot hslots hs

theorem inv_run (hrun : ReflTransGen (Step cfg) {} b) : b.Inv cfg.maxReceiveBufferBytes := by
  have hinit : ({} : State).Inv cfg.maxReceiveBufferBytes := by
    refine ⟨fun s hs => absurd hs not_mem_nil, rfl, fun _ => Nat.zero_le _, fun _ => rfl,
      fun l => ?_, rfl⟩
    split_ifs <;> exact Nat.zero_le _
  exact Run.invariant _ hinit (fun _ _ h hs => h.step hs) hrun

/-- In every run, the section of a chunk ends as if it were one step. -/
theorem section_atomic {s s' : Slot} {o : Outcome} {c : Chunk}
    (hrun : ReflTransGen (Step cfg) {} b) (hmem : s ∈ b.slots)
    (hs : s.Step cfg.maxReceiveBufferBytes b.receiveBytes b.frames o s')
    (hc : s.handler.chunk = some c) (hidle : s'.handler = .idle) :
    ∃ reserve, s'.tr = (s.tr.handleData reserve c).1 := by
  have hasks := ((inv_run hrun).slots s hmem).checked c hc
  have hblock : block s.tr = (s.tr.handleData false c).1 := by
    rw [handleData_of_asks hasks, if_neg (by simp)]
  cases hs with
  | exceeded | giveBack => exact ⟨false, hblock⟩
  | send d l hd _ hroom =>
    rw [hd] at hc
    cases hc
    exact ⟨true, by rw [handleData_of_asks hasks, if_pos ⟨rfl, hroom⟩]⟩
  -- no other step ends a section
  | _ => simp_all [Handler.chunk]

theorem section_atomic_refused : ∃ (s s' : Slot) (reserve : Bool),
    s.handler.chunk = some ⟨0, [7, 8], true⟩ ∧
      s'.tr = (s.tr.handleData reserve ⟨0, [7, 8], true⟩).1 := by
  have hrun : ReflTransGen (Step { maxReceiveBufferBytes := 1 }) {} _ :=
    .head (.opened (plainBegin 2 2 1) _ (.begin true 0 [] (by decide) (.inl rfl))) <|
    .head (.slot [] [] _ _ _ rfl (.data ⟨0, [7, 8], true⟩ rfl (by decide))) <|
    .single (.slot [] [] _ _ _ rfl (.load _ 0 rfl))
  obtain ⟨reserve, h⟩ :=
    section_atomic hrun mem_cons_self (.exceeded _ 0 0 rfl (by decide)) rfl rfl
  exact ⟨_, _, reserve, rfl, h⟩

/-- A transfer whose runner has finished holds nothing. -/
theorem empty_of_exited {s : Slot} (h : s.Ok) (hrunner : s.runner = .exited) :
    s.bytes = 0 ∧ s.held = [] := by
  obtain ⟨hqueue, hclosed⟩ := h.drained (.inr hrunner)
  have hleases : s.leases = [] := by
    rw [← length_eq_zero_iff, h.leases, hqueue]
    rfl
  have hidle : s.handler = .idle := by
    cases hh : s.handler with
    | idle => rfl
    | _ =>
      have hopen := h.queue_open (by rw [hh]; rfl)
      rw [hclosed] at hopen
      cases hopen
  constructor
  · rw [Slot.bytes, Slot.buffered, hqueue, hrunner, hidle]
    rfl
  · rw [Slot.held, hleases, hrunner, hidle]
    rfl

end State

open State Session Pace

/-- In every run of the goroutines at any number of transfers, the counter is the number of
    bytes of the chunks that are in queues, in the hands of runners, or handled by a goroutine
    that has reserved them, and it is within its limit; every lease that was retained is held
    at one place or was released once; no closed queue was sent on; and when all runners have
    finished the counter is zero and all leases are released. -/
theorem receive_buffer_exact (c : SessionConfig) (b : State)
    (hrun : ReflTransGen (State.Step (storageConfig (normalizeSessionConfig c))) {} b) :
    b.receiveBytes = (b.slots.map fun s => s.buffered + s.handler.bytes).sum ∧
    b.receiveBytes ≤ (normalizeSessionConfig c).flowControl.maxReceiveBufferBytes ∧
    (∀ l, b.retained.count l ≤ 1 ∧
      b.released.count l + (b.slots.map fun s => s.held.count l).sum = b.retained.count l) ∧
    b.panicked = false ∧
    ((∀ s ∈ b.slots, s.runner = .exited) →
      b.receiveBytes = 0 ∧ ∀ l, b.released.count l = b.retained.count l) := by
  have hinv := inv_run hrun
  refine ⟨hinv.counter, hinv.within (normalize_normal c).usable.receive_pos,
    fun l => ⟨?_, hinv.leases l⟩, hinv.panicked, fun hexited => ⟨?_, fun l => ?_⟩⟩
  · have honce := hinv.once l
    split_ifs at honce <;> omega
  · rw [hinv.counter]
    exact total_eq_zero fun s hs => (empty_of_exited (hinv.slots s hs) (hexited s hs)).1
  · have hleases := hinv.leases l
    rw [total_eq_zero fun s hs => ?_] at hleases
    · omega
    · rw [(empty_of_exited (hinv.slots s hs) (hexited s hs)).2]
      rfl

/-- A chunk of one byte is handled, up to the reservation of its byte. -/
def reserved :
    { b // ReflTransGen (State.Step (storageConfig (normalizeSessionConfig {}))) {} b } :=
  ⟨_,
    .head (.opened (plainBegin 1 1 1) _ (.begin true 0 [] (by decide) (.inl rfl))) <|
    .head (.slot [] [] _ _ _ rfl (.data ⟨0, [7], true⟩ rfl (by decide))) <|
    .head (.slot [] [] _ _ _ rfl (.load ⟨0, [7], true⟩ 0 rfl)) <|
    .single (.slot [] [] _ _ _ rfl (.reserve ⟨0, [7], true⟩ 0 0 rfl (by decide) rfl))⟩

/-- The counter is then one, while nothing is in a queue or in the hands of a runner. -/
theorem reserved_unqueued :
    ∃ b, ReflTransGen (State.Step (storageConfig (normalizeSessionConfig {}))) {} b ∧
      b.receiveBytes = 1 ∧ (b.slots.map Slot.buffered).sum = 0 :=
  ⟨_, reserved.2, rfl, rfl⟩

theorem receive_buffer_exact_byte :
    ∃ b, ReflTransGen (State.Step (storageConfig (normalizeSessionConfig {}))) {} b ∧
      b.retained = [0] ∧ b.receiveBytes = (b.slots.map fun s => s.buffered + s.handler.bytes).sum ∧
      b.receiveBytes ≤ (normalizeSessionConfig {}).flowControl.maxReceiveBufferBytes := by
  obtain ⟨b, hrun, hretained⟩ :
      ∃ b, ReflTransGen (State.Step (storageConfig (normalizeSessionConfig {}))) {} b ∧
        b.retained = [0] :=
    ⟨_, reserved.2.trans <|
      .head (.slot [] [] _ _ _ rfl (.retain ⟨0, [7], true⟩ 0 rfl)) <|
      .single (.slot [] [] _ _ _ rfl (.send ⟨0, [7], true⟩ 0 rfl rfl (by decide))), rfl⟩
  obtain ⟨hcounter, hwithin, -⟩ := receive_buffer_exact {} b hrun
  exact ⟨b, hrun, hretained, hcounter, hwithin⟩

end Etp.ReceiveBuffer
