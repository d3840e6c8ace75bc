import Etp.Transfer.Basic

/-!
# The record of an incoming transfer

`IncomingTransfer` is what the receiver keeps of a transfer it has opened, and
the functions of this module are the sections of the code that run under its
lock: the decision about a chunk (`handleData`), the accounting of a chunk its
writer has taken (`commitChunk`), and the ways in which it stops.

The reader goroutine decides about chunks, the runner goroutine writes them; the
queue between them is a bounded channel that `closeQueue` closes once. Whether
the session has receive buffer left for a chunk depends on its other transfers,
so `handleData` is given the answer of `reserveReceiveBytes`.
-/

namespace Etp.Transfer

/-- The record of an incoming transfer. `hash` holds the bytes hashed so far,
    where the transfer is hashed; `queueClosed` and `done` say that the channels
    `queue` and `done` are closed, `ctxDone` that its context is cancelled. -/
structure IncomingTransfer where
  metadata : TransferBegin
  receivedBytes : ℕ := 0
  acceptedBytes : ℕ := 0
  firstChunk : ℕ := 0
  lastChunk : ℕ := 0
  nextChunk : ℕ := 0
  acceptedNextChunk : ℕ := 0
  hash : Option Bytes := none
  queue : List Chunk := []
  capacity : ℕ := 1
  queueClosed : Bool := false
  done : Bool := false
  failed : Option Err := none
  accepting : Bool := true
  ending : Bool := false
  flowBlocked : Bool := false
  suspendOnFailure : Bool := false
  ctxDone : Bool := false

/-- `newIncomingTransfer`, for a transfer that is opened by its announcement. -/
def newIncomingTransfer (maxInFlightChunks : ℤ) (m : TransferBegin) : IncomingTransfer where
  metadata := m
  hash := if m.checksummed then some [] else none
  capacity := if maxInFlightChunks ≤ 0 then 1 else maxInFlightChunks.toNat

namespace IncomingTransfer

/-! ## The sections under the lock -/

/-- The size a chunk must have. -/
def expectedSize (tr : IncomingTransfer) (chunkID : ℕ) : ℕ :=
  if chunkID + 1 = tr.metadata.chunkCount then
    (tr.metadata.totalSize - chunkID * tr.metadata.chunkSize) % 2 ^ 32
  else tr.metadata.chunkSize

/-- What follows from a chunk: an error of `HandleFrame`, an answer, or nothing. -/
inductive DataResult
  | failed (e : Err)
  | reply (r : Reply)
  | nothing
  deriving DecidableEq, Repr

/-- A refusal of one chunk. -/
def refuse (chunkID : ℕ) (reason : NackReason) : DataResult :=
  .reply (.nack ⟨chunkID, chunkID, reason⟩)

/-- The acknowledgement of all that was written. -/
def snapshot (tr : IncomingTransfer) : Ack := ⟨tr.firstChunk, tr.lastChunk, tr.receivedBytes⟩

/-- The section of `handleIncomingTransferData` under the lock; `reserve` is the
    answer of `reserveReceiveBytes`. -/
def handleData (tr : IncomingTransfer) (reserve : Bool) (c : Chunk) :
    IncomingTransfer × DataResult :=
  match tr.failed with
  | some e => (tr, .failed e)
  | none =>
    if !tr.accepting then (tr, refuse c.chunkID .transferCanceled)
    else if c.chunkID < tr.nextChunk then (tr, .reply (.ack tr.snapshot))
    else if c.chunkID < tr.acceptedNextChunk then (tr, .nothing)
    else if tr.acceptedNextChunk < c.chunkID then
      (tr, .reply (.nack ⟨tr.acceptedNextChunk, c.chunkID - 1, .missingChunk⟩))
    else if tr.metadata.chunkCount ≤ c.chunkID || tr.metadata.chunkSize < c.payload.length then
      (tr, refuse c.chunkID .invalidChunk)
    else if c.payload.length ≠ tr.expectedSize c.chunkID then
      (tr, refuse c.chunkID .invalidChunk)
    else if !reserve then ({ tr with flowBlocked := true }, refuse c.chunkID .flowControl)
    else if tr.queue.length < tr.capacity then
      ({ tr with queue := tr.queue ++ [c]
                 acceptedBytes := tr.acceptedBytes + c.payload.length
                 acceptedNextChunk := tr.acceptedNextChunk + 1 }, .nothing)
    else ({ tr with flowBlocked := true }, refuse c.chunkID .flowControl)

/-- The section of `writeIncomingChunk` under the lock, for a chunk that was
    written and a transfer that has not failed. -/
def commitChunk (tr : IncomingTransfer) (c : Chunk) : IncomingTransfer :=
  { tr with
    hash := tr.hash.map (· ++ c.payload)
    firstChunk := if tr.receivedBytes = 0 then c.chunkID else tr.firstChunk
    lastChunk := c.chunkID
    nextChunk := c.chunkID + 1
    receivedBytes := tr.receivedBytes + c.payload.length }

def fail (tr : IncomingTransfer) (e : Err) : IncomingTransfer :=
  { tr with failed := some (tr.failed.getD e) }

def cancel (tr : IncomingTransfer) : IncomingTransfer := { tr with ctxDone := true }

def closeQueue (tr : IncomingTransfer) : IncomingTransfer :=
  if tr.queueClosed then tr else { tr with accepting := false, queueClosed := true }

/-- `stop`: its three sections are one step here, as the reader asks for `failed`
    first and the runner is the only one to go on after them. -/
def stop (tr : IncomingTransfer) (e : Err) : IncomingTransfer := (tr.fail e).cancel.closeQueue

/-- `suspend`. -/
def suspend (tr : IncomingTransfer) (e : Err) : IncomingTransfer :=
  ({ tr with suspendOnFailure := true }.fail e).cancel.closeQueue

/-- Whether all of the transfer has been accepted. -/
def completeInput (tr : IncomingTransfer) : Bool :=
  tr.acceptedBytes == tr.metadata.totalSize && tr.acceptedNextChunk == tr.metadata.chunkCount

/-! ## What they do -/

variable {tr : IncomingTransfer} {c : Chunk} {reserve : Bool}

/-- A chunk changes the record only by being queued, or by marking it as blocked. -/
theorem handleData_cases (tr : IncomingTransfer) (reserve : Bool) (c : Chunk) :
    (tr.handleData reserve c).1 = tr ∨
    (tr.handleData reserve c).1 = { tr with flowBlocked := true } ∨
    (tr.failed = none ∧ tr.accepting = true ∧ c.chunkID = tr.acceptedNextChunk ∧
      c.chunkID < tr.metadata.chunkCount ∧ c.payload.length = tr.expectedSize c.chunkID ∧
      tr.nextChunk ≤ c.chunkID ∧ tr.queue.length < tr.capacity ∧
      tr.handleData reserve c =
        ({ tr with queue := tr.queue ++ [c]
                   acceptedBytes := tr.acceptedBytes + c.payload.length
                   acceptedNextChunk := tr.acceptedNextChunk + 1 }, .nothing)) := by
  unfold handleData
  split
  · exact .inl rfl
  · rename_i hf
    split_ifs with h1 h2 h3 h4 h5 h6 h7 h8
    · exact .inl rfl
    · exact .inl rfl
    · exact .inl rfl
    · exact .inl rfl
    · exact .inl rfl
    · exact .inl rfl
    · exact .inr (.inl rfl)
    · simp only [Bool.or_eq_true, decide_eq_true_eq, not_or, Nat.not_le, Nat.not_lt] at h5
      exact .inr (.inr ⟨hf, by simpa using h1, by omega, h5.1, by omega, by omega, h8, rfl⟩)
    · exact .inr (.inl rfl)

/-- A chunk is refused, or is a duplicate and all that was written is acknowledged. -/
theorem handleData_reply {x : Reply} (h : (tr.handleData reserve c).2 = .reply x) :
    (∃ n, x = .nack n) ∨ (x = .ack tr.snapshot ∧ c.chunkID < tr.nextChunk) := by
  unfold handleData at h
  split at h
  · cases h
  · split_ifs at h with h1 h2
    all_goals cases h
    · exact .inl ⟨_, rfl⟩
    · exact .inr ⟨rfl, h2⟩
    all_goals exact .inl ⟨_, rfl⟩

/-- The record `tr'` is `tr` after it was stopped or suspended. -/
def Halted (tr tr' : IncomingTransfer) : Prop :=
  ∃ e b, tr' = { tr with
    failed := some e
    ctxDone := true
    accepting := false
    queueClosed := true
    suspendOnFailure := b }

theorem halted_stop (h : tr.queueClosed = true → tr.accepting = false) (e : Err) :
    tr.Halted (tr.stop e) := by
  refine ⟨tr.failed.getD e, tr.suspendOnFailure, ?_⟩
  simp only [stop, closeQueue, cancel, fail]
  by_cases hc : tr.queueClosed = true
  · simp [hc, h hc]
  · simp [hc]

theorem halted_suspend (h : tr.queueClosed = true → tr.accepting = false) (e : Err) :
    tr.Halted (tr.suspend e) := by
  refine ⟨tr.failed.getD e, true, ?_⟩
  simp only [suspend, closeQueue, cancel, fail]
  by_cases hc : tr.queueClosed = true
  · simp [hc, h hc]
  · simp [hc]

theorem stop_accepted (tr : IncomingTransfer) (e : Err) :
    (tr.stop e).acceptedNextChunk = tr.acceptedNextChunk := by
  simp only [stop, closeQueue]
  split_ifs <;> rfl

theorem suspend_accepted (tr : IncomingTransfer) (e : Err) :
    (tr.suspend e).acceptedNextChunk = tr.acceptedNextChunk := by
  simp only [suspend, closeQueue]
  split_ifs <;> rfl

end IncomingTransfer

end Etp.Transfer
