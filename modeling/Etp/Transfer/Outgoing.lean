import Etp.Transfer.Basic

/-!
# The record of an outgoing transfer

`OutgoingTransfer` is what the sender keeps of a transfer until it ends, and the
functions of this module are the sections of the code that run under its lock:
appending a chunk to the pending ones (`push`), the effects of the answers of
the receiver (`handleAck`, `handleNack`, `handleState`, `handleWindow`), and the
tick of the monitor that sends chunks and the end again (`expire`).

A pending chunk holds its payload and how often it was sent again; the code's
`acked` is only ever set on chunks that leave the list. Time is not modelled:
`expire` is given the chunks whose deadline has passed.
-/

namespace Etp.Transfer

open List

/-- A chunk that was sent and not acknowledged. -/
structure SentChunk where
  chunkID : ℕ
  payload : Bytes
  retries : ℕ := 0
  deriving DecidableEq, Repr

/-- The frame of a chunk that is sent again. -/
def SentChunk.chunk (c : SentChunk) : Chunk := ⟨c.chunkID, c.payload, true⟩

/-- The record of an outgoing transfer. -/
structure OutgoingTransfer where
  id : ℕ
  totalBytes : ℕ
  chunkCount : ℕ
  retryLimit : ℕ
  maxInFlight : ℕ
  maxInFlightBytes : ℕ
  pending : List SentChunk := []
  pendingBytes : ℕ := 0
  remoteWindowBytes : ℕ := 0
  remoteWindowChunks : ℕ := 0
  hasRemoteWindow : Bool := false
  ackedBytes : ℕ := 0
  doneSending : Bool := false
  completed : Bool := false
  commitRetries : ℕ := 0
  failed : Option Err := none

/-- `registerOutgoing`: the limits are those of the options and of the session,
    and the window of the receiver is awaited where it is said to come. -/
def registerOutgoing (id retryLimit maxInFlight maxInFlightBytes : ℕ) (hasRemoteWindow : Bool)
    (m : TransferBegin) : OutgoingTransfer where
  id := id
  totalBytes := m.totalSize
  chunkCount := m.chunkCount
  retryLimit := retryLimit
  maxInFlight := maxInFlight
  maxInFlightBytes := maxInFlightBytes
  hasRemoteWindow := hasRemoteWindow

namespace OutgoingTransfer

/-! ## Sending -/

/-- Whether `sendReliableChunk` waits before a payload of `n` bytes. -/
def blocked (ot : OutgoingTransfer) (n : ℕ) : Bool :=
  ot.maxInFlight ≤ ot.pending.length || ot.maxInFlightBytes < ot.pendingBytes + n ||
    (ot.hasRemoteWindow && (ot.remoteWindowBytes < n || ot.remoteWindowChunks == 0))

/-- The section of `sendReliableChunk` under the lock, once it does not wait. -/
def push (ot : OutgoingTransfer) (chunkID : ℕ) (payload : Bytes) : OutgoingTransfer :=
  { ot with
    pending := ot.pending ++ [⟨chunkID, payload, 0⟩]
    pendingBytes := ot.pendingBytes + payload.length
    remoteWindowBytes :=
      if ot.hasRemoteWindow then ot.remoteWindowBytes - payload.length else ot.remoteWindowBytes
    remoteWindowChunks :=
      if ot.hasRemoteWindow then ot.remoteWindowChunks - 1 else ot.remoteWindowChunks }

def fail (ot : OutgoingTransfer) (e : Err) : OutgoingTransfer := { ot with failed := some e }

/-! ## The answers of the receiver -/

/-- The chunks an answer is about. -/
def inRange (chunkFrom chunkTo : ℕ) (c : SentChunk) : Bool :=
  chunkFrom ≤ c.chunkID && c.chunkID ≤ chunkTo

/-- The number of bytes of chunks. -/
def bytes (l : List SentChunk) : ℕ := (l.map (·.payload.length)).sum

/-- `applyAck`. -/
def applyAck (ot : OutgoingTransfer) (a : Ack) : OutgoingTransfer × Option Err :=
  if ot.chunkCount ≤ a.chunkTo || a.receivedBytes < ot.ackedBytes ||
      ot.totalBytes < a.receivedBytes then
    (ot, some "ack counters exceed outgoing transfer")
  else
    let acked := ot.pending.filter (inRange a.chunkFrom a.chunkTo)
    let ot := { ot with
      pending := ot.pending.filter fun c => !inRange a.chunkFrom a.chunkTo c
      ackedBytes := ot.ackedBytes + bytes acked
      pendingBytes := ot.pendingBytes - bytes acked }
    if acked ≠ [] then
      if a.receivedBytes ≠ ot.ackedBytes then
        let e := "ack received byte counter does not match committed chunks"
        (ot.fail e, some e)
      else (ot, none)
    else if a.receivedBytes ≤ ot.ackedBytes then (ot, none)
    else (ot, some "ack does not match pending chunks")

/-- `HandleAck`. -/
def handleAck (ot : OutgoingTransfer) (a : Ack) : OutgoingTransfer × Option Err :=
  if a.chunkTo < a.chunkFrom then (ot, some "invalid ack range or transfer id")
  else ot.applyAck a

/-- Charges a retry to the chunks that are selected, up to the first one that has
    none left; the frames of those charged. -/
def charge (retryLimit : ℕ) (sel : SentChunk → Bool) :
    List SentChunk → List SentChunk × List Chunk × Option ℕ
  | [] => ([], [], none)
  | c :: rest =>
    if sel c then
      if retryLimit ≤ c.retries then (c :: rest, [], some c.chunkID)
      else
        let (rest', frames, e) := charge retryLimit sel rest
        ({ c with retries := c.retries + 1 } :: rest', c.chunk :: frames, e)
    else
      let (rest', frames, e) := charge retryLimit sel rest
      (c :: rest', frames, e)

/-- `applyNack`: the frames it sends again, and its error. -/
def applyNack (ot : OutgoingTransfer) (n : Nack) : OutgoingTransfer × List Chunk × Option Err :=
  match n.reason with
  | .flowControl =>
    ({ ot with hasRemoteWindow := true, remoteWindowBytes := 0, remoteWindowChunks := 0 }, [], none)
  | .missingChunk =>
    match charge ot.retryLimit (inRange n.chunkFrom n.chunkTo) ot.pending with
    | (pending, frames, none) => ({ ot with pending := pending }, frames, none)
    | (pending, _, some chunkID) =>
      let e := "retry limit exceeded for transfer=" ++ toString ot.id ++ " chunk=" ++
        toString chunkID
      ({ ot with pending := pending, failed := some e }, [], some e)
  | reason =>
    (ot.fail ("remote rejected transfer=" ++ toString ot.id ++ " reason=" ++
      toString reason.code), [], none)

/-- `HandleNack`. -/
def handleNack (ot : OutgoingTransfer) (n : Nack) : OutgoingTransfer × List Chunk × Option Err :=
  if n.chunkTo < n.chunkFrom then (ot, [], some "invalid nack range or transfer id")
  else ot.applyNack n

/-- `HandleWindow`. -/
def handleWindow (ot : OutgoingTransfer) (windowBytes windowChunks : ℕ) : OutgoingTransfer :=
  { ot with
    remoteWindowBytes := windowBytes
    remoteWindowChunks := windowChunks
    hasRemoteWindow := true }

/-- `handleIncomingTransferState`, for the states that follow an end. -/
def handleState (ot : OutgoingTransfer) (s : TransferState) : OutgoingTransfer × Option Err :=
  match s.failure with
  | some reason =>
    (ot.fail ("remote transfer commit failed: reason=" ++ toString reason.code), none)
  | none =>
    if s.receivedBytes ≠ ot.totalBytes || s.nextChunk ≠ ot.chunkCount then
      let e := "invalid transfer completion counters"
      (ot.fail e, some e)
    else ({ ot with completed := true }, none)

/-! ## The monitor -/

/-- The part of `processOutgoingTimeouts` for one transfer: `commit` says that the
    deadline of the end has passed, `late` which chunks are late. The answer is
    whether the end is sent again, and which chunks. -/
def expire (ot : OutgoingTransfer) (commit : Bool) (late : ℕ → Bool) :
    OutgoingTransfer × Bool × List Chunk :=
  if ot.failed.isSome || (ot.doneSending && ot.pending.isEmpty && ot.completed) then
    (ot, false, [])
  else
    let due := ot.doneSending && !ot.completed && commit
    if due && ot.retryLimit ≤ ot.commitRetries then
      (ot.fail ("commit timeout for transfer=" ++ toString ot.id), false, [])
    else
      let ot := { ot with commitRetries := if due then ot.commitRetries + 1 else ot.commitRetries }
      match charge ot.retryLimit (fun c => late c.chunkID) ot.pending with
      | (pending, frames, none) => ({ ot with pending := pending }, due, frames)
      | (pending, frames, some chunkID) =>
        ({ ot with
            pending := pending
            failed := some ("ack timeout for transfer=" ++ toString ot.id ++ " chunk=" ++
              toString chunkID) }, due, frames)

/-! ## What they do -/

/-- Charging retries changes nothing else about the chunks, and what is sent again
    are the chunks as they are. -/
theorem charge_eq (limit : ℕ) (sel : SentChunk → Bool) (l : List SentChunk) :
    (charge limit sel l).1.map SentChunk.chunk = l.map SentChunk.chunk ∧
      ∀ f ∈ (charge limit sel l).2.1, f ∈ l.map SentChunk.chunk := by
  induction l with
  | nil => exact ⟨rfl, fun f hf => hf⟩
  | cons c rest ih =>
    obtain ⟨ih1, ih2⟩ := ih
    rw [charge]
    split_ifs
    · exact ⟨rfl, fun f hf => absurd hf not_mem_nil⟩
    · refine ⟨by simp only [map_cons, ih1]; rfl, fun f hf => ?_⟩
      rcases mem_cons.mp hf with rfl | hf
      · exact mem_cons_self
      · exact mem_cons_of_mem _ (ih2 f hf)
    · exact ⟨by simp only [map_cons, ih1], fun f hf => mem_cons_of_mem _ (ih2 f hf)⟩

variable (ot : OutgoingTransfer)

/-- An acknowledgement changes nothing, or takes its chunks from the pending ones and counts
    them. -/
theorem handleAck_cases (a : Ack) :
    (ot.handleAck a).1 = ot ∨ ∃ failed, (ot.handleAck a).1 = { ot with
      pending := ot.pending.filter fun c => !inRange a.chunkFrom a.chunkTo c
      ackedBytes := ot.ackedBytes + bytes (ot.pending.filter (inRange a.chunkFrom a.chunkTo))
      pendingBytes := ot.pendingBytes - bytes (ot.pending.filter (inRange a.chunkFrom a.chunkTo))
      failed := failed } := by
  simp only [handleAck, applyAck, fail]
  split_ifs
  · exact .inl rfl
  · exact .inl rfl
  all_goals exact .inr ⟨_, rfl⟩

/-- A refusal replaces the window, or changes at most the retries of the pending chunks and
    whether the transfer has failed. -/
theorem handleNack_cases (n : Nack) :
    ((n.chunkFrom ≤ n.chunkTo ∧ n.reason = .flowControl) ∧
      (ot.handleNack n).1 = ot.handleWindow 0 0) ∨
    ∃ pending failed, (ot.handleNack n).1 = { ot with pending := pending, failed := failed } ∧
      pending.map SentChunk.chunk = ot.pending.map SentChunk.chunk := by
  have hcharge := (charge_eq ot.retryLimit (inRange n.chunkFrom n.chunkTo) ot.pending).1
  simp only [handleNack, applyNack, fail]
  split_ifs with hrange
  · exact .inr ⟨_, _, rfl, rfl⟩
  · split
    · next hreason => exact .inl ⟨⟨Nat.not_lt.mp hrange, hreason⟩, rfl⟩
    · split <;> rename_i heq <;> rw [heq] at hcharge <;> exact .inr ⟨_, _, rfl, hcharge⟩
    · exact .inr ⟨_, _, rfl, rfl⟩

theorem handleState_cases (s : TransferState) : ∃ completed failed,
    (ot.handleState s).1 = { ot with completed := completed, failed := failed } := by
  simp only [handleState, fail]
  split
  · exact ⟨_, _, rfl⟩
  · split_ifs <;> exact ⟨_, _, rfl⟩

/-- The monitor changes at most retries, and whether the transfer has failed. -/
theorem expire_cases (commit : Bool) (late : ℕ → Bool) : ∃ pending failed retries,
    (ot.expire commit late).1 =
      { ot with pending := pending, failed := failed, commitRetries := retries } ∧
      pending.map SentChunk.chunk = ot.pending.map SentChunk.chunk := by
  have hcharge := (charge_eq ot.retryLimit (fun c => late c.chunkID) ot.pending).1
  simp only [expire, fail]
  split
  · exact ⟨_, _, _, rfl, rfl⟩
  · split
    · exact ⟨_, _, _, rfl, rfl⟩
    · split <;> rename_i heq <;> rw [heq] at hcharge <;> exact ⟨_, _, _, rfl, hcharge⟩

/-- The record `ot'` is `ot` with the same chunks pending and the same counters. -/
structure SameChunks (ot ot' : OutgoingTransfer) : Prop where
  pending : ot'.pending.map SentChunk.chunk = ot.pending.map SentChunk.chunk
  pendingBytes : ot'.pendingBytes = ot.pendingBytes
  ackedBytes : ot'.ackedBytes = ot.ackedBytes
  totalBytes : ot'.totalBytes = ot.totalBytes
  chunkCount : ot'.chunkCount = ot.chunkCount

theorem SameChunks.refl : ot.SameChunks ot := ⟨rfl, rfl, rfl, rfl, rfl⟩

theorem sameChunks_handleNack (n : Nack) : ot.SameChunks (ot.handleNack n).1 := by
  rcases ot.handleNack_cases n with ⟨-, heq⟩ | ⟨pending, failed, heq, hpending⟩ <;> rw [heq]
  · exact ⟨rfl, rfl, rfl, rfl, rfl⟩
  · exact ⟨hpending, rfl, rfl, rfl, rfl⟩

theorem sameChunks_handleState (s : TransferState) : ot.SameChunks (ot.handleState s).1 := by
  obtain ⟨completed, failed, heq⟩ := ot.handleState_cases s
  rw [heq]
  exact ⟨rfl, rfl, rfl, rfl, rfl⟩

theorem sameChunks_expire (commit : Bool) (late : ℕ → Bool) :
    ot.SameChunks (ot.expire commit late).1 := by
  obtain ⟨pending, failed, retries, heq, hpending⟩ := ot.expire_cases commit late
  rw [heq]
  exact ⟨hpending, rfl, rfl, rfl, rfl⟩

/-- An acknowledgement takes away pending chunks up to the one it names. -/
theorem handleAck_spec (a : Ack) : (ot.handleAck a).1.completed = ot.completed ∧
    (∀ c ∈ (ot.handleAck a).1.pending, c ∈ ot.pending) ∧
    ∀ c ∈ ot.pending, c ∈ (ot.handleAck a).1.pending ∨ c.chunkID ≤ a.chunkTo := by
  have hkeep : ∀ c ∈ ot.pending, c ∈ ot.pending.filter (fun c =>
      !inRange a.chunkFrom a.chunkTo c) ∨ c.chunkID ≤ a.chunkTo := by
    intro c hc
    by_cases hle : c.chunkID ≤ a.chunkTo
    · exact .inr hle
    · exact .inl (mem_filter.mpr ⟨hc, by simp [inRange, hle]⟩)
  rcases ot.handleAck_cases a with heq | ⟨failed, heq⟩ <;> rw [heq]
  · exact ⟨rfl, fun _ h => h, fun _ h => .inl h⟩
  · exact ⟨rfl, fun _ h => (mem_filter.mp h).1, hkeep⟩

/-- A refusal changes nothing about the pending chunks but their retries, and only
    pending chunks are sent again. -/
theorem handleNack_spec (n : Nack) : (ot.handleNack n).1.completed = ot.completed ∧
    (ot.handleNack n).1.pending.map SentChunk.chunk = ot.pending.map SentChunk.chunk ∧
    ∀ f ∈ (ot.handleNack n).2.1, f ∈ ot.pending.map SentChunk.chunk := by
  obtain ⟨h1, h2⟩ := charge_eq ot.retryLimit (inRange n.chunkFrom n.chunkTo) ot.pending
  simp only [handleNack, applyNack, fail]
  split_ifs
  · exact ⟨rfl, rfl, fun _ h => absurd h not_mem_nil⟩
  · split
    · exact ⟨rfl, rfl, fun _ h => absurd h not_mem_nil⟩
    · split
      · rename_i pending frames heq
        rw [heq] at h1 h2
        exact ⟨rfl, h1, h2⟩
      · rename_i pending frames chunkID heq
        rw [heq] at h1
        exact ⟨rfl, h1, fun _ h => absurd h not_mem_nil⟩
    · exact ⟨rfl, rfl, fun _ h => absurd h not_mem_nil⟩

/-- Only the state of a completed transfer completes it. -/
theorem handleState_spec (s : TransferState) : (ot.handleState s).1.pending = ot.pending ∧
    (ot.completed = true → (ot.handleState s).1.completed = true) ∧
    ((ot.handleState s).1.completed = true → ot.completed = true ∨ s.failure = none) := by
  simp only [handleState, fail]
  split
  · exact ⟨rfl, fun h => h, .inl⟩
  · rename_i hs
    split_ifs
    · exact ⟨rfl, fun h => h, .inl⟩
    · exact ⟨rfl, fun _ => rfl, fun _ => .inr hs⟩

/-- The monitor sends pending chunks again. -/
theorem expire_spec (commit : Bool) (late : ℕ → Bool) :
    (ot.expire commit late).1.completed = ot.completed ∧
    (ot.expire commit late).1.pending.map SentChunk.chunk = ot.pending.map SentChunk.chunk ∧
    ∀ f ∈ (ot.expire commit late).2.2, f ∈ ot.pending.map SentChunk.chunk := by
  obtain ⟨h1, h2⟩ := charge_eq ot.retryLimit (fun c => late c.chunkID) ot.pending
  simp only [expire, fail]
  split
  · exact ⟨rfl, rfl, fun _ h => absurd h not_mem_nil⟩
  · split
    · exact ⟨rfl, rfl, fun _ h => absurd h not_mem_nil⟩
    · split
      · rename_i pending frames heq
        rw [heq] at h1 h2
        exact ⟨rfl, h1, h2⟩
      · rename_i pending frames chunkID heq
        rw [heq] at h1 h2
        exact ⟨rfl, h1, h2⟩

/-- The end is sent again only after it was sent. -/
theorem expire_unsent (commit : Bool) (late : ℕ → Bool) (h : ot.doneSending = false) :
    (ot.expire commit late).1.doneSending = false ∧ (ot.expire commit late).2.1 = false := by
  simp only [expire, h, Bool.false_and, Bool.or_false, Bool.false_eq_true, if_false]
  split
  · exact ⟨h, rfl⟩
  · split <;> exact ⟨rfl, rfl⟩

end OutgoingTransfer

end Etp.Transfer
