import Etp.Transfer.Incoming

/-!
# The receiver of a transfer

Two goroutines of the receiving session share the record of an open transfer.
The reader handles its frames one after another (`handleIncomingTransferData`,
`handleIncomingTransferEnd`); the runner takes chunks from the queue, hands them
to the writer of the application and accounts for them (`runIncomingTransfer`,
`writeIncomingChunk`). A third one closes the writer while the reader waits for
it with a timeout.

`Receiver` is their state and `Receiver.Step` one indivisible step of one of
them: a section under a lock, a call of the application's writer returning, or a
frame handed to the send queue. Every answer is computed in one step and sent in
a later one. The calls of the writer are recorded in `calls`, with what they
returned.

Sending does not fail here; the timers of the session are those of the writer's
calls, which may return anything at any time.
-/

namespace Etp.Transfer

/-- A call of the application's writer that has returned. -/
inductive Call
  | write (payload : Bytes) (n : ℕ) (err : Option Err)
  | close (err : Option Err)
  | abort
  | suspend
  deriving DecidableEq, Repr

/-- The positions of the runner. -/
inductive Runner
  | take
  | taken (c : Chunk)
  | writing (c : Chunk)
  | wrote (c : Chunk)
  | failing (c : Chunk) (e : Err)
  | nacking (c : Chunk)
  | acking (a : Ack)
  | windowing
  | finishing
  | aborting (suspend : Bool)
  | closing
  | exited
  deriving DecidableEq, Repr

/-- The runner goes on: it has neither exited, nor has its writer failed. -/
def Runner.going : Runner → Bool
  | .failing _ _ | .exited => false
  | _ => true

theorem Runner.ne_of_going {x : Runner} (h : x.going = true) :
    x ≠ .exited ∧ ∀ c e, x ≠ .failing c e := by
  refine ⟨?_, fun c e => ?_⟩ <;> rintro rfl <;> cases h

/-- The positions of the reader: `ready` for the next frame, sending answers, or
    inside `handleIncomingTransferEnd`; `stopped` when `HandleFrame` has returned
    an error, after which `Run` tears the session down. -/
inductive Reader
  | ready
  | replying (l : List Reply)
  | endClosing
  | endWaiting
  | endDone
  | endVerify
  | endCommitting
  | stopped (e : Err)
  deriving DecidableEq, Repr

/-- The goroutine that closes the writer; `late` when the reader has given up waiting for it. -/
inductive Committer
  | idle
  | closing (late : Bool)
  | closed (late : Bool) (err : Option Err)
  deriving DecidableEq, Repr

/-- The receiver of one transfer. `listed` says that it is in `s.incoming`, `remembered` is its
    entry in `s.completed`, which is `forgotten` when it has expired or made place for others, and
    `sessionDone` says that the context of the session is cancelled. -/
structure Receiver where
  tr : IncomingTransfer
  listed : Bool := true
  remembered : Option TransferState := none
  forgotten : Bool := false
  runner : Runner := .take
  reader : Reader := .ready
  committer : Committer := .idle
  sessionDone : Bool := false
  calls : List Call := []

namespace Receiver

/-! ## The reader -/

/-- The chunk of a frame is decided about. -/
def handleData (r : Receiver) (reserve : Bool) (c : Chunk) : Receiver :=
  if c.payload = [] then
    { r with reader := .replying [.nack ⟨c.chunkID, c.chunkID, .invalidChunk⟩] }
  else if !r.listed then
    { r with reader := .replying [.nack ⟨c.chunkID, c.chunkID, .transferUnknown⟩] }
  else
    match r.tr.handleData reserve c with
    | (tr, .failed e) => { r with tr := tr, reader := .stopped e }
    | (tr, .reply reply) => { r with tr := tr, reader := .replying [reply] }
    | (tr, .nothing) => { r with tr := tr }

/-- The answer to an end whose verdict was given before. -/
def verdict (r : Receiver) (chunkFrom chunkTo : ℕ) : Reply :=
  match r.remembered, r.forgotten with
  | some s, false => .state s
  | _, _ => .nack ⟨chunkFrom, chunkTo, .transferUnknown⟩

/-- The first section of `handleIncomingTransferEnd`. -/
def handleEnd (r : Receiver) : Receiver :=
  if !r.listed then { r with reader := .replying [r.verdict 0 0] }
  else if r.tr.completeInput then
    if r.tr.ending then
      { r with reader := .replying [r.verdict r.tr.firstChunk r.tr.lastChunk] }
    else { r with tr := { r.tr with ending := true }, reader := .endClosing }
  else
    let missing : Nack := ⟨r.tr.acceptedNextChunk, r.tr.metadata.chunkCount - 1, .missingChunk⟩
    { r with reader := .replying [.nack missing] }

/-- The transfer is given up with a reason; the peer is told twice. -/
def reject (r : Receiver) (reason : NackReason) : Receiver :=
  let s : TransferState := ⟨r.tr.receivedBytes, r.tr.nextChunk, some reason⟩
  { r with
    remembered := some s
    reader := .replying [.state s, .nack ⟨r.tr.firstChunk, r.tr.lastChunk, reason⟩] }

/-- The wait for the runner is given up: an error of `HandleFrame`. -/
def endWaitFails (r : Receiver) (e : Err) : Receiver :=
  { r with
    tr := r.tr.stop e
    remembered := some ⟨r.tr.receivedBytes, r.tr.nextChunk, some .writeFailed⟩
    reader := .stopped e }

/-- The check of what the runner has left. -/
def endDone (r : Receiver) : Receiver :=
  match r.tr.failed with
  | some _ => { r.reject .writeFailed with listed := false }
  | none => { r with reader := .endVerify }

/-- The check of the counters and of the checksum, with the hash function `H`. -/
def endVerify (H : Bytes → Bytes) (r : Receiver) : Receiver :=
  if (0 < r.tr.metadata.totalSize && r.tr.receivedBytes ≠ r.tr.metadata.totalSize) ||
      r.tr.hash.any (fun b => H b ≠ r.tr.metadata.checksum) then
    { r.reject .invalidChunk with listed := false, calls := r.calls ++ [.abort] }
  else { r with reader := .endCommitting, committer := .closing false }

/-- The result of closing the writer reaches the reader. -/
def endCommitted (r : Receiver) (err : Option Err) : Receiver :=
  match err with
  | some _ => { r.reject .writeFailed with listed := false, committer := .idle }
  | none =>
    let s : TransferState := ⟨r.tr.receivedBytes, r.tr.nextChunk, none⟩
    { r with
      listed := false
      remembered := some s
      committer := .idle
      reader := .replying [.state s] }

/-- The commit takes too long. -/
def endTimedOut (r : Receiver) (e : Err) : Receiver :=
  { ({ r with tr := r.tr.fail e }).reject .writeFailed with committer := .closing true }

/-! ## The runner -/

/-- A call of `Write` returns. -/
def written (r : Receiver) (c : Chunk) (n : ℕ) (err : Option Err) : Receiver :=
  { r with
    calls := r.calls ++ [.write c.payload n err]
    runner :=
      match err with
      | some e => .failing c e
      | none => if n ≠ c.payload.length then .failing c "short write" else .wrote c }

/-- The accounting for a chunk that was written. -/
def account (r : Receiver) (c : Chunk) : Receiver :=
  match r.tr.failed with
  | some _ => { r with runner := .take }
  | none =>
    let tr := r.tr.commitChunk c
    { r with tr := tr, runner := if c.ackRequest then .acking tr.snapshot else .windowing }

/-- The end of the runner: what becomes of the writer. -/
def finish (r : Receiver) : Receiver :=
  { r with runner :=
      if r.tr.failed.isSome then .aborting r.tr.suspendOnFailure else .closing }

/-! ## The steps -/

/-- What a step has to do with the session's other end. -/
inductive Label
  | receive (f : Request)
  | send (reply : Reply)
  | internal
  deriving DecidableEq, Repr

/-- One step of the receiver. -/
inductive Step (H : Bytes → Bytes) : Receiver → Label → Receiver → Prop
  | data (r : Receiver) (reserve : Bool) (c : Chunk) : r.reader = .ready →
      Step H r (.receive (.data c)) (r.handleData reserve c)
  | finish (r : Receiver) : r.reader = .ready → Step H r (.receive .finish) r.handleEnd
  | reply (r : Receiver) (reply : Reply) (rest : List Reply) :
      r.reader = .replying (reply :: rest) →
      Step H r (.send reply) { r with reader := if rest = [] then .ready else .replying rest }
  | forget (r : Receiver) : Step H r .internal { r with forgotten := true }
  | endClosing (r : Receiver) : r.reader = .endClosing →
      Step H r .internal { r with tr := r.tr.closeQueue, reader := .endWaiting }
  | endWaited (r : Receiver) : r.reader = .endWaiting → r.tr.done = true →
      Step H r .internal { r with reader := .endDone }
  | endWaitFails (r : Receiver) (e : Err) : r.reader = .endWaiting →
      r.sessionDone = true ∨ (r.tr.ctxDone = true ∧ r.tr.done = false) →
      Step H r .internal (r.endWaitFails e)
  | endDone (r : Receiver) : r.reader = .endDone → Step H r .internal r.endDone
  | endVerify (r : Receiver) : r.reader = .endVerify → Step H r .internal (r.endVerify H)
  | closed (r : Receiver) (late : Bool) (err : Option Err) : r.committer = .closing late →
      Step H r .internal
        { r with committer := .closed late err, calls := r.calls ++ [.close err] }
  | endCommitted (r : Receiver) (err : Option Err) : r.reader = .endCommitting →
      r.committer = .closed false err → Step H r .internal (r.endCommitted err)
  | endTimedOut (r : Receiver) (e : Err) : r.reader = .endCommitting →
      r.committer = .closing false → Step H r .internal (r.endTimedOut e)
  | late (r : Receiver) (err : Option Err) : r.committer = .closed true err →
      Step H r .internal
        { r with committer := .idle, listed := false, calls := r.calls ++ [.abort] }
  | take (r : Receiver) (c : Chunk) (rest : List Chunk) : r.runner = .take →
      r.tr.queue = c :: rest →
      Step H r .internal { r with tr := { r.tr with queue := rest }, runner := .taken c }
  | drained (r : Receiver) : r.runner = .take → r.tr.queue = [] → r.tr.queueClosed = true →
      Step H r .internal { r with runner := .finishing }
  | taken (r : Receiver) (c : Chunk) : r.runner = .taken c →
      Step H r .internal
        { r with runner := if r.tr.failed.isSome then .take else .writing c }
  | written (r : Receiver) (c : Chunk) (n : ℕ) (err : Option Err) : r.runner = .writing c →
      Step H r .internal (r.written c n err)
  | account (r : Receiver) (c : Chunk) : r.runner = .wrote c → Step H r .internal (r.account c)
  | ack (r : Receiver) (a : Ack) : r.runner = .acking a →
      Step H r (.send (.ack a)) { r with runner := .windowing }
  | window (r : Receiver) (windowBytes windowChunks : ℕ) : r.runner = .windowing →
      Step H r (.send (.window windowBytes windowChunks)) { r with runner := .take }
  | noWindow (r : Receiver) : r.runner = .windowing →
      Step H r .internal { r with runner := .take }
  | otherWindow (r : Receiver) (windowBytes windowChunks : ℕ) :
      Step H r (.send (.window windowBytes windowChunks)) r
  | failing (r : Receiver) (c : Chunk) (e : Err) : r.runner = .failing c e →
      Step H r .internal { r with tr := r.tr.stop e, runner := .nacking c }
  | nack (r : Receiver) (c : Chunk) : r.runner = .nacking c →
      Step H r (.send (.nack ⟨c.chunkID, c.chunkID, .writeFailed⟩)) { r with runner := .take }
  | finishing (r : Receiver) : r.runner = .finishing → Step H r .internal r.finish
  | abort (r : Receiver) : r.runner = .aborting false →
      Step H r .internal { r with calls := r.calls ++ [.abort], runner := .closing }
  | suspend (r : Receiver) : r.runner = .aborting true →
      Step H r .internal { r with calls := r.calls ++ [.suspend], runner := .closing }
  | exit (r : Receiver) : r.runner = .closing →
      Step H r .internal { r with tr := { r.tr with done := true, ctxDone := true },
                                  runner := .exited }

/-- A chunk changes at most the record, and the reader is ready for another frame, has an answer to
    send or stops. -/
theorem handleData_eq (r : Receiver) (reserve : Bool) (c : Chunk) :
    ∃ tr p, r.handleData reserve c = { r with tr := tr, reader := p } ∧
      (tr = r.tr ∨ tr = (r.tr.handleData reserve c).1) ∧
      (p = r.reader ∨ (∃ x, p = .replying [x]) ∨ ∃ e, p = .stopped e) := by
  unfold handleData
  split_ifs
  · exact ⟨_, _, rfl, .inl rfl, .inr (.inl ⟨_, rfl⟩)⟩
  · exact ⟨_, _, rfl, .inl rfl, .inr (.inl ⟨_, rfl⟩)⟩
  · split <;> rename_i heq <;> rw [heq]
    · exact ⟨_, _, rfl, .inr rfl, .inr (.inr ⟨_, rfl⟩)⟩
    · exact ⟨_, _, rfl, .inr rfl, .inr (.inl ⟨_, rfl⟩)⟩
    · exact ⟨_, _, rfl, .inr rfl, .inl rfl⟩

theorem handleData_next (r : Receiver) (reserve : Bool) (c : Chunk) :
    (r.handleData reserve c).tr.nextChunk = r.tr.nextChunk := by
  obtain ⟨tr, p, heq, rfl | rfl, -⟩ := r.handleData_eq reserve c <;> rw [heq]
  rcases r.tr.handleData_cases reserve c with heq | heq | ⟨-, -, -, -, -, -, -, heq⟩ <;> rw [heq]

end Receiver

end Etp.Transfer
