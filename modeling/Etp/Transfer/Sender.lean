import Etp.Transfer.Outgoing

/-!
# The sender of a transfer

Three goroutines of the sending session share the record of an outgoing
transfer. The one that was launched for it sends its announcement, its chunks
and its end, and waits for the commit (`sendTransfer`, `sendTransferBody`,
`sendReliableChunk`, `waitOutgoingAcked`); the reader handles the answers of the
receiver and sends refused chunks again; the monitor sends late chunks, and a
late end, again.

`Sender` is their state and `Sender.Step` one indivisible step of one of them.
`sendReliableChunk` appends the chunk to the pending ones first and encodes its
frame afterwards, from the buffer of the chunk. An acknowledgement in between
gives that buffer back to the pool, so that the frame may then carry anything of
the same length. The frames sent again are copied under the lock.

Whatever ends a transfer early (a cancelled context, a source that fails, a
frame that cannot be sent) is one step, `giveUp`.
-/

namespace Etp.Transfer

/-- The positions of the goroutine of the transfer; `next k` before chunk `k` is
    read, `encoding k` when it is pending and not yet sent. -/
inductive Body
  | begin
  | next (k : ℕ)
  | encoding (k : ℕ)
  | sendEnd
  | waiting
  | returned (err : Option Err)
  deriving DecidableEq, Repr

/-- The positions of the reader; `stopped` when `HandleFrame` has returned an error. -/
inductive SenderReader
  | ready
  | resending (l : List Chunk)
  | stopped (e : Err)
  deriving DecidableEq, Repr

/-- What the monitor has to send again. -/
inductive Task
  | commit
  | chunk (c : Chunk)
  deriving DecidableEq, Repr

/-- The frame of a task. -/
def Task.request : Task → Request
  | .commit => .finish
  | .chunk c => .data c

/-- The sender of one transfer; `registered` while it is in `s.outgoing`. -/
structure Sender where
  ot : OutgoingTransfer
  registered : Bool := true
  body : Body := .begin
  reader : SenderReader := .ready
  monitor : List Task := []

namespace Sender

/-- Whether the monitor still sends a task. -/
def active (s : Sender) : Task → Bool
  | .commit => s.ot.failed.isNone && !s.ot.completed
  | .chunk c => s.ot.failed.isNone && s.ot.pending.any (·.chunkID == c.chunkID)

/-- The position of the reader after an answer with the error `e`. -/
def afterReply (e : Option Err) : SenderReader :=
  match e with
  | some e => .stopped e
  | none => .ready

/-- An answer of the receiver is handled. -/
def handleReply (s : Sender) (r : Reply) : Sender :=
  if !s.registered then s
  else
    match r with
    | .ack a =>
      let (ot, e) := s.ot.handleAck a
      { s with ot := ot, reader := afterReply e }
    | .nack n =>
      let (ot, frames, e) := s.ot.handleNack n
      { s with ot := ot, reader := if e = none then .resending frames else afterReply e }
    | .window b c => { s with ot := s.ot.handleWindow b c }
    | .state t =>
      let (ot, e) := s.ot.handleState t
      { s with ot := ot, reader := afterReply e }

section HandleReply

variable {s : Sender}

/-- No transfer of this number is known any more. -/
theorem handleReply_unregistered (h : ¬s.registered = true) (r : Reply) : s.handleReply r = s := by
  simp [handleReply, h]

variable (h : s.registered = true)
include h

theorem handleReply_ack (a : Ack) : s.handleReply (.ack a) =
    { s with ot := (s.ot.handleAck a).1, reader := afterReply (s.ot.handleAck a).2 } := by
  simp [handleReply, h]

theorem handleReply_nack (n : Nack) : s.handleReply (.nack n) =
    { s with
      ot := (s.ot.handleNack n).1
      reader := if (s.ot.handleNack n).2.2 = none then .resending (s.ot.handleNack n).2.1
        else afterReply (s.ot.handleNack n).2.2 } := by
  simp [handleReply, h]

theorem handleReply_window (b c : ℕ) : s.handleReply (.window b c) =
    { s with ot := s.ot.handleWindow b c } := by
  simp [handleReply, h]

theorem handleReply_state (t : TransferState) : s.handleReply (.state t) =
    { s with ot := (s.ot.handleState t).1, reader := afterReply (s.ot.handleState t).2 } := by
  simp [handleReply, h]

end HandleReply

theorem body_handleReply (s : Sender) (r : Reply) : (s.handleReply r).body = s.body := by
  simp only [handleReply]
  split
  · rfl
  · cases r <;> rfl

/-- The tick of the monitor. -/
def tick (s : Sender) (commit : Bool) (late : ℕ → Bool) : Sender :=
  let (ot, due, frames) := s.ot.expire commit late
  { s with ot := ot, monitor := (if due then [.commit] else []) ++ frames.map .chunk }

/-- What a step has to do with the session's other end. -/
inductive Label
  | send (f : Request)
  | receive (r : Reply)
  | internal
  deriving DecidableEq, Repr

/-- One step of the sender of `D`, announced as `m`. -/
inductive Step (m : TransferBegin) (D : Bytes) : Sender → Label → Sender → Prop
  | begin (s : Sender) : s.body = .begin → m.sendable = true →
      Step m D s (.send (.begin m)) { s with body := .next 0 }
  | push (s : Sender) (k : ℕ) : s.body = .next k → m.offset k < m.totalSize →
      s.ot.failed = none → s.ot.blocked (m.chunk D k).length = false →
      Step m D s .internal { s with ot := s.ot.push k (m.chunk D k), body := .encoding k }
  | encode (s : Sender) (k : ℕ) (payload : Bytes) : s.body = .encoding k →
      payload.length = (m.chunk D k).length →
      ((∃ c ∈ s.ot.pending, c.chunkID = k) → payload = m.chunk D k) →
      Step m D s (.send (.data ⟨k, payload, true⟩)) { s with body := .next (k + 1) }
  | finish (s : Sender) (k : ℕ) : s.body = .next k → m.totalSize ≤ m.offset k →
      Step m D s .internal { s with ot := { s.ot with doneSending := true }, body := .sendEnd }
  | sendEnd (s : Sender) : s.body = .sendEnd →
      Step m D s (.send .finish) { s with body := .waiting }
  | acked (s : Sender) : s.body = .waiting →
      s.ot.failed.isSome = true ∨ (s.ot.pending = [] ∧ s.ot.completed = true) →
      Step m D s .internal { s with body := .returned s.ot.failed }
  | giveUp (s : Sender) (e : Err) : (∀ err, s.body ≠ .returned err) →
      Step m D s .internal { s with body := .returned (some e) }
  | unregister (s : Sender) (err : Option Err) : s.body = .returned err →
      Step m D s .internal { s with registered := false }
  | reply (s : Sender) (r : Reply) : s.reader = .ready →
      Step m D s (.receive r) (s.handleReply r)
  | resend (s : Sender) (c : Chunk) (rest : List Chunk) : s.reader = .resending (c :: rest) →
      Step m D s (.send (.data c)) { s with reader := .resending rest }
  | resent (s : Sender) : s.reader = .resending [] →
      Step m D s .internal { s with reader := .ready }
  | tick (s : Sender) (commit : Bool) (late : ℕ → Bool) : s.registered = true → s.monitor = [] →
      Step m D s .internal (s.tick commit late)
  | task (s : Sender) (t : Task) (rest : List Task) : s.monitor = t :: rest → s.active t = true →
      Step m D s (.send t.request) { s with monitor := rest }
  | skip (s : Sender) (t : Task) (rest : List Task) : s.monitor = t :: rest →
      s.active t = false → Step m D s .internal { s with monitor := rest }
  | fail (s : Sender) (e : Err) : Step m D s .internal { s with ot := s.ot.fail e }

end Sender

end Etp.Transfer
