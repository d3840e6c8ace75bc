import Etp.Transfer.ReceiverSteps
import Etp.Transfer.Sender
import Mathlib.Logic.Relation

/-!
# A transfer between two sessions

The sender and the receiver of a transfer, and the frames between them. All
frames of a transfer have the priority and the channel of their direction
(`PriorityLow` on the bulk channel towards the receiver, `PriorityHigh` on the
control channel back), so that each direction is a queue, from the call that
sends a frame to the one that handles it.

A transfer is opened by a goroutine of its own, so that the receiving session
may handle its chunks before its announcement has led to anything: it answers
them as those of an unknown transfer (`early`).

`Link.Step` is one step of one of the two sessions. What else happens to the
receiving session (it is closed, its peer cancels the transfer, its context is
cancelled) comes from outside at any time.
-/

namespace Etp.Transfer

/-- A transfer between two sessions; `down` are the frames on their way to the receiver, `up` those
    on their way back, and `answers` all that were ever sent back. `deaf` says that the receiving
    session has stopped before it knew the transfer. -/
structure Link where
  snd : Sender
  rcv : Option Receiver := none
  opening : Option TransferBegin := none
  early : List Reply := []
  deaf : Bool := false
  down : List Request := []
  up : List Reply := []
  answers : List Reply := []

namespace Link

/-- An answer is sent back. -/
def answer (l : Link) (reply : Reply) : Link :=
  { l with up := l.up ++ [reply], answers := l.answers ++ [reply] }

/-- The answer to a frame of a transfer that is not open. -/
def unknown : Request → Reply
  | .data c =>
    .nack ⟨c.chunkID, c.chunkID, if c.payload = [] then .invalidChunk else .transferUnknown⟩
  | _ => .nack ⟨0, 0, .transferUnknown⟩

/-- The receiver of a transfer that was opened, with the answers still to be sent. -/
def opened (maxInFlightChunks : ℤ) (m : TransferBegin) (early : List Reply) : Receiver where
  tr := newIncomingTransfer maxInFlightChunks m
  reader := if early = [] then .ready else .replying early

/-- What happens to the receiver from outside. -/
inductive Outside : Receiver → Receiver → Prop
  | unlist (r : Receiver) : Outside r { r with listed := false }
  | stop (r : Receiver) (e : Err) : Outside r { r with tr := r.tr.stop e }
  | suspend (r : Receiver) (e : Err) : Outside r { r with tr := r.tr.suspend e }
  | cancel (r : Receiver) : Outside r { r with sessionDone := true }

/-- One step of the two sessions, for the byte string `D` announced as `m`. -/
inductive Step (H : Bytes → Bytes) (m : TransferBegin) (D : Bytes) : Link → Link → Prop
  | sender (l : Link) (s : Sender) : Sender.Step m D l.snd .internal s →
      Step H m D l { l with snd := s }
  | request (l : Link) (s : Sender) (f : Request) : Sender.Step m D l.snd (.send f) s →
      Step H m D l { l with snd := s, down := l.down ++ [f] }
  | handled (l : Link) (s : Sender) (reply : Reply) (rest : List Reply) :
      l.up = reply :: rest → Sender.Step m D l.snd (.receive reply) s →
      Step H m D l { l with snd := s, up := rest }
  | announced (l : Link) (m' : TransferBegin) (rest : List Request) : l.down = .begin m' :: rest →
      l.rcv = none → l.opening = none → l.early = [] → l.deaf = false →
      Step H m D l { l with down := rest, opening := some m' }
  | refused (l : Link) (m' : TransferBegin) (rest : List Request) : l.down = .begin m' :: rest →
      l.rcv = none → l.early = [] → l.deaf = false →
      Step H m D l { l.answer (.nack ⟨0, 0, .protocolError⟩) with down := rest, deaf := true }
  | unknown (l : Link) (f : Request) (rest : List Request) : l.down = f :: rest →
      (∀ m', f ≠ .begin m') → l.rcv = none → l.early = [] → l.deaf = false →
      Step H m D l { l with down := rest, early := [Link.unknown f] }
  | early (l : Link) (reply : Reply) (rest : List Reply) : l.early = reply :: rest →
      Step H m D l { l.answer reply with early := rest }
  | opened (l : Link) (m' : TransferBegin) (maxInFlightChunks : ℤ) : l.opening = some m' →
      Step H m D l { l with
        opening := none
        rcv := some (opened maxInFlightChunks m' l.early)
        early := [] }
  | openFails (l : Link) (m' : TransferBegin) : l.opening = some m' →
      Step H m D l { l.answer (.nack ⟨0, 0, .writeFailed⟩) with opening := none }
  | openLost (l : Link) (m' : TransferBegin) : l.opening = some m' →
      Step H m D l { l with opening := none }
  | receiver (l : Link) (r r' : Receiver) : l.rcv = some r → Receiver.Step H r .internal r' →
      Step H m D l { l with rcv := some r' }
  | reply (l : Link) (r r' : Receiver) (reply : Reply) : l.rcv = some r →
      Receiver.Step H r (.send reply) r' → Step H m D l { l.answer reply with rcv := some r' }
  | received (l : Link) (r r' : Receiver) (f : Request) (rest : List Request) :
      l.down = f :: rest → l.rcv = some r → Receiver.Step H r (.receive f) r' →
      Step H m D l { l with rcv := some r', down := rest }
  | outside (l : Link) (r r' : Receiver) : l.rcv = some r → Outside r r' →
      Step H m D l { l with rcv := some r' }

/-- A transfer that is registered and not yet announced. -/
def start (ot : OutgoingTransfer) : Link where
  snd := { ot := ot }

section Runs

open Relation

variable {H : Bytes → Bytes} {m : TransferBegin} {D : Bytes}

/-- The transfer is announced and opened. -/
theorem run_opened (ot : OutgoingTransfer) (n : ℤ) (hm : m.sendable = true) :
    ReflTransGen (Step H m D) (start ot)
      { start ot with snd.body := .next 0, rcv := some (opened n m []) } :=
  .head (.request _ _ _ (.begin _ rfl hm)) <|
  .head (.announced _ _ _ rfl rfl rfl rfl rfl) <|
  .single (.opened _ _ n rfl)

/-- The next chunk is sent. -/
theorem run_sent {l : Link} {k : ℕ} (hbody : l.snd.body = .next k)
    (hmore : m.offset k < m.totalSize) (hfailed : l.snd.ot.failed = none)
    (hroom : l.snd.ot.blocked (m.chunk D k).length = false) :
    ReflTransGen (Step H m D) l { l with
      snd := { l.snd with ot := l.snd.ot.push k (m.chunk D k), body := .next (k + 1) }
      down := l.down ++ [.data ⟨k, m.chunk D k, true⟩] } :=
  .head (.sender _ _ (.push _ k hbody hmore hfailed hroom)) <|
  .single (.request _ _ _ (.encode _ k _ rfl rfl fun _ => rfl))

end Runs

end Link

end Etp.Transfer
