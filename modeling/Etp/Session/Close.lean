import Etp.Session.Gate
import Etp.Writer
import Etp.Lib.Run

/-!
# The close protocol

A session is closed by `CloseWith`: it moves the state to `Closing`, empties
the send queue (`beginClosing`), sends `FrameClose`, waits for `FrameCloseAck`,
and, if the peer is closing too, for the peer's close to be acknowledged; then
it closes the writer and the transport. The peer's reader answers `FrameClose`
by `beginPeerClose` and a goroutine `finishPeerClose`, which sends
`FrameCloseAck` and closes the session, unless its own `CloseWith` does that.

Two sessions are connected by lossless first-in first-out transports. Each
`Side` has four threads: the caller of `CloseWith`, the reader (`Run` with
`HandleFrame`), `finishPeerClose`, and the writer of the send queue; any
goroutine may send further frames. `Move` is one indivisible step of one of
them, and `Step` an interleaving of the moves of both sides. Writing an item
and signalling the sender who waits for it are one move, as the sender reads
the signal in a move of its own.

Timers do not fire: neither the timeouts of the calls nor the tickers of the
heartbeat and the authentication. The rate limit and the handlers of frames are not
part of this module: a frame may exceed the limit, and any frame of the kinds that an
established session accepts (`ordinary`) may be handled with an error (`Thread.fault`).
-/

namespace Etp.Close

open SessionWriter

/-- The size of a frame with a close message. -/
def closeFrameSize : ℕ := headerSize + 12

/-- The configuration of a side. Its send queue takes a close frame. -/
structure Config where
  role : Role
  authRequired : Bool := false
  sendQueue : SendQueueConfig := {}
  fits : sendQueue.maxBytes = 0 ∨ closeFrameSize ≤ sendQueue.maxBytes := by decide

/-- A frame of the control channel with critical priority; the frames of the
    close protocol have the same size. -/
def controlItem (t : FrameType) (size : ℕ := closeFrameSize) : SendItem FrameType where
  priority := .critical
  channel := .control
  data := t
  size := size

/-- The frames an established session handles, apart from those that close it. -/
def ordinary : FrameType → Bool
  | .data | .ack | .nack | .ping | .pong | .window | .cancel | .cancelAck | .transferBegin
  | .transferEnd | .transferState | .transferResume | .request | .response | .error => true
  | _ => false

/-! ## The threads of a side -/

/-- The positions of `CloseWith`; `idle` when it is not called. The last moves
    are the same after an acknowledged close and after a failed one whose peer
    was answered; only the former looks at the result of closing the transport. -/
inductive Closer
  | idle
  | start
  | closing
  | send
  | waitSent
  | sendFailed
  | waitFailed
  | sendErr
  | waitAck
  | checkPeer
  | waitPeer
  | peerErr
  | peerErrClose
  | closeWriter (acked : Bool)
  | setClosed (acked : Bool)
  | closeTransport (acked : Bool)
  | closeErr
  | returned (ok : Bool)
  deriving DecidableEq, Repr

/-- The positions of `finishPeerClose`, with its argument `closeCollision`. -/
inductive Finisher
  | idle
  | send (collision : Bool)
  | waitSent (collision : Bool)
  | failed
  | failedClose
  | closeWriter
  | setClosed
  | closeTransport
  | finished
  deriving DecidableEq, Repr

/-- The positions of `Run`: reading, a failed read (`readErr`, `lost`,
    `lostState`), `HandleFrame` from its gates on, and the two ways in which it
    returns (`handled`; `failing`, `failingState`, `failingClose`). -/
inductive Reader
  | read
  | readErr
  | lost
  | lostState
  | got (t : FrameType)
  | authGate (t : FrameType)
  | stateGate (t : FrameType)
  | rejecting
  | erring
  | handle (t : FrameType)
  | begin
  | spawn (collision : Bool)
  | acked
  | handled
  | failing
  | failingState
  | failingClose
  | returned (ok : Bool)
  deriving DecidableEq, Repr

/-- One of the two sessions. `closeDone` and `ackDone` are the channels on which the writer reports
    the close frame and its acknowledgement, `closeAck` and `peerCloseDone` those of the session.
    `inbox` holds the frames the peer has written and this side has not read; `budget` bounds the
    ordinary frames it still sends. The last three fields record that this side has enqueued its
    close, enqueued its acknowledgement, and received the peer's. -/
structure Side where
  cfg : Config
  state : SessionState := .established
  peerCloseSeen : Bool := false
  writer : SessionWriter FrameType := {}
  closer : Closer := .idle
  closeDone : Option Bool := none
  finisher : Finisher := .idle
  ackDone : Option Bool := none
  closeAck : Bool := false
  peerCloseDone : Option Bool := none
  reader : Reader := .read
  tClosed : Bool := false
  inbox : List FrameType := []
  budget : ℕ := 0
  closeSent : Bool := false
  ackSent : Bool := false
  ackGot : Bool := false

namespace Side

/-- The result of a sent frame reaches the goroutine that waits for it. -/
def signal (x : Side) (t : FrameType) (ok : Bool) : Side :=
  match t with
  | .close => { x with closeDone := some ok }
  | .closeAck => { x with ackDone := some ok }
  | _ => x

/-- The writer drops its queue and becomes `w`; who waits for an item is told. -/
def dropQueue (x : Side) (w : SessionWriter FrameType) : Side :=
  { (x.writer.queue .critical).foldl (fun x i => x.signal i.data false) x with writer := w }

/-- `writer.close`, where there is a writer. -/
def closeWriter (x : Side) : Side :=
  if x.cfg.sendQueue.enabled then x.dropQueue x.writer.close else x

/-- `writer.beginClosing`, where there is a writer. -/
def beginClosing (x : Side) : Side :=
  if x.cfg.sendQueue.enabled then x.dropQueue x.writer.beginClosing else x

/-- A write has failed: the writer closes, and `handleWriterFailure` fails a
    session that is not being closed. -/
def failWriter (x : Side) (item : SendItem FrameType) (e : Err) : Side :=
  let x := (x.signal item.data false).dropQueue (x.writer.writeFailed e)
  match x.state with
  | .closing | .closed | .authRejected => x
  | _ => { x with state := .failed, tClosed := true }

/-- The next move of `CloseWith`, where it is not one of sending. -/
def closerStep (x : Side) : Option Side :=
  match x.closer with
  | .start =>
    match x.state with
    | .closed | .closing | .draining => some { x with closer := .returned true }
    | _ => some { x with closer := .closing, state := .closing }
  | .closing => some { x.beginClosing with closer := .send }
  | .waitSent =>
    match x.closeDone with
    | some ok => some { x with closer := if ok then .waitAck else .sendFailed }
    | none => none
  | .sendFailed => some { x with closer := if x.peerCloseSeen then .waitFailed else .sendErr }
  | .waitFailed =>
    match x.peerCloseDone with
    | some ok => some { x with peerCloseDone := none,
                               closer := if ok then .closeWriter false else .sendErr }
    | none => none
  | .sendErr => some { x with state := .failed, closer := .returned false }
  | .waitAck =>
    if x.closeAck then some { x with closeAck := false, closer := .checkPeer } else none
  | .checkPeer =>
    some { x with closer := if x.peerCloseSeen then .waitPeer else .closeWriter true }
  | .waitPeer =>
    match x.peerCloseDone with
    | some ok => some { x with peerCloseDone := none,
                               closer := if ok then .closeWriter true else .peerErr }
    | none => none
  | .peerErr => some { x with state := .failed, closer := .peerErrClose }
  | .peerErrClose => some { x with tClosed := true, closer := .returned false }
  | .closeWriter acked => some { x.closeWriter with closer := .setClosed acked }
  | .setClosed acked => some { x with state := .closed, closer := .closeTransport acked }
  | .closeTransport _ => some { x with tClosed := true, closer := .returned true }
  | .closeErr => some { x with state := .failed, closer := .returned false }
  | _ => none

/-- The next move of `finishPeerClose`, where it is not one of sending. -/
def finisherStep (x : Side) : Option Side :=
  match x.finisher with
  | .waitSent collision =>
    match x.ackDone with
    | some true => some { x with peerCloseDone := some true,
                                 finisher := if collision then .finished else .closeWriter }
    | some false => some { x with peerCloseDone := some false, finisher := .failed }
    | none => none
  | .failed => some { x with state := .failed, finisher := .failedClose }
  | .failedClose => some { x with tClosed := true, finisher := .finished }
  | .closeWriter => some { x.closeWriter with finisher := .setClosed }
  | .setClosed => some { x with state := .closed, finisher := .closeTransport }
  | .closeTransport => some { x with tClosed := true, finisher := .finished }
  | _ => none

/-- `beginPeerClose` for an immediate close. -/
def beginPeerClose (x : Side) : Side :=
  match x.state with
  | .closing => { x with reader := .spawn true }
  | .draining => { x with state := .closing, reader := .spawn true }
  | .closed => { x with reader := .spawn false }
  | _ => { x with state := .closing, reader := .spawn false }

/-- The gate of `HandleFrame` on the authentication. The frames of the authentication are dispatched
    before it, and refused by any session that is past it. -/
def authGate (x : Side) (t : FrameType) : Reader :=
  match t with
  | .auth | .authAccept | .authReject => .failing
  | t => if (ensureAuthenticatedFor x.cfg.authRequired x.state t).toBool then .stateGate t
    else .rejecting

/-- The gate of `HandleFrame` on the state, and its dispatch. -/
def stateGate (x : Side) (t : FrameType) : Side :=
  if stateAdmits x.cfg.role x.state t then
    match t with
    | .close =>
      if x.peerCloseSeen then { x with reader := .handled }
      else { x with peerCloseSeen := true, reader := .begin }
    | .closeAck => { x with reader := .acked }
    | t => { x with reader := .handle t }
  else { x with reader := .erring }

/-- The next move of the reader, where it is not one of reading or sending. -/
def readerStep (x : Side) : Option Side :=
  match x.reader with
  | .readErr =>
    match x.state with
    | .closed | .closing => some { x with reader := .returned true }
    | _ => some { x with reader := .lost }
  | .lost => some { x.closeWriter with reader := .lostState }
  | .lostState =>
    match x.state with
    | .closed | .authRejected => some { x with reader := .returned false }
    | _ => some { x with state := .failed, reader := .returned false }
  | .got t =>
    if x.state = .closed then some { x with reader := .returned true }
    else some { x with reader := .authGate t }
  | .authGate t => some { x with reader := x.authGate t }
  | .stateGate t => some (x.stateGate t)
  | .handle _ => some { x with reader := .handled }
  | .begin => some x.beginPeerClose
  | .spawn collision => some { x with finisher := .send collision, reader := .handled }
  | .acked => some { x with closeAck := true, ackGot := true, reader := .handled }
  | .handled =>
    if x.state = .closed then some { x with reader := .returned true }
    else some { x with reader := .read }
  | .failing => some { x.closeWriter with reader := .failingState }
  | .failingState =>
    match x.state with
    | .authRejected => some { x with reader := .failingClose }
    | _ => some { x with state := .failed, reader := .failingClose }
  | .failingClose => some { x with tClosed := true, reader := .returned false }
  | _ => none

end Side

/-! ## The moves -/

/-- Sending an item from `x` to `y`: it is enqueued, or refused by a queue that is
    closing or closed. Without a send queue it goes to the transport, which may
    fail once it is closed at one end. -/
inductive Sends (item : SendItem FrameType) : Side → Side → Side → Side → Bool → Prop
  | queued (x y : Side) (w : SessionWriter FrameType) : x.cfg.sendQueue.enabled = true →
      enqueue x.cfg.sendQueue x.writer item = .queued w →
      Sends item x y { x with writer := w } y true
  | refused (x y : Side) (e : Err) : x.cfg.sendQueue.enabled = true →
      enqueue x.cfg.sendQueue x.writer item = .refused e → Sends item x y x y false
  | direct (x y : Side) : x.cfg.sendQueue.enabled = false → x.tClosed = false →
      Sends item x y (x.signal item.data true) { y with inbox := y.inbox ++ [item.data] } true
  | directFails (x y : Side) : x.cfg.sendQueue.enabled = false →
      x.tClosed = true ∨ y.tClosed = true → Sends item x y x y false

/-- Who makes a move. The reader meets an error of a handler or of the rate limit by a move of its
    own. -/
inductive Thread
  | closer
  | finisher
  | reader
  | fault
  | writer
  | app
  deriving DecidableEq, Repr

/-- A move of a thread of `x`, whose peer is `y`. -/
inductive Move : Thread → Side → Side → Side → Side → Prop
  | closer (x y x' : Side) : x.closerStep = some x' → Move .closer x y x' y
  | sendClose (x y x' y' : Side) (ok : Bool) : x.closer = .send →
      Sends (controlItem .close) x y x' y' ok →
      Move .closer x y
        { x' with closer := if ok then .waitSent else .sendFailed, closeSent := ok } y'
  | closeFails (x y : Side) : x.closer = .closeTransport true → x.tClosed = true →
      Move .closer x y { x with closer := .closeErr } y
  | finisher (x y x' : Side) : x.finisherStep = some x' → Move .finisher x y x' y
  | sendAck (x y x' y' : Side) (collision : Bool) : x.finisher = .send collision →
      Sends (controlItem .closeAck) x y x' y' true →
      Move .finisher x y { x' with finisher := .waitSent collision, ackSent := true } y'
  | ackRefused (x y x' y' : Side) (collision : Bool) : x.finisher = .send collision →
      Sends (controlItem .closeAck) x y x' y' false →
      Move .finisher x y { x' with peerCloseDone := some false, finisher := .failed } y'
  | read (x y : Side) (t : FrameType) (rest : List FrameType) : x.reader = .read →
      x.tClosed = false → x.inbox = t :: rest →
      Move .reader x y { x with inbox := rest, reader := .got t } y
  | readFails (x y : Side) : x.reader = .read →
      x.tClosed = true ∨ (x.inbox = [] ∧ y.tClosed = true) →
      Move .reader x y { x with reader := .readErr } y
  | reader (x y x' : Side) : x.readerStep = some x' → Move .reader x y x' y
  | rejectAuth (x y x' y' : Side) (size : ℕ) (ok : Bool) : x.reader = .rejecting →
      Sends (controlItem .authReject size) x y x' y' ok →
      Move .reader x y
        { x' with reader := .failing, state := if ok then .authRejected else x'.state } y'
  | sendError (x y x' y' : Side) (size : ℕ) (ok : Bool) : x.reader = .erring →
      Sends (controlItem .error size) x y x' y' ok →
      Move .reader x y { x' with reader := .failing } y'
  | replyRefused (x y x' y' : Side) (t : FrameType) (item : SendItem FrameType) :
      x.reader = .handle t → ordinary item.data = true → Sends item x y x' y' false →
      Move .reader x y { x' with reader := .failing } y'
  | rateLimited (x y : Side) (t : FrameType) : x.reader = .got t → x.state ≠ .closed →
      Move .fault x y { x with reader := .erring } y
  | handlerFails (x y : Side) (t : FrameType) : x.reader = .handle t →
      Move .fault x y { x with reader := .failing } y
  | fatalError (x y : Side) : x.reader = .handle .error →
      Move .fault x y { x with state := .failed, reader := .failing } y
  | pop (x y : Side) (item : SendItem FrameType) (w : SessionWriter FrameType) :
      x.writer.inFlight = none → x.writer.popLocked = (some item, w) →
      Move .writer x y { x with writer := { w with inFlight := some item } } y
  | write (x y : Side) (item : SendItem FrameType) : x.writer.inFlight = some item →
      x.tClosed = false →
      Move .writer x y { x.signal item.data true with writer := { x.writer with inFlight := none } }
        { y with inbox := y.inbox ++ [item.data] }
  | writeFails (x y : Side) (item : SendItem FrameType) (e : Err) :
      x.writer.inFlight = some item → x.tClosed = true ∨ y.tClosed = true →
      Move .writer x y (x.failWriter item e) y
  | app (x y x' y' : Side) (item : SendItem FrameType) (n : ℕ) (ok : Bool) : x.budget = n + 1 →
      ordinary item.data = true → Sends item x y x' y' ok →
      Move .app x y { x' with budget := n } y'

/-- The two sessions. -/
structure Sys where
  a : Side
  b : Side

/-- One step of the system: a move of either side that meets the condition `G`,
    which looks at the side before the move and at the thread that moves. -/
inductive Step (G : Thread → Side → Prop) : Sys → Sys → Prop
  | left (s : Sys) (th : Thread) (a' b' : Side) : Move th s.a s.b a' b' → G th s.a →
      Step G s ⟨a', b'⟩
  | right (s : Sys) (th : Thread) (a' b' : Side) : Move th s.b s.a b' a' → G th s.b →
      Step G s ⟨a', b'⟩

/-- No condition. -/
def free (_ : Thread) (_ : Side) : Prop := True

/-! ## The condition -/

/-- An orderly move.

    * `beginPeerClose` does not run while the `CloseWith` of its own session is
      between moving the state and enqueueing its close frame;
    * frames other than `FrameClose` and `FrameCloseAck` are only judged while
      the session is established, and `CloseWith` does not move the state while
      such a frame is being handled;
    * `FrameCloseAck` is only judged where no authentication is required;
    * no frame exceeds the rate limit, and no handler has an error. -/
def orderly : Thread → Side → Prop
  | .closer, x => x.closer = .start → ∀ t, x.reader ≠ .handle t
  | .reader, x =>
    match x.reader with
    | .begin => x.closer ≠ .closing ∧ x.closer ≠ .send
    | .authGate .closeAck => x.cfg.authRequired = false
    | .authGate .close | .stateGate .close | .stateGate .closeAck => True
    | .authGate _ | .stateGate _ => x.state = .established
    | _ => True
  | .fault, _ => False
  | _, _ => True

end Etp.Close
