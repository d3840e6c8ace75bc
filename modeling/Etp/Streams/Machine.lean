import Etp.Wire.Frame

/-!
# Two endpoints over many streams

A connection of two `MultiStreamTransport`s. Each channel has streams of its own,
opened by either side when it first sends on the channel: the opener writes the
channel as a preface, and the peer accepts the stream and reads the preface in a
goroutine of its own. A stream carries frames both ways, and both sides run a
read loop over it that puts what it reads in the one queue `reads`.

`streamForChannel` decides for every frame which stream it goes to: one that was
accepted for the channel, or else one that was opened for it, or else a new one.

The goroutines are threads (`Thread`), a thread being at the point it has come to
in the text of `SendFrameOnChannel`, `acceptStream` or `readLoop`; a step moves
one of them (`Move`), or is one of the environment: a call, a stream that is
accepted, a frame that is read, `Close`. The streams lose nothing and keep their
order; a write may fail in the middle of a frame, and what is written after it is
then read as something else.
-/

namespace Etp.Streams

open Wire Octets Function

/-! ## Channels -/

def channelBackground : UInt16 := 4

def validChannel (channelID : UInt16) : Bool :=
  channelID ≤ channelBackground

/-- The channel in the header of a frame. -/
def channelOf (frame : Bytes) : Except Err UInt16 :=
  match decodeHeader frame with
  | .error err => .error err
  | .ok h => .ok h.channelID

/-- The two ends of the connection. -/
inductive Side
  | client
  | server
  deriving DecidableEq, Repr

def Side.peer : Side → Side
  | .client => .server
  | .server => .client

@[simp] theorem Side.peer_peer (w : Side) : w.peer.peer = w := by
  cases w <;> rfl

theorem Side.peer_ne (w : Side) : w.peer ≠ w := by
  cases w <;> decide

/-! ## Goroutines -/

/-- Where a goroutine is, with its variables. -/
inductive Thread
  /-- `SendFrameOnChannel`, first part of `streamForChannel` -/
  | look (c : UInt16) (frame : Bytes)
  /-- before `openMu` is locked -/
  | lockOpen (c : UInt16) (frame : Bytes)
  /-- with `openMu` locked, as up to `startOutgoing` -/
  | lookAgain (c : UInt16) (frame : Bytes)
  | openStream (c : UInt16) (frame : Bytes)
  | writePreface (c : UInt16) (frame : Bytes) (s : ℕ)
  | register (c : UInt16) (frame : Bytes) (s : ℕ)
  | startOutgoing (c : UInt16) (frame : Bytes) (s : ℕ)
  /-- the stream is known -/
  | send (c : UInt16) (frame : Bytes) (s : ℕ)
  /-- `acceptStream` -/
  | readPreface (s : ℕ)
  | enter (s : ℕ) (c : UInt16)
  | startIncoming (c : UInt16) (s : ℕ)
  /-- `readLoop` -/
  | read (c : UInt16) (s : ℕ)
  /-- with a frame for `reads` -/
  | hold (c : UInt16) (s : ℕ) (frame : Bytes)
  | remove (c : UInt16) (s : ℕ)
  deriving DecidableEq, Repr

/-! ## The state -/

/-- What a transport is given. -/
structure Config where
  canOpen : Bool := true
  canAccept : Bool := true
  readQueue : ℕ := 64
  prefaceLimit : ℕ := 8

/-- The two transports and the streams between them. What belongs to a transport is a function of
    its side, and what belongs to a direction of a stream one of the side that writes to it and of
    the stream. -/
structure System where
  config : Side → Config
  -- the transports
  incoming : Side → UInt16 → Option ℕ := fun _ _ => none
  outgoing : Side → UInt16 → Option ℕ := fun _ _ => none
  openMu : Side → UInt16 → Bool := fun _ _ => false
  reads : Side → List Bytes := fun _ => []
  errs : Side → Option Err := fun _ => none
  prefaces : Side → ℕ := fun _ => 0
  accepting : Side → Bool
  closed : Side → Bool := fun _ => false
  done : Side → Bool := fun _ => false
  threads : Side → List Thread := fun _ => []
  -- the streams: how many there are, who opened each and for which channel
  next : ℕ := 0
  opener : ℕ → Side := fun _ => .client
  channel : ℕ → UInt16 := fun _ => 0
  -- the preface on its way, and whether `AcceptStream` has returned the stream
  preface : ℕ → Bytes := fun _ => []
  accepted : ℕ → Bool := fun _ => false
  -- the frames on their way, whether the side has closed the stream, whether a write failed in
  -- the middle of a frame, and whether there was another one after it
  queue : Side → ℕ → List Bytes := fun _ _ => []
  shut : Side → ℕ → Bool := fun _ _ => false
  cut : Side → ℕ → Bool := fun _ _ => false
  garbled : Side → ℕ → Bool := fun _ _ => false
  -- history: the frames handed over on a channel and the stream of the last one, and the frames
  -- that came to be in `reads` and those that `ReadFrameLease` returned
  sent : Side → UInt16 → List Bytes := fun _ _ => []
  last : Side → UInt16 → Option ℕ := fun _ _ => none
  arrived : Side → List Bytes := fun _ => []
  returned : Side → List Bytes := fun _ => []

/-- A value of a side and a key is set. -/
def set {κ β : Type} [DecidableEq κ] (f : Side → κ → β) (w : Side) (k : κ) (v : β) :
    Side → κ → β :=
  fun w' k' => if w' = w ∧ k' = k then v else f w' k'

section Set

variable {κ β : Type} [DecidableEq κ] {f : Side → κ → β} {w w' : Side} {k k' : κ} {v : β}

@[simp] theorem set_same : set f w k v w k = v :=
  if_pos ⟨rfl, rfl⟩

theorem set_of_ne (h : ¬ (w' = w ∧ k' = k)) : set f w k v w' k' = f w' k' :=
  if_neg h

end Set

namespace System

variable (σ : System) (w : Side)

/-- The streams that `streamForChannel` finds for a channel, in the order of its looks. -/
def find (c : UInt16) : Option ℕ :=
  (σ.incoming w c).or (σ.outgoing w c)

/-- The deferred unlock of `openMu`. -/
def unlock (c : UInt16) : System :=
  { σ with openMu := set σ.openMu w c false }

/-- `Close` of a stream by one side. -/
def shutStream (s : ℕ) : System :=
  { σ with shut := set σ.shut w s true }

/-- `reportErr`: an error is dropped if there is one already. -/
def reportErr (err : Option Err) : System :=
  { σ with errs := update σ.errs w ((σ.errs w).or err) }

/-- The deferred end of `acceptStream`. -/
def leavePreface : System :=
  { σ with prefaces := update σ.prefaces w (σ.prefaces w - 1) }

/-- `removeStream`. -/
def removeStream (c : UInt16) (s : ℕ) : System :=
  { σ with
    incoming := if σ.incoming w c = some s then set σ.incoming w c none else σ.incoming
    outgoing := if σ.outgoing w c = some s then set σ.outgoing w c none else σ.outgoing
    shut := set σ.shut w s true }

/-- A stream is opened for a channel. -/
def addStream (c : UInt16) : System :=
  { σ with
    next := σ.next + 1
    opener := update σ.opener σ.next w
    channel := update σ.channel σ.next c }

/-- A frame is written to a stream; behind a broken one it is not read as a frame. -/
def handOver (c : UInt16) (frame : Bytes) (s : ℕ) : System :=
  { σ with
    queue := if σ.cut w s then σ.queue else set σ.queue w s (σ.queue w s ++ [frame])
    garbled := if σ.cut w s then set σ.garbled w s true else σ.garbled
    sent := set σ.sent w c (σ.sent w c ++ [frame])
    last := set σ.last w c (some s) }

/-- A frame is put in the queue of `ReadFrameLease`. -/
def push (frame : Bytes) : System :=
  { σ with
    reads := update σ.reads w (σ.reads w ++ [frame])
    arrived := update σ.arrived w (σ.arrived w ++ [frame]) }

/-- What the read loop does with a frame it has read: where it goes on, and the error. -/
def received (c : UInt16) (s : ℕ) (frame : Bytes) : Thread × Option Err :=
  match channelOf frame with
  | .error err => (.remove c s, some ("invalid etp frame: " ++ err))
  | .ok c' =>
    if c' ≠ c then
      (.remove c s, some ("invalid etp frame: frame channel " ++ toString c' ++
        " does not match stream preface " ++ toString c))
    else (.hold c s frame, none)

/-- The streams that `Close` closes: those of the two maps, and those whose preface is awaited. -/
def Owned (s : ℕ) : Prop :=
  (∃ c, σ.incoming w c = some s) ∨ (∃ c, σ.outgoing w c = some s) ∨
    Thread.readPreface s ∈ σ.threads w ∨ ∃ c, Thread.enter s c ∈ σ.threads w

end System

/-! ## Steps -/

/-- A step of a goroutine of the side `w`: from a point to the points of the goroutines that come of
    it, and what it does to the rest. -/
inductive Move (w : Side) (σ : System) : Thread → List Thread → System → Prop
  | lookClosed (c frame) : σ.closed w = true → Move w σ (.look c frame) [] σ
  | lookFound (c frame s) : σ.closed w = false → σ.find w c = some s →
      Move w σ (.look c frame) [.send c frame s] σ
  | lookStuck (c frame) : σ.closed w = false → σ.find w c = none →
      (σ.config w).canOpen = false → Move w σ (.look c frame) [] σ
  | lookNone (c frame) : σ.closed w = false → σ.find w c = none →
      (σ.config w).canOpen = true → Move w σ (.look c frame) [.lockOpen c frame] σ
  | lockOpen (c frame) : σ.openMu w c = false →
      Move w σ (.lockOpen c frame) [.lookAgain c frame]
        { σ with openMu := set σ.openMu w c true }
  | againClosed (c frame) : σ.closed w = true →
      Move w σ (.lookAgain c frame) [] (σ.unlock w c)
  | againFound (c frame s) : σ.closed w = false → σ.find w c = some s →
      Move w σ (.lookAgain c frame) [.send c frame s] (σ.unlock w c)
  | againNone (c frame) : σ.closed w = false → σ.find w c = none →
      Move w σ (.lookAgain c frame) [.openStream c frame] σ
  | openFails (c frame) : Move w σ (.openStream c frame) [] (σ.unlock w c)
  | opened (c frame) :
      Move w σ (.openStream c frame) [.writePreface c frame σ.next] (σ.addStream w c)
  | prefaceFails (c frame s) :
      Move w σ (.writePreface c frame s) [] ((σ.shutStream w s).unlock w c)
  | prefaced (c frame s) :
      Move w σ (.writePreface c frame s) [.register c frame s]
        { σ with preface := update σ.preface s (be16 c) }
  | registerClosed (c frame s) : σ.closed w = true →
      Move w σ (.register c frame s) [] ((σ.shutStream w s).unlock w c)
  | registerFound (c frame s s') : σ.closed w = false → σ.find w c = some s' →
      Move w σ (.register c frame s) [.send c frame s'] ((σ.shutStream w s).unlock w c)
  | registerNew (c frame s) : σ.closed w = false → σ.find w c = none →
      Move w σ (.register c frame s) [.startOutgoing c frame s]
        { σ with outgoing := set σ.outgoing w c (some s) }
  | outgoingClosed (c frame s) : σ.closed w = true →
      Move w σ (.startOutgoing c frame s) [.send c frame s] ((σ.shutStream w s).unlock w c)
  | outgoingStarted (c frame s) : σ.closed w = false →
      Move w σ (.startOutgoing c frame s) [.send c frame s, .read c s] (σ.unlock w c)
  | handOver (c frame s) : σ.shut w s = false →
      Move w σ (.send c frame s) [] (σ.handOver w c frame s)
  | sendFails (c frame s) (middle : Bool) :
      Move w σ (.send c frame s) [] { σ with cut := set σ.cut w s (σ.cut w s || middle) }
  | prefaceRead (s) : (σ.preface s).length = 2 → validChannel (uint16 (σ.preface s)) = true →
      Move w σ (.readPreface s) [.enter s (uint16 (σ.preface s))]
        { σ with preface := update σ.preface s [] }
  | prefaceInvalid (s) : (σ.preface s).length = 2 →
      validChannel (uint16 (σ.preface s)) = false →
      Move w σ (.readPreface s) [] (((σ.shutStream w s).reportErr w
        ("invalid etp frame: invalid multistream channel preface: " ++
          toString (uint16 (σ.preface s)))).leavePreface w)
  | prefaceLost (s) (err : Err) :
      Move w σ (.readPreface s) [] (((σ.shutStream w s).reportErr w err).leavePreface w)
  | enterClosed (s c) : σ.closed w = true →
      Move w σ (.enter s c) [] ((σ.shutStream w s).leavePreface w)
  | enterFound (s c s') : σ.closed w = false → σ.incoming w c = some s' →
      Move w σ (.enter s c) [] (((σ.shutStream w s).reportErr w
        ("invalid etp frame: duplicate incoming stream for channel " ++ toString c)).leavePreface w)
  | enterNew (s c) : σ.closed w = false → σ.incoming w c = none →
      Move w σ (.enter s c) [.startIncoming c s]
        { σ with incoming := set σ.incoming w c (some s) }
  | incomingClosed (c s) : σ.closed w = true →
      Move w σ (.startIncoming c s) [] ((σ.shutStream w s).leavePreface w)
  | incomingStarted (c s) : σ.closed w = false →
      Move w σ (.startIncoming c s) [.read c s] (σ.leavePreface w)
  | readFrame (c s frame rest) : σ.queue w.peer s = frame :: rest →
      Move w σ (.read c s) [(System.received c s frame).1]
        (System.reportErr { σ with queue := set σ.queue w.peer s rest } w
          (System.received c s frame).2)
  | readGarbled (c s frame) : σ.garbled w.peer s = true → σ.queue w.peer s = [] →
      Move w σ (.read c s) [(System.received c s frame).1]
        (σ.reportErr w (System.received c s frame).2)
  | readEnds (c s) (err : Option Err) :
      Move w σ (.read c s) [.remove c s] (σ.reportErr w err)
  | push (c s frame) : (σ.reads w).length < (σ.config w).readQueue →
      Move w σ (.hold c s frame) [.read c s] (σ.push w frame)
  | release (c s frame) : σ.done w = true → Move w σ (.hold c s frame) [.remove c s] σ
  | remove (c s) : Move w σ (.remove c s) [] (σ.removeStream w c s)

/-- The goroutines of a side. -/
def System.setThreads (σ : System) (w : Side) (ts : List Thread) : System :=
  { σ with threads := update σ.threads w ts }

/-- A step of one of the transports. -/
inductive Step (σ : System) : System → Prop
  | thread (w : Side) (pre : List Thread) (t : Thread) (post ts : List Thread) (σ' : System) :
      σ.threads w = pre ++ t :: post → Move w σ t ts σ' →
      Step σ (σ'.setThreads w (pre ++ (ts ++ post)))
  /-- `SendFrameOnChannel`, past its checks -/
  | call (w : Side) (c : UInt16) (frame : Bytes) : validChannel c = true →
      channelOf frame = .ok c → Step σ (σ.setThreads w (σ.threads w ++ [.look c frame]))
  /-- a turn of `acceptLoop` -/
  | accept (w : Side) (s : ℕ) : σ.accepting w = true → σ.closed w = false →
      σ.prefaces w < (σ.config w).prefaceLimit → s < σ.next → σ.opener s = w.peer →
      σ.accepted s = false →
      Step σ ({ σ with
        accepted := update σ.accepted s true
        prefaces := update σ.prefaces w (σ.prefaces w + 1) }.setThreads w
          (σ.threads w ++ [Thread.readPreface s]))
  | acceptClosed (w : Side) (s : ℕ) : σ.accepting w = true → σ.closed w = true → s < σ.next →
      σ.opener s = w.peer → σ.accepted s = false →
      Step σ { σ with
        accepted := update σ.accepted s true
        shut := set σ.shut w s true
        accepting := update σ.accepting w false }
  | acceptFails (w : Side) (err : Option Err) : σ.accepting w = true →
      Step σ (System.reportErr
        { σ with accepting := update σ.accepting w false } w err)
  /-- `ReadFrameLease` returns a frame -/
  | readFrameLease (w : Side) (frame : Bytes) (rest : List Bytes) : σ.reads w = frame :: rest →
      Step σ { σ with
        reads := update σ.reads w rest
        returned := update σ.returned w (σ.returned w ++ [frame]) }
  /-- `ReadFrameLease` returns an error -/
  | readErr (w : Side) : Step σ { σ with errs := update σ.errs w none }
  | cancel (w : Side) : Step σ { σ with done := update σ.done w true }
  | close (w : Side) (shut : ℕ → Bool) : (∀ s, shut s = true ↔ σ.shut w s = true ∨ σ.Owned w s) →
      Step σ { σ with
        closed := update σ.closed w true
        done := update σ.done w true
        shut := update σ.shut w shut }
  /-- the loop at the end of `Close` -/
  | drain (w : Side) (frame : Bytes) (rest : List Bytes) : σ.closed w = true →
      σ.reads w = frame :: rest → Step σ { σ with reads := update σ.reads w rest }

/-- Two new transports. -/
def start (config : Side → Config) : System where
  config := config
  accepting := fun w => (config w).canAccept

end Etp.Streams
