import Etp.Lib.Threads
import Etp.Session.Gate

/-!
# The machine of a session

The goroutines of one session that read or write its state, as programs over the
shared memory of the session: `Run` with `HandleFrame` and its handlers, `CloseWith`,
`finishPeerClose` and `finishPeerDrain`, the calls of the authentication and of the
hello, `SendGoAway`, the heartbeat, the timeout of the authentication, and what
follows a failed write. Every read and every store of the state is an operation of
its own, so that anything may come between a check and the store that relies on
it. The loops of `beginLocalClose` and `beginPeerClose` around a compare-and-swap
take effect at once and are one operation each.

Three things are left to others. The payloads are decoded by a `Codec`. A frame that
has passed the gates and belongs to the application or to a transfer is handled by
`Op.work`, which may call the application's handlers, add and remove transfers, and
fail; it does not touch the state. Sending a frame succeeds at most while the send
queue (or, without one, the transport) is open, and may always fail.
-/

namespace Etp.Session

open Threads

/-! ## Messages -/

def closeFlagImmediate : ℕ := 1 <<< 0
def closeFlagDrain : ℕ := 1 <<< 1

/-- Whether the flags ask for a drain. -/
def drains (flags : ℕ) : Bool := flags &&& closeFlagDrain != 0

/-- No flags mean an immediate close. -/
def closeFlags (flags : ℕ) : ℕ := if flags = 0 then closeFlagImmediate else flags

/-- Whether the flags of a close or of a goaway are valid: no unknown ones, and not
    both immediate and draining. -/
def validCloseFlags (flags : ℕ) : Bool :=
  flags < 1 <<< 4 && !(flags &&& closeFlagImmediate != 0 && drains flags)

def errorProtocolViolation : ℕ := 1
def errorUnauthorized : ℕ := 2
def errorUnsupportedFeature : ℕ := 3
def errorBadState : ℕ := 5
def errorRateLimited : ℕ := 6

def authRejectUnauthorized : ℕ := 401
def authRejectTimeout : ℕ := 408
def authRejectTooLarge : ℕ := 413
def authRejectProtocol : ℕ := 440

def closeDrainTimeout : ℕ := 5

/-- The message of `FrameClose` and `FrameCloseAck`. -/
structure CloseMessage where
  reasonCode : ℕ := 0
  flags : ℕ := 0
  drainTimeoutMillis : ℕ := 0
  deriving DecidableEq, Repr

/-- The message of `FrameHello` and `FrameHelloAck`. -/
structure Hello where
  role : String
  capabilities : ℕ
  maxFrameBytes : ℕ
  maxChunkSize : ℕ
  maxTransferBytes : ℕ
  maxInFlightChunks : ℕ
  heartbeatMillis : ℕ
  deriving DecidableEq, Repr

/-- What a session reads of a `FrameError`. -/
structure ErrorMessage where
  code : ℕ
  message : String
  deriving DecidableEq, Repr

/-- The decoders of the payloads, up to what a session reads of them: of a goaway
    its flags, of a rejection its status, reason and message. -/
structure Codec where
  hello : Bytes → Except Err Hello
  error : Bytes → Except Err ErrorMessage
  goAway : Bytes → Except Err ℕ
  close : Bytes → Except Err CloseMessage
  auth : Bytes → Except Err Bytes
  authAccept : Bytes → Except Err String
  authReject : Bytes → Except Err (ℕ × ℕ × String)
  deriving Inhabited

/-- The frames a session sends: its own, and those of the application and of
    transfers by their type. -/
inductive Out
  | hello
  | helloAck
  | auth
  | authAccept
  | authReject (status reason : ℕ) (message : String)
  | error (code : ℕ) (about : FrameType) (message : Err)
  | ping
  | pong
  | goAway (flags : ℕ)
  | close (m : CloseMessage)
  | closeAck (m : CloseMessage)
  | app (t : FrameType)
  deriving DecidableEq, Repr

/-- The frames of critical priority on the control channel. -/
def Out.control : Out → Bool
  | .app _ => false
  | _ => true

/-- The calls of the application. -/
inductive AppCall
  | text
  | request
  | response
  | transfer
  | resume
  deriving DecidableEq, Repr

/-- The call a frame leads to. -/
def appCall : FrameType → Option AppCall
  | .data => some .text
  | .request => some .request
  | .response => some .response
  | .transferBegin => some .transfer
  | .transferResume => some .resume
  | _ => none

/-- What comes of a call of the authentication handler. -/
inductive Verdict
  | accepted (userID : String)
  | rejected (code : ℕ) (reason : String)
  | failed (e : Err)
  | timeout (e : Err)
  deriving DecidableEq, Repr

/-- Whether the peer is accepted. -/
def Verdict.accepts : Verdict → Bool
  | .accepted _ => true
  | _ => false

/-! ## Configuration and memory -/

/-- The configuration, as normalised. -/
structure Config where
  role : Role := .server
  capabilities : ℕ := defaultCapabilities
  authRequired : Bool := false
  authHandler : Bool := true
  maxAuthPayload : ℕ := 16 <<< 10
  preHandshakeBytes : ℕ := 64 <<< 10
  maxFrameBytes : ℕ := maxFrameBytes
  sendQueue : Bool := true

/-- The memory of a session. `incoming` and `outgoing` are the transfers it has, `opening` those it
    is about to have, and `failed` those it has failed as a whole (`cleanupIncoming`,
    `failOutgoing`). The last three fields record the frames sent, the calls of the application, and
    that the authentication handler has accepted the peer. -/
structure Mem where
  state : SessionState := .new
  remoteCaps : ℕ := 0
  controlOnly : Bool := false
  writerClosed : Bool := false
  tClosed : Bool := false
  peerCloseSeen : Bool := false
  peerCloseDone : Option (Option Err) := none
  closeAck : Bool := false
  closeMu : Bool := false
  incoming : List ℕ := []
  opening : List ℕ := []
  outgoing : List ℕ := []
  failed : List ℕ := []
  sent : List Out := []
  calls : List AppCall := []
  granted : Bool := false
  deriving DecidableEq, Repr

/-- `NewSessionWithConfig`, over a transport that has negotiated capabilities or not. -/
def newSession (cfg : Config) (negotiated : Option ℕ) : Mem :=
  match negotiated with
  | some n =>
    let caps := n &&& cfg.capabilities &&& allCapabilities
    { state := if caps ≠ 0 ∧ cfg.authRequired = false then .established else .new,
      remoteCaps := caps }
  | none => {}

theorem newSession_state (cfg : Config) (negotiated : Option ℕ) :
    (newSession cfg negotiated).state = .new ∨
      (newSession cfg negotiated).state = .established := by
  cases negotiated with
  | none => exact .inl rfl
  | some n =>
    simp only [newSession]
    split
    · exact .inr rfl
    · exact .inl rfl

/-- Whether a frame can be sent. -/
def Mem.admits (cfg : Config) (m : Mem) (o : Out) : Bool :=
  if cfg.sendQueue then !m.writerClosed && (!m.controlOnly || o.control) else !m.tClosed

/-- The effect of `beginLocalClose`, and whether the caller is to close. -/
def beginLocalClose (target state : SessionState) : SessionState × Bool :=
  match state with
  | .closed | .closing | .draining => (state, false)
  | _ => (target, true)

/-- The effect of `beginPeerClose`, and whether it has met a close of this side. -/
def beginPeerClose (target state : SessionState) : SessionState × Bool :=
  match state with
  | .closing => (state, true)
  | .draining => (target, true)
  | .closed => (state, false)
  | _ => (target, false)

theorem beginLocalClose_cases (t s : SessionState) :
    ((s = .closing ∨ s = .draining ∨ s = .closed) ∧ beginLocalClose t s = (s, false)) ∨
      (s ≠ .closed ∧ beginLocalClose t s = (t, true)) := by
  cases s <;> simp [beginLocalClose]

theorem beginPeerClose_cases (t s : SessionState) :
    (s = .closing ∧ beginPeerClose t s = (s, true)) ∨
      (s = .draining ∧ beginPeerClose t s = (t, true)) ∨
      (s = .closed ∧ beginPeerClose t s = (s, false)) ∨
      (s ≠ .closing ∧ s ≠ .draining ∧ s ≠ .closed ∧ beginPeerClose t s = (t, false)) := by
  cases s <;> simp [beginPeerClose]

/-! ## Operations -/

/-- The operations of a session on its memory. The authentication looks at the state by
    an operation of its own, `lookAuth`. -/
inductive Op
  | load
  | lookAuth
  | store (state : SessionState)
  | beginLocalClose (target : SessionState)
  | beginPeerClose (target : SessionState)
  | loadCaps
  | storeRemote (h : Hello)
  | send (o : Out)
  | sendAndWait (o : Out)
  | read
  | rate (f : Frame)
  | work (f : Frame)
  | transfers
  | callAuth (request : Bytes)
  | callEstablished
  | heard
  | quiet
  | casPeerCloseSeen
  | loadPeerCloseSeen
  | lockClose
  | unlockClose
  | putCloseAck
  | awaitCloseAck
  | putPeerCloseDone (e : Option Err)
  | awaitPeerCloseDone
  | awaitDrained
  | cleanupIncoming
  | failOutgoing
  | beginClosing
  | closeWriter
  | flush
  | closeTransport
  | goFinishPeerClose (m : CloseMessage) (collision : Bool)
  | goFinishPeerDrain (m : CloseMessage) (collision : Bool)
  | again

/-- The type of the result of an operation. -/
@[reducible] def Op.Res : Op → Type
  | .load | .lookAuth => SessionState
  | .beginLocalClose _ | .beginPeerClose _ => Bool
  | .loadCaps => ℕ
  | .send _ | .sendAndWait _ | .rate _ | .work _ | .callEstablished => Option Err
  | .read => Except Err Frame
  | .callAuth _ => Verdict
  | .heard | .quiet | .casPeerCloseSeen | .loadPeerCloseSeen => Bool
  | .awaitCloseAck | .awaitDrained => Bool
  | .awaitPeerCloseDone | .flush | .closeTransport => Option Err
  | _ => Unit

/-- What an operation does. The results of reading, of limits and of calls are those
    of the environment. -/
def sem (cfg : Config) : (o : Op) → Mem → o.Res → Mem → Prop
  | .load, m, r, m' | .lookAuth, m, r, m' => r = m.state ∧ m' = m
  | .store s, m, _, m' => m' = { m with state := s }
  | .beginLocalClose t, m, r, m' =>
    r = (beginLocalClose t m.state).2 ∧ m' = { m with state := (beginLocalClose t m.state).1 }
  | .beginPeerClose t, m, r, m' =>
    r = (beginPeerClose t m.state).2 ∧ m' = { m with state := (beginPeerClose t m.state).1 }
  | .loadCaps, m, r, m' => r = m.remoteCaps ∧ m' = m
  | .storeRemote h, m, _, m' => m' = { m with remoteCaps := h.capabilities &&& cfg.capabilities }
  | .send o, m, r, m' =>
    (r = none ∧ m.admits cfg o = true ∧ m' = { m with sent := m.sent ++ [o] }) ∨
      (r ≠ none ∧ m' = m)
  | .sendAndWait o, m, r, m' =>
    (m.admits cfg o = true ∧ m' = { m with sent := m.sent ++ [o] }) ∨ (r ≠ none ∧ m' = m)
  | .work f, m, _, m' =>
    ∃ incoming opening outgoing calls,
      m' = { m with incoming := incoming, opening := opening, outgoing := outgoing,
                    calls := m.calls ++ calls } ∧
        (calls = [] ∨ ∃ a, appCall f.header.frameType = some a ∧ calls = [a])
  | .transfers, m, _, m' =>
    ∃ incoming opening outgoing,
      m' = { m with incoming := incoming, opening := opening, outgoing := outgoing }
  | .callAuth _, m, r, m' => m' = { m with granted := m.granted || Verdict.accepts r }
  | .casPeerCloseSeen, m, r, m' => r = !m.peerCloseSeen ∧ m' = { m with peerCloseSeen := true }
  | .loadPeerCloseSeen, m, r, m' => r = m.peerCloseSeen ∧ m' = m
  | .lockClose, m, _, m' => m.closeMu = false ∧ m' = { m with closeMu := true }
  | .unlockClose, m, _, m' => m' = { m with closeMu := false }
  | .putCloseAck, m, _, m' => m' = { m with closeAck := true }
  | .awaitCloseAck, m, r, m' =>
    (r = true ∧ m.closeAck = true ∧ m' = { m with closeAck := false }) ∨ (r = false ∧ m' = m)
  | .putPeerCloseDone e, m, _, m' =>
    m.peerCloseDone = none ∧ m' = { m with peerCloseDone := some e }
  | .awaitPeerCloseDone, m, r, m' =>
    (m.peerCloseDone = some r ∧ m' = { m with peerCloseDone := none }) ∨ (r ≠ none ∧ m' = m)
  | .awaitDrained, m, r, m' =>
    m' = m ∧ (r = true → m.incoming = [] ∧ m.opening = [] ∧ m.outgoing = [])
  | .cleanupIncoming, m, _, m' => m' = { m with failed := m.failed ++ m.incoming, incoming := [] }
  | .failOutgoing, m, _, m' => m' = { m with failed := m.failed ++ m.outgoing }
  | .beginClosing, m, _, m' => m' = { m with controlOnly := true }
  | .closeWriter, m, _, m' => m' = { m with writerClosed := true }
  | .closeTransport, m, _, m' => m' = { m with tClosed := true }
  | _, m, _, m' => m' = m

/-- The state after an operation. -/
def Op.after : Op → SessionState → SessionState
  | .store s, _ => s
  | .beginLocalClose t, s => (Session.beginLocalClose t s).1
  | .beginPeerClose t, s => (Session.beginPeerClose t s).1
  | _, s => s

/-- What an operation does to the state, and what it leaves alone. -/
structure Frames (o : Op) (m m' : Mem) : Prop where
  state : m'.state = o.after m.state
  remoteCaps : (∀ hello, o ≠ .storeRemote hello) → m'.remoteCaps = m.remoteCaps
  failed : o ≠ .cleanupIncoming → o ≠ .failOutgoing → m'.failed = m.failed
  calls : (∀ f, o ≠ .work f) → m'.calls = m.calls
  granted : m'.granted = false → m.granted = false
  writerClosed : m.writerClosed = true → m'.writerClosed = true

theorem sem_frames {cfg : Config} {o : Op} {m m' : Mem} {r : o.Res} (h : sem cfg o m r m') :
    Frames o m m' := by
  -- the goals are those of the fields, for each operation
  cases o <;> simp only [sem] at h <;> constructor <;> grind [Op.after]

section Frames

variable {cfg : Config} {o : Op} {m m' : Mem} {r : o.Res}

section Sem

variable (h : sem cfg o m r m')
include h

theorem sem_state : m'.state = o.after m.state := (sem_frames h).state

theorem sem_remoteCaps (ho : ∀ hello, o ≠ .storeRemote hello) :
    m'.remoteCaps = m.remoteCaps := (sem_frames h).remoteCaps ho

theorem sem_calls (ho : ∀ f, o ≠ .work f) : m'.calls = m.calls :=
  (sem_frames h).calls ho

/-- The handler accepts the peer once and for all. -/
theorem sem_granted (hm : m'.granted = false) : m.granted = false :=
  (sem_frames h).granted hm

theorem sem_writerClosed (hm : m.writerClosed = true) :
    m'.writerClosed = true := (sem_frames h).writerClosed hm

end Sem

end Frames

/-- What the environment holds ready for an operation: the frame it reads, the error
    of a failure, the verdict on an authentication, the answer of a wait or of a timer,
    and an incoming transfer. -/
structure Env where
  frame : Except Err Frame := .error "EOF"
  error : Option Err := none
  verdict : Verdict := .accepted ""
  flag : Bool := true
  transfer : Option ℕ := none

/-- An operation in an environment: its result and the memory after it, or nothing if
    it has to wait. -/
def answer (cfg : Config) (env : Env) : (o : Op) → Mem → Option (o.Res × Mem)
  | .load, m | .lookAuth, m => some (m.state, m)
  | .store s, m => some ((), { m with state := s })
  | .beginLocalClose t, m =>
    some ((beginLocalClose t m.state).2, { m with state := (beginLocalClose t m.state).1 })
  | .beginPeerClose t, m =>
    some ((beginPeerClose t m.state).2, { m with state := (beginPeerClose t m.state).1 })
  | .loadCaps, m => some (m.remoteCaps, m)
  | .storeRemote h, m => some ((), { m with remoteCaps := h.capabilities &&& cfg.capabilities })
  | .send o, m | .sendAndWait o, m =>
    match env.error with
    | some e => some (some e, m)
    | none => if m.admits cfg o = true then some (none, { m with sent := m.sent ++ [o] }) else none
  | .read, m => some (env.frame, m)
  | .work f, m =>
    some (env.error, { m with calls := m.calls ++ (appCall f.header.frameType).toList })
  | .rate _, m | .callEstablished, m | .flush, m => some (env.error, m)
  | .callAuth _, m =>
    some (env.verdict, { m with granted := m.granted || env.verdict.accepts })
  | .heard, m | .quiet, m => some (env.flag, m)
  | .casPeerCloseSeen, m => some (!m.peerCloseSeen, { m with peerCloseSeen := true })
  | .loadPeerCloseSeen, m => some (m.peerCloseSeen, m)
  | .lockClose, m => if m.closeMu = false then some ((), { m with closeMu := true }) else none
  | .unlockClose, m => some ((), { m with closeMu := false })
  | .putCloseAck, m => some ((), { m with closeAck := true })
  | .awaitCloseAck, m =>
    if env.flag = false then some (false, m)
    else if m.closeAck = true then some (true, { m with closeAck := false }) else none
  | .putPeerCloseDone e, m =>
    if m.peerCloseDone = none then some ((), { m with peerCloseDone := some e }) else none
  | .awaitPeerCloseDone, m =>
    match env.error, m.peerCloseDone with
    | some e, _ => some (some e, m)
    | none, some e => some (e, { m with peerCloseDone := none })
    | none, none => none
  | .awaitDrained, m =>
    if env.flag = false then some (false, m)
    else if m.incoming = [] ∧ m.opening = [] ∧ m.outgoing = [] then some (true, m) else none
  | .cleanupIncoming, m => some ((), { m with failed := m.failed ++ m.incoming, incoming := [] })
  | .failOutgoing, m => some ((), { m with failed := m.failed ++ m.outgoing })
  | .beginClosing, m => some ((), { m with controlOnly := true })
  | .closeWriter, m => some ((), { m with writerClosed := true })
  | .closeTransport, m => some (env.error, { m with tClosed := true })
  | .transfers, m => some ((), { m with incoming := m.incoming ++ env.transfer.toList })
  | .goFinishPeerClose _ _, m | .goFinishPeerDrain _ _, m | .again, m => some ((), m)

theorem answer_sem {cfg : Config} (env : Env) (o : Op) (m : Mem) (r : o.Res) (m' : Mem)
    (h : answer cfg env o m = some (r, m')) : sem cfg o m r m' := by
  cases o with
  | send o =>
    simp only [answer] at h
    split at h
    · cases h
      exact .inr ⟨by simp, rfl⟩
    · split at h <;> cases h
      exact .inl ⟨rfl, ‹_›, rfl⟩
  | sendAndWait o =>
    simp only [answer] at h
    split at h
    · cases h
      exact .inr ⟨by simp, rfl⟩
    · split at h <;> cases h
      exact .inl ⟨‹_›, rfl⟩
  | work f =>
    cases h
    refine ⟨m.incoming, m.opening, m.outgoing, _, rfl, ?_⟩
    cases appCall f.header.frameType with
    | none => exact .inl rfl
    | some a => exact .inr ⟨a, rfl, rfl⟩
  | transfers =>
    cases h
    exact ⟨_, m.opening, m.outgoing, rfl⟩
  | lockClose =>
    simp only [answer] at h
    split at h <;> cases h
    exact ⟨‹_›, rfl⟩
  | awaitCloseAck =>
    simp only [answer] at h
    split at h
    · cases h
      exact .inr ⟨rfl, rfl⟩
    · split at h <;> cases h
      exact .inl ⟨rfl, ‹_›, rfl⟩
  | putPeerCloseDone e =>
    simp only [answer] at h
    split at h <;> cases h
    exact ⟨‹_›, rfl⟩
  | awaitPeerCloseDone =>
    simp only [answer] at h
    split at h <;> cases h
    · exact .inr ⟨by simp, rfl⟩
    · exact .inl ⟨‹_›, rfl⟩
  | awaitDrained =>
    simp only [answer] at h
    split at h
    · cases h
      exact ⟨rfl, by simp⟩
    · split at h <;> cases h
      exact ⟨rfl, fun _ => ‹_›⟩
  | load | lookAuth | beginLocalClose | beginPeerClose | loadCaps | casPeerCloseSeen
  | loadPeerCloseSeen =>
    cases h
    exact ⟨rfl, rfl⟩
  | _ =>
    cases h
    rfl

/-- The programs of a session. -/
abbrev M := Prog Op Op.Res

/-- An operation. -/
abbrev act (o : Op) : M o.Res := Prog.perform o

/-- The operations with an error as their result. -/
def send (o : Out) : M (Option Err) := act (.send o)
def sendAndWait (o : Out) : M (Option Err) := act (.sendAndWait o)
def checkRateLimit (f : Frame) : M (Option Err) := act (.rate f)
def work (f : Frame) : M (Option Err) := act (.work f)
def callEstablished : M (Option Err) := act .callEstablished
def awaitPeerCloseDone : M (Option Err) := act .awaitPeerCloseDone
def flush : M (Option Err) := act .flush
def closeTransport : M (Option Err) := act .closeTransport

/-- `p`, and `k` if it has no error; an error is handled by `h`. -/
def ifErr {α : Type} (p : M (Option Err)) (h : Err → M α) (k : M α) : M α := do
  match ← p with
  | some e => h e
  | none => k

/-- `p`, and `k` if it has no error; an error is returned. -/
def check (p k : M (Option Err)) : M (Option Err) := ifErr p (fun e => pure (some e)) k

section Always

variable {G α : Type} {W : Monitor Op Op.Res G} {g : G} {Q : G → Option Err → Prop}

@[simp] theorem always_send {o : Out} : (send o).Always W Q g ↔
    W.ok g (.send o) ∧ ∀ r, W.may g (.send o) r → Q (W.next g (.send o) r) r := Iff.rfl

@[simp] theorem always_sendAndWait {o : Out} : (sendAndWait o).Always W Q g ↔
    W.ok g (.sendAndWait o) ∧
      ∀ r, W.may g (.sendAndWait o) r → Q (W.next g (.sendAndWait o) r) r := Iff.rfl

@[simp] theorem always_checkRateLimit {f : Frame} : (checkRateLimit f).Always W Q g ↔
    W.ok g (.rate f) ∧ ∀ r, W.may g (.rate f) r → Q (W.next g (.rate f) r) r := Iff.rfl

@[simp] theorem always_work {f : Frame} : (work f).Always W Q g ↔
    W.ok g (.work f) ∧ ∀ r, W.may g (.work f) r → Q (W.next g (.work f) r) r := Iff.rfl

@[simp] theorem always_callEstablished : callEstablished.Always W Q g ↔
    W.ok g .callEstablished ∧
      ∀ r, W.may g .callEstablished r → Q (W.next g .callEstablished r) r := Iff.rfl

@[simp] theorem always_awaitPeerCloseDone : awaitPeerCloseDone.Always W Q g ↔
    W.ok g .awaitPeerCloseDone ∧
      ∀ r, W.may g .awaitPeerCloseDone r → Q (W.next g .awaitPeerCloseDone r) r := Iff.rfl

@[simp] theorem always_flush : flush.Always W Q g ↔
    W.ok g .flush ∧ ∀ r, W.may g .flush r → Q (W.next g .flush r) r := Iff.rfl

@[simp] theorem always_closeTransport : closeTransport.Always W Q g ↔
    W.ok g .closeTransport ∧
      ∀ r, W.may g .closeTransport r → Q (W.next g .closeTransport r) r := Iff.rfl

@[simp] theorem always_ifErr {Q : G → α → Prop} {p : M (Option Err)} {h : Err → M α} {k : M α} :
    (ifErr p h k).Always W Q g ↔
      p.Always W (fun g r => (r = none → k.Always W Q g) ∧
        ∀ e, r = some e → (h e).Always W Q g) g := by
  rw [ifErr, Prog.always_bind]
  refine iff_of_eq (congrArg (fun P => p.Always W P g) (funext₂ fun g r => ?_))
  cases r <;> simp

@[simp] theorem always_check {p k : M (Option Err)} :
    (check p k).Always W Q g ↔
      p.Always W (fun g r => (r = none → k.Always W Q g) ∧ ∀ e, r = some e → Q g (some e)) g := by
  simp only [check, always_ifErr, Prog.always_pure]

end Always

section Only

variable {S : Op → Bool}

theorem only_act {o : Op} (h : S o = true) : (act o).Only S := Prog.only_perform.mpr h

end Only

end Etp.Session
