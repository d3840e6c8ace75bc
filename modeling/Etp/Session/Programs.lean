import Etp.Session.Machine
import Etp.Wire.Payload

/-!
# The programs of a session

The functions of the session as programs of its machine, in the order of their
sources: what sends and authenticates, the closing procedures, the handlers of
frames and `HandleFrame`, one turn of the loop of `Run`, and the timers. A program
of type `M (Option Err)` returns an error or none.

`lang` is the language of a session: its procedures (`Proc`) are the programs that
a goroutine or a caller of the session's interface executes from the beginning.
-/

namespace Etp.Session

open Threads

variable (cfg : Config) (codec : Codec)

/-! ## Sending -/

/-- `SendError`. -/
def sendError (code : ℕ) (f : Frame) (message : Err) : M Unit :=
  if cfg.maxFrameBytes - headerSize < message.length + 32 then pure ()
  else do
    let _ ← send (.error code f.header.frameType message)

/-- `requireRemoteCapability` and `requireCapability`. -/
def requireCap (capability : ℕ) (name : String) : M (Option Err) :=
  if cfg.capabilities &&& capability = 0 then
    pure (some ("local " ++ name ++ " support is disabled"))
  else do
    let caps ← act .loadCaps
    match requireCapability cfg.capabilities caps capability name with
    | .ok _ => pure none
    | .error e => pure (some e)

/-- The error of a check, if it has one. -/
def errOf {α : Type} : Except Err α → Option Err
  | .ok _ => none
  | .error e => some e

variable {G : Type}

@[simp] theorem always_requireCap {W : Monitor Op Op.Res G} {Q : G → Option Err → Prop} {g : G}
    {capability : ℕ} {name : String} :
    (requireCap cfg capability name).Always W Q g ↔
      (cfg.capabilities &&& capability = 0 →
        Q g (some ("local " ++ name ++ " support is disabled"))) ∧
      (cfg.capabilities &&& capability ≠ 0 → W.ok g .loadCaps ∧ ∀ caps, W.may g .loadCaps caps →
        Q (W.next g .loadCaps caps)
          (errOf (requireCapability cfg.capabilities caps capability name))) := by
  simp only [requireCap, Prog.always_ite, Prog.always_pure, Prog.perform_bind, Prog.always_op]
  refine and_congr_right fun _ => imp_congr_right fun _ => and_congr_right fun _ =>
    forall₂_congr fun caps _ => ?_
  cases requireCapability cfg.capabilities caps capability name <;> rfl

/-- `closeWriter`, where there is one. -/
def closeWriter : M Unit := if cfg.sendQueue then act .closeWriter else pure ()

@[simp] theorem always_closeWriter {W : Monitor Op Op.Res G} {Q : G → Unit → Prop} {g : G} :
    (closeWriter cfg).Always W Q g ↔
      (cfg.sendQueue = true → W.ok g .closeWriter ∧
        (W.may g .closeWriter () → Q (W.next g .closeWriter ()) ())) ∧
      (cfg.sendQueue = false → Q g ()) := by
  simp only [closeWriter, Prog.always_ite, Prog.always_pure, Bool.not_eq_true]
  refine and_congr_left' (imp_congr_right fun _ => ?_)
  exact ⟨fun h => ⟨h.1, h.2 ()⟩, fun h => ⟨h.1, fun _ => h.2⟩⟩

/-- `EnsureAuthenticatedFor`: the state is only read where it decides. -/
def ensureAuthenticated (t : FrameType) : M (Option Err) :=
  if cfg.authRequired = false then pure none
  else
    match t with
    | .auth | .authAccept | .authReject | .close => pure none
    | t => do
      let state ← act .lookAuth
      match ensureAuthenticatedFor true state t with
      | .ok _ => pure none
      | .error e => pure (some e)

/-- The types of frames for which the authentication looks at the state. -/
def gated : FrameType → Bool
  | .auth | .authAccept | .authReject | .close => false
  | _ => true

variable {t : FrameType}

theorem ensureAuthenticated_exempt {cfg : Config} (ht : gated t = false) :
    ensureAuthenticated cfg t = .ret none := by
  cases t <;> first | exact ite_self _ | cases ht

theorem ensureAuthenticated_gated {cfg : Config} (h : cfg.authRequired = true)
    (ht : gated t = true) :
    ensureAuthenticated cfg t = .op .lookAuth fun state =>
      match ensureAuthenticatedFor true state t with
      | .ok _ => .ret none
      | .error e => .ret (some e) := by
  cases t <;> first | exact if_neg (by simp [h]) | cases ht

@[simp] theorem always_ensureAuthenticated {W : Monitor Op Op.Res G} {Q : G → Option Err → Prop}
    {g : G} :
    (ensureAuthenticated cfg t).Always W Q g ↔
      (cfg.authRequired = false ∨ gated t = false → Q g none) ∧
      (cfg.authRequired = true → gated t = true → W.ok g .lookAuth ∧ ∀ s, W.may g .lookAuth s →
        Q (W.next g .lookAuth s) (errOf (ensureAuthenticatedFor true s t))) := by
  by_cases ht : gated t = false
  · simp [ensureAuthenticated_exempt ht, ht]
  by_cases h : cfg.authRequired = false
  · simp [ensureAuthenticated, h]
  simp only [Bool.not_eq_false] at ht h
  simp only [ensureAuthenticated_gated h ht, h, ht, Prog.always_op, or_self, Bool.true_eq_false,
    false_imp_iff, true_and, true_imp_iff]
  refine and_congr_right fun _ => forall₂_congr fun s _ => ?_
  cases ensureAuthenticatedFor true s t <;> rfl

/-- `established`. -/
def established : M (Option Err) := do
  act (.store .established)
  callEstablished

/-- The capability of a frame, if it needs one. -/
def requireCapOf (h : Header) : M (Option Err) :=
  if (frameCapability h).1 = 0 then pure none
  else requireCap cfg (frameCapability h).1 (frameCapability h).2

/-- `SendText`, `SendRequest`, `SendResponse` and the beginning of `sendTransfer`. -/
def sendApp (t : FrameType) : M (Option Err) := do
  let state ← act .load
  if state ≠ .established then
    return some ("sending requires an established session, current state is " ++ state.name)
  check (requireCapOf cfg { frameType := t }) do
    check (ensureAuthenticated cfg t) (send (.app t))

/-! ## Authentication and hello -/

/-- `Authenticate`. -/
def authenticate (payload : Bytes) : M (Option Err) := do
  if cfg.preHandshakeBytes - headerSize < payload.length + 12 ∨
      cfg.maxAuthPayload < payload.length then
    return some "auth payload exceeds configured pre-handshake limit"
  check (send .auth) do
    act (.store .authPending)
    return none

/-- `AcceptAuth`. -/
def acceptAuth (userID : String) : M (Option Err) := do
  if cfg.preHandshakeBytes - headerSize < userID.length + 4 then
    return some "auth user id exceeds configured pre-handshake limit"
  check (send .authAccept) do
    act (.store .authAccepted)
    return none

/-- `RejectAuth`. -/
def rejectAuth (status reason : ℕ) (message : String) : M (Option Err) := do
  if cfg.preHandshakeBytes - headerSize < message.length + 8 then
    return some "auth reject message exceeds configured pre-handshake limit"
  check (send (.authReject status reason message)) do
    act (.store .authRejected)
    return none

/-- `rejectAuthAndClose`. -/
def rejectAuthAndClose (status reason : ℕ) (message : String) : M (Option Err) :=
  check (rejectAuth cfg status reason message) do
    if cfg.sendQueue then
      check flush do
        act .closeWriter
        closeTransport
    else closeTransport

/-- `HandleAuth`. -/
def handleAuth (f : Frame) : M (Option Err) := do
  if cfg.maxAuthPayload < f.payload.length then
    return ← rejectAuthAndClose cfg authRejectTooLarge authRejectTooLarge "auth payload too large"
  match codec.auth f.payload with
  | .error e =>
    let _ ← rejectAuthAndClose cfg authRejectUnauthorized authRejectProtocol "invalid auth payload"
    return some e
  | .ok request =>
    if cfg.authHandler = false then
      if cfg.authRequired then
        return ← rejectAuthAndClose cfg authRejectUnauthorized authRejectUnauthorized
          "auth handler is not configured"
      return ← acceptAuth cfg ""
    match ← act (.callAuth request) with
    | .timeout e =>
      let _ ← rejectAuthAndClose cfg authRejectTimeout authRejectTimeout "auth timeout"
      return some e
    | .failed e =>
      let _ ← rejectAuthAndClose cfg authRejectUnauthorized authRejectUnauthorized
        "authentication failed"
      return some e
    | .rejected code reason =>
      let code := if code = 0 then authRejectUnauthorized else code
      rejectAuthAndClose cfg code code (if reason = "" then "unauthorized" else reason)
    | .accepted userID => acceptAuth cfg userID

/-- `HandleAuthAccept`. -/
def handleAuthAccept (f : Frame) : M (Option Err) := do
  match codec.authAccept f.payload with
  | .error e => return some e
  | .ok _ =>
    act (.store .authAccepted)
    return none

/-- `HandleAuthReject`: always an error. -/
def handleAuthReject (f : Frame) : M (Option Err) := do
  match codec.authReject f.payload with
  | .error e => return some e
  | .ok (status, reason, message) =>
    act (.store .authRejected)
    return some ("auth rejected: status=" ++ toString status ++ " reason=" ++ toString reason ++
      " " ++ message)

/-- `SendHello`. -/
def sendHello (role : String) : M (Option Err) := do
  if cfg.role ≠ .client then return some "hello is not allowed for role=server"
  -- the state is read twice
  if (← act .load) ≠ .new then
    if (← act .load) ≠ .authAccepted then return some "hello is not allowed in this state"
  if role ≠ "" ∧ role ≠ Role.client.name then return some ("invalid hello role: " ++ role)
  check (ensureAuthenticated cfg .hello) do
    check (send .hello) do
      act (.store .helloSent)
      return none

/-- `SendHelloAck`. -/
def sendHelloAck : M (Option Err) := do
  if cfg.role ≠ .server then return some "only server sessions can send hello ack"
  check (send .helloAck) established

/-- The check of `acceptRemoteHello`. -/
def checkRemoteHello (h : Hello) (expected : Role) : Option Err :=
  if h.role ≠ expected.name then some ("unexpected remote role " ++ h.role)
  else if h.capabilities &&& allCapabilities ≠ h.capabilities then
    some "remote advertised unknown capabilities"
  else if h.maxFrameBytes < headerSize ∨ maxFrameBytes < h.maxFrameBytes ∨ h.maxChunkSize = 0 ∨
      h.maxFrameBytes - headerSize < h.maxChunkSize ∨ h.maxTransferBytes = 0 ∨
      h.maxInFlightChunks = 0 ∨ h.heartbeatMillis = 0 then
    some "remote hello contains invalid limits"
  else none

/-- `acceptRemoteHello`. -/
def acceptRemoteHello (h : Hello) (expected : Role) : M (Option Err) :=
  check (pure (checkRemoteHello h expected)) do
    act (.storeRemote h)
    return none

/-- `HandleHello`. -/
def handleHello (f : Frame) : M (Option Err) := do
  match codec.hello f.payload with
  | .error e => return some e
  | .ok h => check (acceptRemoteHello h .client) (sendHelloAck cfg)

/-- `HandleHelloAck`. -/
def handleHelloAck (f : Frame) : M (Option Err) := do
  match codec.hello f.payload with
  | .error e => return some e
  | .ok h => check (acceptRemoteHello h .server) established

/-! ## Closing -/

/-- `waitPeerCloseDone`. -/
def waitPeerCloseDone : M (Option Err) := do
  if ← act .loadPeerCloseSeen then awaitPeerCloseDone else return none

/-- The end of `CloseWith` after the close frame could not be sent: the peer has
    closed too and was answered, or the close has failed. -/
def closeUnsent (e : Err) : M (Option Err) := do
  if ← act .loadPeerCloseSeen then
    ifErr waitPeerCloseDone (fun _ => failed) do
      closeWriter cfg
      act (.store .closed)
      let _ ← closeTransport
      return none
  else failed
where
  /-- The close has failed. -/
  failed : M (Option Err) := do
    act (.store .failed)
    return some ("send close: " ++ e)

/-- The end of `CloseWith` after the acknowledgement. -/
def closeAcked : M (Option Err) :=
  ifErr waitPeerCloseDone peerFailed do
    closeWriter cfg
    act (.store .closed)
    ifErr closeTransport transportFailed (return none)
where
  /-- The close of the peer was not answered. -/
  peerFailed (e : Err) : M (Option Err) := do
    act (.store .failed)
    let _ ← closeTransport
    return some ("send peer close ack: " ++ e)
  /-- Closing the transport has an error. -/
  transportFailed (e : Err) : M (Option Err) := do
    act (.store .failed)
    return some e

/-- A draining `CloseWith` from its close frame on. -/
def closeDraining (m : CloseMessage) : M (Option Err) :=
  ifErr (sendAndWait (.close m)) (closeUnsent cfg) do
    if ← act .awaitDrained then
      if ← act .awaitCloseAck then
        act (.store .closing)
        closeAcked cfg
      else
        act (.store .failed)
        let _ ← closeTransport
        return some "wait close ack"
    else
      act (.store .failed)
      act .failOutgoing
      let _ ← closeTransport
      return some "drain local transfers"

/-- An immediate `CloseWith` from the moment at which it has moved the state. -/
def closeImmediate (m : CloseMessage) : M (Option Err) := do
  act .cleanupIncoming
  act .failOutgoing
  if cfg.sendQueue then act .beginClosing
  ifErr (sendAndWait (.close m)) (closeUnsent cfg) do
    if ← act .awaitCloseAck then closeAcked cfg
    else
      closeWriter cfg
      act (.store .closed)
      let _ ← closeTransport
      return some "wait close ack: timeout"

/-- `CloseWith` under its mutex. -/
def closeLocked (m : CloseMessage) : M (Option Err) :=
  let m := { m with flags := closeFlags m.flags }
  if validCloseFlags m.flags = false then pure (some "invalid close flags")
  else if drains m.flags then
    check (requireCap cfg capabilityGracefulClose "graceful close") do
      if ← act (.beginLocalClose .draining) then closeDraining cfg m else return none
  else do
    if ← act (.beginLocalClose .closing) then closeImmediate cfg m else return none

/-- `CloseWith`. -/
def closeWith (m : CloseMessage) : M (Option Err) := do
  act .lockClose
  let e ← closeLocked cfg m
  act .unlockClose
  return e

/-- The end of `finishPeerClose` and `finishPeerDrain` where the acknowledgement was not sent. -/
def finishFailed (e : Err) : M (Option Err) := do
  act (.store .failed)
  let _ ← closeTransport
  return some e

/-- `finishPeerClose`. -/
def finishPeerClose (m : CloseMessage) (collision : Bool) : M (Option Err) := do
  let e ← sendAndWait (.closeAck m)
  act (.putPeerCloseDone e)
  ifErr (pure e) finishFailed do
    if collision then return none
    closeWriter cfg
    act (.store .closed)
    let _ ← closeTransport
    return none

/-- `finishPeerDrain`. -/
def finishPeerDrain (m : CloseMessage) (collision : Bool) : M (Option Err) := do
  let drained ← act .awaitDrained
  let m := if drained then m else { m with reasonCode := closeDrainTimeout }
  let e ← sendAndWait (.closeAck m)
  act (.putPeerCloseDone e)
  ifErr (pure e) finishFailed do
    if collision then return none
    closeWriter cfg
    act .cleanupIncoming
    act .failOutgoing
    act (.store .closed)
    let _ ← closeTransport
    return none

/-- `SendGoAway`. -/
def sendGoAway (flags : ℕ) (message : String) : M (Option Err) :=
  if cfg.maxFrameBytes - headerSize < message.length + 32 then
    pure (some "goaway message exceeds max frame size")
  else if validCloseFlags (closeFlags flags) = false then pure (some "invalid goaway flags")
  else if drains (closeFlags flags) then
    check (requireCap cfg capabilityGracefulClose "graceful close") (announce .draining)
  else announce .closing
where
  /-- The state is stored, and the goaway is sent. -/
  announce (target : SessionState) : M (Option Err) := do
    act (.store target)
    ifErr (sendAndWait (.goAway (closeFlags flags))) announceFailed (return none)
  /-- The goaway was not sent. -/
  announceFailed (e : Err) : M (Option Err) := do
    act (.store .failed)
    return some e

/-! ## Frames -/

/-- `handleIncomingError`. -/
def handleError (f : Frame) : M (Option Err) := do
  match codec.error f.payload with
  | .error e => return some e
  | .ok message =>
    if message.code = errorProtocolViolation ∨ message.code = errorUnauthorized then
      act (.store .failed)
      return some ("fatal remote protocol error: code=" ++ toString message.code ++ " message=" ++
        message.message)
    return none

/-- The answer to what was not negotiated. -/
def unsupported (f : Frame) (e : Err) : M (Option Err) := do
  sendError cfg errorUnsupportedFeature f e
  return some e

/-- The check of a drain. -/
def requireDrain (f : Frame) : M (Option Err) :=
  ifErr (requireCap cfg capabilityGracefulClose "graceful close") (unsupported cfg f) (return none)

/-- `handleIncomingGoAway`. -/
def handleGoAway (f : Frame) : M (Option Err) := do
  match codec.goAway f.payload with
  | .error e => return some e
  | .ok flags =>
    if drains flags then
      check (requireDrain cfg f) do
        act (.store .draining)
        return none
    else
      act .cleanupIncoming
      act (.store .closing)
      return none

/-- `handleIncomingClose`. -/
def handleClose (f : Frame) : M (Option Err) := do
  match codec.close f.payload with
  | .error e => return some e
  | .ok m =>
    if drains m.flags then
      check (requireDrain cfg f) do
        if ← act .casPeerCloseSeen then
          let collision ← act (.beginPeerClose .draining)
          act (.goFinishPeerDrain m collision)
          return none
        else return none
    else
      if ← act .casPeerCloseSeen then
        let collision ← act (.beginPeerClose .closing)
        act .cleanupIncoming
        act .failOutgoing
        act (.goFinishPeerClose m collision)
        return none
      else return none

/-- `handleIncomingCloseAck`. -/
def handleCloseAck (f : Frame) : M (Option Err) := do
  match codec.close f.payload with
  | .error e => return some e
  | .ok _ =>
    act .putCloseAck
    return none

/-- The dispatch of `HandleFrame`. -/
def dispatch (f : Frame) : M (Option Err) :=
  match f.header.frameType with
  | .hello => handleHello cfg codec f
  | .helloAck => handleHelloAck codec f
  | .ping => check (requireCap cfg capabilityHeartbeat "heartbeat") (send .pong)
  | .pong => pure none
  | .error => handleError codec f
  | .goAway => handleGoAway cfg codec f
  | .close => handleClose cfg codec f
  | .closeAck => handleCloseAck codec f
  | .unknown code => do
    sendError cfg errorProtocolViolation f "unknown frame type"
    return some ("unknown frame type: " ++ toString code)
  | _ => work f

/-- The gate of `HandleFrame` on the capability of a frame. -/
def capabilityGate (f : Frame) : M (Option Err) :=
  ifErr (requireCapOf cfg f.header) (unsupported cfg f) (dispatch cfg codec f)

/-- The gate of `HandleFrame` on the state. -/
def stateGate (f : Frame) : M (Option Err) := do
  let state ← act .load
  match ensureIncomingState cfg.role state f.header.frameType with
  | .error e =>
    sendError cfg errorBadState f e
    return some e
  | .ok _ => capabilityGate cfg codec f

/-- The gate of `HandleFrame` on the authentication. -/
def authGate (f : Frame) : M (Option Err) :=
  ifErr (ensureAuthenticated cfg f.header.frameType) unauthenticated (stateGate cfg codec f)
where
  /-- The peer has not authenticated. -/
  unauthenticated (e : Err) : M (Option Err) := do
    let _ ← rejectAuth cfg authRejectUnauthorized authRejectUnauthorized "auth required"
    return some e

/-- `FrameAuth` in `HandleFrame`. -/
def authFrame (f : Frame) : M (Option Err) := do
  if cfg.role ≠ .server then return some "auth request is not allowed in current session state"
  -- the state is read twice
  if (← act .load) ≠ .new then
    if (← act .load) ≠ .authPending then
      return some "auth request is not allowed in current session state"
  act (.store .authPending)
  handleAuth cfg codec f

/-- `FrameAuthAccept` and `FrameAuthReject` in `HandleFrame`. -/
def authAnswer (name : String) (handle : M (Option Err)) : M (Option Err) := do
  if cfg.role ≠ .client then
    return some ("auth " ++ name ++ " is not allowed in current session state")
  if (← act .load) ≠ .authPending then
    return some ("auth " ++ name ++ " is not allowed in current session state")
  handle

/-- `HandleFrame`. -/
def handleFrame (f : Frame) : M (Option Err) :=
  ifErr (checkRateLimit f) (refuse errorRateLimited) do
    match validateFrameEnvelope f with
    | .error e => refuse errorProtocolViolation e
    | .ok _ =>
      match f.header.frameType with
      | .auth => authFrame cfg codec f
      | .authAccept => authAnswer cfg "accept" (handleAuthAccept codec f)
      | .authReject => authAnswer cfg "reject" (handleAuthReject codec f)
      | _ => authGate cfg codec f
where
  /-- The frame is answered with an error. -/
  refuse (code : ℕ) (e : Err) : M (Option Err) := do
    sendError cfg code f e
    return some e

/-! ## The goroutines -/

/-- How a procedure ends: `Run` goes on with its next turn, or it returns. -/
inductive Outcome
  | again
  | returned (e : Option Err)
  deriving DecidableEq, Repr

/-- The end of `Run` after a failed read. -/
def connectionLost (e : Err) : M Outcome := do
  let state ← act .load
  if state = .closed ∨ state = .closing then return .returned none
  act .cleanupIncoming
  act .failOutgoing
  closeWriter cfg
  -- the state is read twice
  if (← act .load) ≠ .closed then
    if (← act .load) ≠ .authRejected then act (.store .failed)
  return .returned (some e)

/-- The end of `Run` after an error of `HandleFrame`. -/
def handlingFailed (e : Err) : M Outcome := do
  act .cleanupIncoming
  act .failOutgoing
  closeWriter cfg
  if (← act .load) ≠ .authRejected then act (.store .failed)
  let _ ← closeTransport
  return .returned (some e)

/-- The end of a turn of `Run` on a frame that was handled. -/
def goOn : M Outcome := do
  if (← act .load) = .closed then return .returned none
  act .again
  return .again

/-- A turn of `Run` on a frame. -/
def runFrame (f : Frame) : M Outcome := do
  if (← act .load) = .closed then return .returned none
  ifErr (handleFrame cfg codec f) (handlingFailed cfg) goOn

/-- One turn of the loop of `Run`. -/
def run : M Outcome := do
  match ← act .read with
  | .error e => connectionLost cfg e
  | .ok f => runFrame cfg codec f

theorem always_run {W : Monitor Op Op.Res G} {Q : G → Outcome → Prop} {g : G} :
    (run cfg codec).Always W Q g ↔ W.ok g .read ∧
      (∀ e, W.may g .read (.error e) →
        (connectionLost cfg e).Always W Q (W.next g .read (.error e))) ∧
      ∀ f, W.may g .read (.ok f) → (runFrame cfg codec f).Always W Q (W.next g .read (.ok f)) := by
  refine and_congr_right fun _ => ⟨fun h => ⟨fun e => h (.error e), fun f => h (.ok f)⟩, ?_⟩
  rintro ⟨herror, hok⟩ r hr
  cases r with
  | error e => exact herror e hr
  | ok f => exact hok f hr

/-- One tick of `StartHeartbeat`: nothing was heard of the peer for too long, or it
    is to be pinged. -/
def heartbeat : M (Option Err) := do
  let state ← act .load
  if state = .closed ∨ state = .failed then return none
  if ← act .quiet then
    heartbeatFails "heartbeat timeout"
  else if cfg.role = .server ∨ state ≠ .established then return none
  else if ← act .heard then return none
  else
    ifErr (check (requireCap cfg capabilityHeartbeat "heartbeat") (send .ping))
      heartbeatFails (return none)
where
  /-- The end of the heartbeat. -/
  heartbeatFails (e : Err) : M (Option Err) := do
    act (.store .failed)
    act .failOutgoing
    closeWriter cfg
    let _ ← closeTransport
    return some e

/-- The timeout of `StartAuthTimeout`. -/
def authTimeout : M (Option Err) := do
  if cfg.authRequired = false then return none
  match ← act .lookAuth with
  | .authAccepted | .helloSent | .established | .draining | .closing | .closed | .authRejected =>
    return none
  | _ =>
    act (.store .authRejected)
    rejectAuthAndClose cfg authRejectTimeout authRejectTimeout "auth timeout"

/-- `handleWriterFailure`. -/
def handleWriterFailure (e : Err) : M (Option Err) := do
  match ← act .load with
  | .closing | .closed | .authRejected => return none
  | _ =>
    act (.store .failed)
    act .failOutgoing
    let _ ← closeTransport
    return some e

/-- The procedures of a session. -/
inductive Proc
  | run
  | closeWith (m : CloseMessage)
  | finishPeerClose (m : CloseMessage) (collision : Bool)
  | finishPeerDrain (m : CloseMessage) (collision : Bool)
  | sendGoAway (flags : ℕ) (message : String)
  | authenticate (payload : Bytes)
  | acceptAuth (userID : String)
  | rejectAuth (status reason : ℕ) (message : String)
  | sendHello (role : String)
  | sendHelloAck
  | sendApp (t : FrameType)
  | transfers
  | heartbeat
  | authTimeout
  | writerFailure (e : Err)
  deriving DecidableEq, Repr

/-- What a procedure executes. -/
def code : Proc → M Outcome
  | .run => run cfg codec
  | .closeWith m => .returned <$> closeWith cfg m
  | .finishPeerClose m collision => .returned <$> finishPeerClose cfg m collision
  | .finishPeerDrain m collision => .returned <$> finishPeerDrain cfg m collision
  | .sendGoAway flags message => .returned <$> sendGoAway cfg flags message
  | .authenticate payload => .returned <$> authenticate cfg payload
  | .acceptAuth userID => .returned <$> acceptAuth cfg userID
  | .rejectAuth status reason message => .returned <$> rejectAuth cfg status reason message
  | .sendHello role => .returned <$> sendHello cfg role
  | .sendHelloAck => .returned <$> sendHelloAck cfg
  | .sendApp t => .returned <$> sendApp cfg t
  | .transfers => do
    act .transfers
    return .returned none
  | .heartbeat => .returned <$> heartbeat cfg
  | .authTimeout => .returned <$> authTimeout cfg
  | .writerFailure e => .returned <$> handleWriterFailure e

/-- The threads that operations start. -/
def fork : Op → Option Proc
  | .goFinishPeerClose m collision => some (.finishPeerClose m collision)
  | .goFinishPeerDrain m collision => some (.finishPeerDrain m collision)
  | .again => some .run
  | _ => none

/-- The procedures that callers and timers start; `Run` runs once, and the others are
    started by it. -/
def Proc.callable : Proc → Bool
  | .run | .finishPeerClose _ _ | .finishPeerDrain _ _ => false
  | _ => true

/-- The language of a session. -/
def lang : Lang where
  Op := Op
  Res := Op.Res
  Mem := Mem
  Proc := Proc
  Out := Outcome
  sem := sem cfg
  fork := fork
  code := code cfg codec
  callable := Proc.callable

/-- A session in `Run`, with nothing else going on. -/
def running (m : Mem) : (lang cfg codec).Conf := ⟨m, [Lang.started (L := lang cfg codec) .run]⟩

/-- A text, whose bytes Go keeps as they are. -/
def textOf (b : Bytes) : String := String.ofList (b.map fun c => Char.ofNat c.toNat)

/-- The decoders of the wire format. -/
def wireCodec : Codec where
  hello payload := do
    let v ← Wire.decodeHelloMessage payload
    return ⟨textOf v.role, v.capabilities.toNat, v.maxFrameBytes.toNat, v.maxChunkSize.toNat,
      v.maxTransferBytes.toNat, v.maxInFlightChunks.toNat, v.heartbeatMillis.toNat⟩
  error payload := do
    let v ← Wire.decodeErrorMessage payload
    return ⟨v.code.toNat, textOf v.message⟩
  goAway payload := return (← Wire.decodeGoAway payload).flags.toNat
  close payload := do
    let v ← Wire.decodeCloseMessage payload
    return ⟨v.reasonCode.toNat, v.flags.toNat, v.drainTimeoutMillis.toNat⟩
  auth payload := return (← Wire.decodeAuthRequest payload).payload
  authAccept payload := return textOf (← Wire.decodeAuthAccept payload).userID
  authReject payload := do
    let v ← Wire.decodeAuthReject payload
    return (v.statusCode.toNat, v.reasonCode.toNat, textOf v.message)

/-- A frame of the type `t` with the schema that its envelope must announce. -/
def plainFrame (t : FrameType) (payload : Bytes := []) : Frame :=
  { header := { frameType := t, schemaID := expectedSchema { frameType := t } }, payload }

end Etp.Session
