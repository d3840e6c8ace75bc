import Etp.Frame

/-!
# The gates of a session

What `HandleFrame` checks of a frame before dispatching it: its envelope
(`validateFrameEnvelope`), that the peer has authenticated
(`ensureAuthenticatedFor`), that the state of the session admits its type
(`ensureIncomingState`), and that its capability was negotiated
(`frameCapability`, `requireCapability`). Each check is a pure function of the
frame and of what it reads of the session.
-/

namespace Etp

/-- `EnsureAuthenticatedFor`: without a requirement everything passes. With one,
    frames of the authentication itself and `FrameClose` always pass, and the
    others in the states that are trusted to lie behind the authentication. -/
def ensureAuthenticatedFor (required : Bool) (state : SessionState) (t : FrameType) :
    Except Err Unit :=
  if required = false then .ok ()
  else
    match t with
    | .auth | .authAccept | .authReject | .close => .ok ()
    | _ =>
      match state with
      | .authAccepted | .helloSent | .established | .draining => .ok ()
      | _ => .error ("auth required before frame type " ++ toString t.code)

/-- The types of frames a draining session still accepts. -/
def drainingAdmits : FrameType → Bool
  | .data | .ack | .nack | .window | .transferEnd | .transferState | .cancel | .cancelAck
  | .ping | .pong | .error => true
  | _ => false

/-- Whether the state of a session admits frames of type `t`. -/
def stateAdmits (role : Role) (state : SessionState) : FrameType → Bool
  | .hello => role = .server && (state = .new || state = .authAccepted)
  | .helloAck => role = .client && state = .helloSent
  | .close => true
  | .closeAck => state = .closing || state = .draining || state = .closed
  | t => state = .established || (state = .draining && drainingAdmits t)

/-- `ensureIncomingState`. -/
def ensureIncomingState (role : Role) (state : SessionState) (t : FrameType) : Except Err Unit :=
  if stateAdmits role state t then .ok ()
  else
    .error ("frame type " ++ toString t.code ++ " is not allowed in session state " ++ state.name)

/-- The capability a frame needs, with its name; `0` for none. -/
def frameCapability (h : Header) : ℕ × String :=
  match h.frameType with
  | .ack => (capabilityAck, "ack")
  | .nack => (capabilityNack, "nack")
  | .ping | .pong => (capabilityHeartbeat, "heartbeat")
  | .window => (capabilityFlowControl, "flow control")
  | .cancel | .cancelAck => (capabilityCancel, "cancel")
  | .request | .response => (capabilityRequestResponse, "request/response")
  | .transferBegin | .transferEnd | .transferState => (capabilityTransfers, "transfers")
  | .transferResume => (capabilityTransferResume, "transfer resume")
  | .data => if h.transferID ≠ 0 then (capabilityTransfers, "transfers") else (0, "")
  | _ => (0, "")

/-- `requireCapability`: the capability must be enabled locally and be among
    those negotiated with the peer. -/
def requireCapability (caps remoteCaps capability : ℕ) (name : String) : Except Err Unit :=
  if caps &&& capability = 0 then .error ("local " ++ name ++ " support is disabled")
  else if remoteCaps &&& capability ≠ 0 then .ok ()
  else .error ("remote does not support " ++ name)

/-- The schema the envelope of a frame must announce. -/
def expectedSchema (h : Header) : ℕ :=
  match h.frameType with
  | .data => if h.transferID = 0 then schemaTextMessage else 0
  | .ack => schemaAck
  | .nack => schemaNack
  | .window => schemaWindow
  | .cancel | .cancelAck => schemaCancel
  | .hello | .helloAck => schemaHello
  | .transferBegin => schemaTransferBegin
  | .transferState | .transferResume => schemaTransferState
  | .auth => schemaAuth
  | .authAccept | .authReject => schemaAuthResult
  | .request | .response => schemaEvent
  | .error => schemaError
  | .goAway => schemaGoAway
  | .close | .closeAck => schemaClose
  | _ => 0

/-- The frames that must name a transfer. -/
def needsTransferID : FrameType → Bool
  | .transferBegin | .transferEnd | .transferState | .transferResume | .ack | .nack
  | .cancel | .cancelAck => true
  | _ => false

/-- `validateFrameEnvelope`. -/
def validateFrameEnvelope (f : Frame) : Except Err Unit :=
  if f.header.schemaID ≠ expectedSchema f.header then
    .error ("invalid schema " ++ toString f.header.schemaID ++ " for frame type " ++
      toString f.header.frameType.code)
  else if f.header.transferID = 0 && needsTransferID f.header.frameType then
    .error "transfer id is required"
  else if f.payload = [] && f.header.frameType = .data && f.header.transferID ≠ 0 then
    .error "transfer data payload is empty"
  else .ok ()

/-! ## What passes the gates -/

/-- The states behind the authentication, as `EnsureAuthenticatedFor` sees it. -/
def Trusted : SessionState → Prop
  | .authAccepted | .helloSent | .established | .draining => True
  | _ => False

instance : DecidablePred Trusted := fun s => by
  cases s <;> unfold Trusted <;> infer_instance

variable {state : SessionState}

/-- Where authentication is required, only the frames of the authentication and
    `FrameClose` pass outside the trusted states. -/
theorem of_ensureAuthenticatedFor_ok {t : FrameType}
    (h : ensureAuthenticatedFor true state t = .ok ()) :
    Trusted state ∨ t = .auth ∨ t = .authAccept ∨ t = .authReject ∨ t = .close := by
  cases t <;> cases state <;> simp_all [ensureAuthenticatedFor, Trusted]

theorem ensureAuthenticatedFor_of_trusted {required : Bool} (h : Trusted state) (t : FrameType) :
    ensureAuthenticatedFor required state t = .ok () := by
  cases required <;> cases state <;> cases t <;> first | rfl | cases h

theorem ensureIncomingState_ok_iff {role : Role} {t : FrameType} :
    ensureIncomingState role state t = .ok () ↔ stateAdmits role state t = true := by
  unfold ensureIncomingState
  split <;> simp_all

theorem requireCapability_ok_iff {caps remoteCaps capability : ℕ} {name : String} :
    requireCapability caps remoteCaps capability name = .ok () ↔
      caps &&& capability ≠ 0 ∧ remoteCaps &&& capability ≠ 0 := by
  unfold requireCapability
  split_ifs <;> simp_all

end Etp
