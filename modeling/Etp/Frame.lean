import Mathlib.Algebra.GroupWithZero.Nat
import Mathlib.Algebra.Ring.Int.Defs

/-!
# Frames and session states

The vocabulary of the protocol: the types of frames, their flags, priorities,
channels and schemas, the capabilities endpoints announce to each other, and
the states of a session.

A frame is a header and a payload of bytes. The header fields that only
describe the encoding (version, header length, payload offset and length,
header flags) are fixed by the encoder and are left to the codec. Strings of
the wire are byte strings. Error values are their texts.
-/

namespace Etp

/-- A byte string. -/
abbrev Bytes := List UInt8

/-- An error: its text. -/
abbrev Err := String

/-- The role of an endpoint, as normalised: whatever is not a server is a client. -/
inductive Role
  | client
  | server
  deriving DecidableEq, Repr

/-- The name of a role on the wire. -/
def Role.name : Role → String
  | .client => "client"
  | .server => "server"

/-! ## Frame types -/

/-- The types of frames; `unknown` stands for the codes without a meaning. -/
inductive FrameType
  | data
  | ack
  | nack
  | ping
  | pong
  | window
  | cancel
  | cancelAck
  | hello
  | helloAck
  | close
  | transferBegin
  | transferEnd
  | transferState
  | auth
  | authAccept
  | authReject
  | request
  | response
  | error
  | goAway
  | closeAck
  | transferResume
  | unknown (code : ℕ)
  deriving DecidableEq, Repr

/-- The code of a frame type on the wire. -/
def FrameType.code : FrameType → ℕ
  | .data => 1
  | .ack => 2
  | .nack => 3
  | .ping => 4
  | .pong => 5
  | .window => 6
  | .cancel => 7
  | .cancelAck => 8
  | .hello => 9
  | .helloAck => 10
  | .close => 11
  | .transferBegin => 12
  | .transferEnd => 13
  | .transferState => 14
  | .auth => 15
  | .authAccept => 16
  | .authReject => 17
  | .request => 18
  | .response => 19
  | .error => 20
  | .goAway => 21
  | .closeAck => 22
  | .transferResume => 23
  | .unknown code => code

/-! ## Flags, priorities, channels and schemas -/

/-! The flags of a header that the session sets. -/

def flagFirst : ℕ := 1 <<< 0
def flagLast : ℕ := 1 <<< 1
def flagAckRequest : ℕ := 1 <<< 2
def flagControl : ℕ := 1 <<< 5

/-- The five priorities of the send queue. -/
inductive Priority
  | critical
  | high
  | normal
  | low
  | idle
  deriving DecidableEq, Repr

/-- The channels of a session. -/
inductive Channel
  | control
  | realtime
  | bulk
  | sync
  | background
  deriving DecidableEq, Repr

/-! What the payload of a frame is read as. -/

def schemaHello : ℕ := 1
def schemaTextMessage : ℕ := 100
def schemaTransferBegin : ℕ := 200
def schemaAck : ℕ := 201
def schemaCancel : ℕ := 202
def schemaNack : ℕ := 203
def schemaAuth : ℕ := 204
def schemaAuthResult : ℕ := 205
def schemaEvent : ℕ := 300
def schemaError : ℕ := 400
def schemaGoAway : ℕ := 401
def schemaClose : ℕ := 402
def schemaWindow : ℕ := 500
def schemaTransferState : ℕ := 501

/-- The size of the fixed frame header. -/
def headerSize : ℕ := 40

/-- The largest frame a transport carries. -/
def maxFrameBytes : ℕ := 8 <<< 20

/-- The header of a frame. -/
structure Header where
  frameType : FrameType
  flags : ℕ := 0
  priority : Priority := .critical
  channelID : Channel := .control
  schemaID : ℕ := 0
  requestID : ℕ := 0
  transferID : ℕ := 0
  chunkID : ℕ := 0
  deriving DecidableEq, Repr

/-- A frame. -/
structure Frame where
  header : Header
  payload : Bytes := []
  deriving DecidableEq, Repr

/-! ## Capabilities -/

/-! One bit each in the word that a hello carries. -/

def capabilityTransfers : ℕ := 1 <<< 0
def capabilityCancel : ℕ := 1 <<< 1
def capabilityAck : ℕ := 1 <<< 2
def capabilityNack : ℕ := 1 <<< 3
def capabilityHeartbeat : ℕ := 1 <<< 4
def capabilityTransferSHA256 : ℕ := 1 <<< 5
def capabilityFlowControl : ℕ := 1 <<< 6
def capabilitySlowlorisGuard : ℕ := 1 <<< 7
def capabilityProtocolEvents : ℕ := 1 <<< 8
def capabilityRequestResponse : ℕ := 1 <<< 9
def capabilityGracefulClose : ℕ := 1 <<< 10
def capabilityTransferResume : ℕ := 1 <<< 11
def capabilityTransferCommit : ℕ := 1 <<< 12

/-- Every capability there is. -/
def allCapabilities : ℕ :=
  capabilityTransfers ||| capabilityCancel ||| capabilityAck ||| capabilityNack |||
    capabilityHeartbeat ||| capabilityTransferSHA256 ||| capabilityFlowControl |||
    capabilitySlowlorisGuard ||| capabilityProtocolEvents ||| capabilityRequestResponse |||
    capabilityGracefulClose ||| capabilityTransferResume ||| capabilityTransferCommit

/-- The capabilities announced by default: all but the resumption of transfers. -/
def defaultCapabilities : ℕ :=
  capabilityTransfers ||| capabilityCancel ||| capabilityAck ||| capabilityNack |||
    capabilityHeartbeat ||| capabilityTransferSHA256 ||| capabilityFlowControl |||
    capabilitySlowlorisGuard ||| capabilityProtocolEvents ||| capabilityRequestResponse |||
    capabilityGracefulClose ||| capabilityTransferCommit

/-! ## Session states -/

/-- The states of a session. -/
inductive SessionState
  | new
  | authPending
  | authAccepted
  | authRejected
  | helloSent
  | established
  | draining
  | closing
  | closed
  | failed
  deriving DecidableEq, Repr

/-- The name of a state, as it stands in error texts. -/
def SessionState.name : SessionState → String
  | .new => "NEW"
  | .authPending => "AUTH_PENDING"
  | .authAccepted => "AUTH_ACCEPTED"
  | .authRejected => "AUTH_REJECTED"
  | .helloSent => "HELLO_SENT"
  | .established => "ESTABLISHED"
  | .draining => "DRAINING"
  | .closing => "CLOSING"
  | .closed => "CLOSED"
  | .failed => "FAILED"

end Etp
