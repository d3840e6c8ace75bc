import Etp.Session.Gate
import Etp.Wire.Message

/-!
# Requests and responses in one frame

The two ends of an application message that fits in one frame. The sender
(`SendRequestFields`, `SendResponseFields`, and `Request` and `Respond` for short
messages) checks the state, the capability and the size of the payload and emits
a frame; the peer (`handleIncomingRequest`, `handleIncomingResponse`) checks the
request ID, the size, the schema and the event, and hands the message to its
handler.

What the sender emits is the encoding of the message in a frame, whether the
frame is built in place for the send queue or by way of `EncodeFrameInto`
(`sendEventFrame_ok`). The peer decodes it to the same message
(`decode_eventFrame`). Between the two stands what only the peer checks: that the
event has a name and that the fields are not too many.
-/

namespace Etp.Message

open Octets Wire List

/-! ## Configuration -/

/-- The limits on payloads, as normalised. -/
structure PayloadConfig where
  maxFrameBytes : ℕ
  maxRequestBytes : ℕ
  maxResponseBytes : ℕ
  maxInlineBodyBytes : ℕ
  headerSize_le : headerSize ≤ maxFrameBytes
  maxFrameBytes_le : maxFrameBytes ≤ Etp.maxFrameBytes

/-- The part of `normalizeSessionConfig` about payloads. -/
def PayloadConfig.normalize (frame request response inlineBody : ℕ) : PayloadConfig :=
  let frame' := if frame < headerSize ∨ Etp.maxFrameBytes < frame then Etp.maxFrameBytes else frame
  let request' := if request = 0 then 1 <<< 20 else request
  let response' := if response = 0 then 1 <<< 20 else response
  let inlineBody' := if inlineBody = 0 then 64 <<< 10 else inlineBody
  { maxFrameBytes := frame'
    maxRequestBytes := request'
    maxResponseBytes := response'
    maxInlineBodyBytes := min inlineBody' (min (min request' response') (frame' - headerSize))
    headerSize_le := by
      simp only [frame']
      split
      · decide
      · omega
    maxFrameBytes_le := by
      simp only [frame']
      split
      · exact le_rfl
      · omega }

/-- The two kinds of messages. -/
inductive Kind
  | request
  | response
  deriving DecidableEq, Repr

def Kind.name : Kind → String
  | .request => "request"
  | .response => "response"

def Kind.frameType : Kind → FrameType
  | .request => .request
  | .response => .response

/-- The largest payload of a kind of message. -/
def PayloadConfig.max (c : PayloadConfig) : Kind → ℕ
  | .request => c.maxRequestBytes
  | .response => c.maxResponseBytes

/-! ## The sender -/

/-- What the sender of a message reads of its session: the state, the capabilities and limits, and
    the largest frame of the peer, `0` if unknown. `pooled` is the memory of the buffer for a frame
    that it takes from a pool, `payloadBuf` that of the buffer for a payload where there is no send
    queue, and `deliver` what comes of handing a frame to the send queue, or of writing it. -/
structure Endpoint where
  state : SessionState
  capabilities : ℕ
  remoteCaps : ℕ
  authRequired : Bool
  payload : PayloadConfig
  remoteFrame : ℕ
  writer : Bool
  pooled : Bytes
  payloadBuf : Bytes := []
  deliver : Bytes → Option Err

variable (s : Endpoint)

/-- `requireEstablished`. -/
def requireEstablished (operation : String) : Except Err Unit :=
  if s.state ≠ .established then
    .error (operation ++ " requires an established session, current state is " ++ s.state.name)
  else .ok ()

/-- `checkRemoteFrameSize`. -/
def checkRemoteFrameSize (size : ℕ) : Except Err Unit :=
  if size < headerSize ∨ Etp.maxFrameBytes < size then
    .error ("frame exceeds local max size: " ++ toString size)
  else if 0 < s.remoteFrame ∧ s.remoteFrame < size then
    .error ("frame exceeds remote max size: " ++ toString size ++ " > " ++ toString s.remoteFrame)
  else .ok ()

/-- The bytes are handed over. -/
def hand (data : Bytes) : Except Err Bytes :=
  match s.deliver data with
  | some err => .error err
  | none => .ok data

/-- `encodeFrameHeaderInto`. -/
def encodeFrameHeaderInto (out : Bytes) (h : Wire.Header) (payloadLength : ℕ) : Bytes :=
  fill out (headerWrites { h with
    version := wireVersion
    headerLength := .ofNat headerSize
    payloadOffset := .ofNat headerSize
    payloadLength := .ofNat payloadLength })

/-- `sendContext` without a cancelled context; the scheduler gives back the frame it is given. -/
def sendContext (frame : Wire.Frame) : Except Err Bytes := do
  if frame.payload.length > maxPayload then .error "frame exceeds max size"
  else
    checkRemoteFrameSize s (encodedFrameSize frame)
    let data ← encodeFrameInto s.pooled frame
    hand s data

/-- What stands in the memory `dst` after an encoder has returned `payload`: the encoder writes in
    place where there is room, and into memory of its own otherwise. -/
def written (dst payload : Bytes) : Bytes :=
  if dst.length < payload.length then dst else payload ++ dst.drop payload.length

/-- The `size` bytes of a pooled buffer after a payload and then its header were encoded in it. -/
def frameInPlace (pooled : Bytes) (size : ℕ) (header : Wire.Header)
    (encode : Bytes → Except Err Bytes) : Except Err Bytes := do
  let data := buffer pooled size
  let payload ← encode (data.drop headerSize)
  return encodeFrameHeaderInto (data.take headerSize) header payload.length ++
    written (data.drop headerSize) payload

/-- The frame of an application message as it is built without a send queue: `NewFrame`, and then
    the priority, the channel, the request ID and the flags. -/
def newRealtimeFrame (frameType : UInt8) (schemaID : UInt32) (requestID : UInt64)
    (payload : Bytes) : Wire.Frame :=
  let f := newFrame frameType schemaID payload
  { f with header := { f.header with
      priority := 2
      channelID := 1
      requestID := requestID
      flags := .ofNat (flagFirst ||| flagLast) } }

/-- The header of a message's frame, as it is written in place. -/
def eventHeader (kind : Kind) (requestID : UInt64) : Wire.Header where
  frameType := .ofNat kind.frameType.code
  flags := .ofNat (flagFirst ||| flagLast)
  priority := 2
  channelID := 1
  schemaID := .ofNat schemaEvent
  requestID := requestID

/-- `sendEventFrame`: the frame's bytes, if it was handed over. -/
def sendEventFrame (kind : Kind) (requestID : UInt64) (m : EventMessage) (payloadSize : ℕ) :
    Except Err Bytes :=
  if payloadSize > s.payload.maxFrameBytes - headerSize then
    .error ("event payload exceeds max frame size: " ++ toString payloadSize)
  else if s.writer then do
    let size := headerSize + payloadSize
    checkRemoteFrameSize s size
    let data ← frameInPlace s.pooled size (eventHeader kind requestID) fun dst =>
      .ok (encodeEventMessageSizedInto dst m payloadSize)
    hand s data
  else
    sendContext s (newRealtimeFrame (.ofNat kind.frameType.code) (.ofNat schemaEvent) requestID
      (encodeEventMessageSizedInto s.payloadBuf m payloadSize))

/-- `sendRequestWithIDSize` and `sendResponseWithIDSize`. -/
def sendWithIDSize (kind : Kind) (requestID : UInt64) (m : EventMessage) (payloadSize : ℕ) :
    Except Err Bytes := do
  if kind = .response ∧ requestID = 0 then .error "response request id is required"
  else
    requireEstablished s ("send " ++ kind.name)
    requireCapability s.capabilities s.remoteCaps capabilityRequestResponse "request/response"
    ensureAuthenticatedFor s.authRequired s.state kind.frameType
    if payloadSize > s.payload.max kind then
      .error (kind.name ++ " payload exceeds max size: " ++ toString payloadSize ++ " > " ++
        toString (s.payload.max kind))
    else
      sendEventFrame s kind requestID m payloadSize

/-- `SendRequestFields` and `SendResponseFields`; the ID of a request is the next one. -/
def sendFields (kind : Kind) (requestID : UInt64) (m : EventMessage) : Except Err Bytes :=
  sendWithIDSize s kind requestID m
    (eventMessagePayloadSize64 m.event.length m.data.length m.fields)

/-- `inlinePayloadSize` of a message without a reader: its size and whether it is sent in one
    frame. -/
def inlinePayloadSize (kind : Kind) (m : EventMessage) : ℕ × Bool :=
  let payloadSize := eventMessagePayloadSize64 m.event.length m.data.length m.fields
  (payloadSize, payloadSize ≤ s.payload.max kind ∧ payloadSize ≤ s.payload.maxInlineBodyBytes)

/-- `Request` and `Respond` of a message without a reader, as far as they send it in one frame: the
    result, or none for a message that becomes a transfer. -/
def sendInline (kind : Kind) (requestID : UInt64) (m : EventMessage) :
    Option (Except Err Bytes) :=
  if kind = .response ∧ requestID = 0 then some (.error "response request id is required")
  else match inlinePayloadSize s kind m with
    | (payloadSize, true) => some (sendWithIDSize s kind requestID m payloadSize)
    | (_, false) => none

/-! ## What the sender emits -/

/-- The bytes of a frame: the header, with the fields that describe the encoding, and the
    payload. -/
def frameBytes (header : Wire.Header) (payload : Bytes) : Bytes :=
  ({ header, payload } : Wire.Frame).canonical.header.bytes ++ payload

/-- The frame of a message. -/
def eventFrame (kind : Kind) (requestID : UInt64) (m : EventMessage) : Wire.Frame where
  header := eventHeader kind requestID
  payload := m.bytes

/-- The bytes of a message's frame. -/
def eventFrameBytes (kind : Kind) (requestID : UInt64) (m : EventMessage) : Bytes :=
  frameBytes (eventHeader kind requestID) m.bytes

variable {s} {kind : Kind} {requestID : UInt64} {m : EventMessage} {data : Bytes}

theorem validate_eventHeader (kind : Kind) (requestID : UInt64) :
    validateHeaderValues (eventHeader kind requestID) = none := by
  have hid : validateHeaderValues (eventHeader kind requestID) =
      validateHeaderValues (eventHeader kind 0) := rfl
  rw [hid]
  cases kind <;> decide

theorem hand_ok {emitted : Bytes} (h : hand s data = .ok emitted) : emitted = data := by
  rw [hand] at h
  split at h
  · cases h
  · exact (Except.ok.inj h).symm

/-- A frame that was encoded in place shows nothing of the buffer. -/
theorem frameInPlace_eq {payload : Bytes} {encode : Bytes → Except Err Bytes} {size : ℕ}
    (pooled : Bytes) (header : Wire.Header) (hencode : ∀ dst, encode dst = .ok payload)
    (hsize : size = headerSize + payload.length) :
    frameInPlace pooled size header encode = .ok (frameBytes header payload) := by
  have htake : ((buffer pooled size).take headerSize).length = headerSize := by
    rw [length_take, length_buffer]
    omega
  have hdrop : ((buffer pooled size).drop headerSize).length = payload.length := by
    rw [length_drop, length_buffer]
    omega
  -- the payload has exactly the room behind the header
  have hwritten : written ((buffer pooled size).drop headerSize) payload = payload := by
    rw [written, if_neg (by omega), drop_eq_nil_of_le hdrop.le, append_nil]
  rw [frameInPlace, hencode, ok_bind, hwritten, encodeFrameHeaderInto, fill_headerWrites _ htake]
  rfl

/-- Without a send queue the frame is the same, for a header that the encoder admits. -/
theorem sendContext_eq {frame : Wire.Frame} (hvalid : validateHeaderValues frame.header = none)
    (hlen : frame.payload.length ≤ maxPayload) :
    sendContext s frame = (do
      checkRemoteFrameSize s (headerSize + frame.payload.length)
      hand s (frameBytes frame.header frame.payload)) := by
  have hsize : encodedFrameSize frame = headerSize + frame.payload.length :=
    if_neg (Nat.not_lt.mpr hlen)
  rw [sendContext, if_neg (Nat.not_lt.mpr hlen), hsize, encodeFrameInto_ok hvalid hlen]
  rfl

theorem checked_hand_ok {size : ℕ} {emitted : Bytes}
    (h : (do checkRemoteFrameSize s size; hand s data) = Except.ok emitted) : emitted = data := by
  cases hc : checkRemoteFrameSize s size with
  | error err => simp [hc, bind, Except.bind] at h
  | ok _ =>
    simp only [hc, bind, Except.bind] at h
    exact hand_ok h

theorem sendContext_ok {frame : Wire.Frame} (hvalid : validateHeaderValues frame.header = none)
    (h : sendContext s frame = .ok data) :
    data = frame.canonical.header.bytes ++ frame.payload := by
  by_cases hlen : frame.payload.length ≤ maxPayload
  · rw [sendContext_eq hvalid hlen] at h
    exact checked_hand_ok h
  · rw [sendContext, if_pos (Nat.not_le.mp hlen)] at h
    cases h

/-- `sendEventFrame` hands over the frame of the message, built in place or not. -/
theorem sendEventFrame_eq (kind : Kind) (requestID : UInt64) (m : EventMessage) :
    sendEventFrame s kind requestID m m.size =
      if m.size > s.payload.maxFrameBytes - headerSize then
        .error ("event payload exceeds max frame size: " ++ toString m.size)
      else (do
        checkRemoteFrameSize s (headerSize + m.size)
        hand s (eventFrameBytes kind requestID m)) := by
  rw [sendEventFrame]
  split_ifs with hsize hwriter
  · rfl
  · dsimp only
    rw [frameInPlace_eq s.pooled (eventHeader kind requestID)
      (fun dst => congrArg Except.ok (encodeEventMessageSizedInto_bytes dst m))
      (by rw [m.length_bytes])]
    rfl
  · have hmax := s.payload.maxFrameBytes_le
    have hlen : m.bytes.length ≤ maxPayload := by
      rw [m.length_bytes, maxPayload]
      omega
    -- the two headers differ in the fields that the encoder sets
    rw [encodeEventMessageSizedInto_bytes,
      sendContext_eq (validate_eventHeader kind requestID) hlen]
    show (checkRemoteFrameSize s (headerSize + m.bytes.length) >>= _) = _
    rw [m.length_bytes]
    rfl

theorem sendEventFrame_ok (h : sendEventFrame s kind requestID m m.size = .ok data) :
    m.size ≤ maxPayload ∧ data = eventFrameBytes kind requestID m := by
  rw [sendEventFrame_eq] at h
  split_ifs at h with hsize
  have hmax := s.payload.maxFrameBytes_le
  refine ⟨?_, checked_hand_ok h⟩
  rw [maxPayload]
  omega

theorem sendWithIDSize_ok (h : sendWithIDSize s kind requestID m m.size = .ok data) :
    m.size ≤ s.payload.max kind ∧ m.size ≤ maxPayload ∧
      data = eventFrameBytes kind requestID m := by
  rw [sendWithIDSize] at h
  split at h
  · cases h
  · cases he : requireEstablished s ("send " ++ kind.name) with
    | error err => simp [he, bind, Except.bind] at h
    | ok _ =>
      cases hr : requireCapability s.capabilities s.remoteCaps capabilityRequestResponse
          "request/response" with
      | error err => simp [he, hr, bind, Except.bind] at h
      | ok _ =>
        cases ha : ensureAuthenticatedFor s.authRequired s.state kind.frameType with
        | error err => simp [he, hr, ha, bind, Except.bind] at h
        | ok _ =>
          simp only [he, hr, ha, bind, Except.bind] at h
          split at h
          · cases h
          · rename_i hsize
            exact ⟨Nat.not_lt.mp hsize, sendEventFrame_ok h⟩

/-! ## The peer -/

def errorFrameTooLarge : UInt32 := 4
def errorRateLimited : UInt32 := 6
def errorInvalidRequest : UInt32 := 9

/-- What the handling of a frame does: a protocol event, a frame with an error for the sender, a
    call of the handler, or a job for the workers that call it. -/
inductive Effect
  | event (message : String)
  | sendError (code : UInt32) (message : String)
  | call (requestID : UInt64) (m : EventMessage)
  | job (requestID : UInt64) (m : EventMessage)
  deriving DecidableEq, Repr

/-- What was done about a frame, and the error of its handler. -/
structure Handled where
  effects : List Effect
  err : Option Err := none
  deriving DecidableEq, Repr

/-- What a peer reads of its session: its limits, whether it is in `Run`, whether the queue of the
    handler's workers has room, and for each kind of message the result of a call of its handler, if
    it has one. -/
structure Peer where
  payload : PayloadConfig
  running : Bool
  queueRoom : Bool
  handler : Kind → Option (UInt64 → EventMessage → Option Err)

variable (p : Peer)

/-- `invokeApplicationHandler`. -/
def invokeApplicationHandler (requestID : UInt64) (m : EventMessage)
    (run : UInt64 → EventMessage → Option Err) : Handled :=
  if p.running = false then ⟨[.call requestID m], run requestID m⟩
  else if p.queueRoom then ⟨[.job requestID m], none⟩
  else ⟨[.sendError errorRateLimited "application handler queue is full"], none⟩

/-- A refusal; `twice` says that the event is emitted once more before. -/
def refuse (twice : Bool) (code : UInt32) (message : String) (err : Err) : Handled where
  effects := (if twice then [.event message] else []) ++ [.event message, .sendError code message]
  err := some err

/-- What `handleIncomingRequest` and `handleIncomingResponse` do with a frame that has a request
    ID. -/
def handleEvent (kind : Kind) (frame : Wire.Frame) : Handled :=
  if frame.payload.length > p.payload.max kind then
    refuse false errorFrameTooLarge (kind.name ++ " payload too large")
      (kind.name ++ " payload exceeds max size: " ++ toString frame.payload.length ++ " > " ++
        toString (p.payload.max kind))
  else if frame.header.schemaID.toNat ≠ schemaEvent then
    refuse true errorInvalidRequest ("invalid " ++ kind.name ++ " schema")
      ("invalid " ++ kind.name ++ " schema: " ++ toString frame.header.schemaID)
  else match decodeEventMessage frame.payload with
    | .error err => refuse true errorInvalidRequest ("invalid " ++ kind.name ++ " payload") err
    | .ok message =>
      if message.event.length = 0 then
        refuse true errorInvalidRequest (kind.name ++ " event is required")
          (kind.name ++ " event is required")
      else match p.handler kind with
        | some run => invokeApplicationHandler p frame.header.requestID message run
        | none => ⟨[], none⟩

/-- `handleIncomingRequest`. -/
def handleIncomingRequest (frame : Wire.Frame) : Handled :=
  if frame.header.requestID = 0 then
    refuse false errorInvalidRequest "request id is required" "request id is required"
  else handleEvent p .request frame

/-- `handleIncomingResponse`. -/
def handleIncomingResponse (frame : Wire.Frame) : Handled :=
  if frame.header.requestID = 0 then
    refuse true errorInvalidRequest "response request id is required"
      "response request id is required"
  else handleEvent p .response frame

/-- The handling of the frames of a kind of message. -/
def handleIncoming : Kind → Wire.Frame → Handled
  | .request => handleIncomingRequest p
  | .response => handleIncomingResponse p

/-! ## From the sender to the peer -/

theorem decode_eventFrame (kind : Kind) (requestID : UInt64) (h : m.size ≤ maxPayload) :
    decodeFrameView (eventFrameBytes kind requestID m) =
      .ok (eventFrame kind requestID m).canonical :=
  @decodeFrameView_bytes (eventFrame kind requestID m)
    (validate_eventHeader kind requestID) (by rw [eventFrame, m.length_bytes]; exact h)

variable {p}

/-- A frame with a named event and few enough fields reaches the handler. -/
theorem handleIncoming_eventFrame {run : UInt64 → EventMessage → Option Err}
    (hid : requestID ≠ 0) (hmax : m.size ≤ p.payload.max kind) (hfits : m.size ≤ maxPayload)
    (hevent : m.event ≠ []) (hfields : m.fields.length ≤ maxTransferFields)
    (hrun : p.handler kind = some run) :
    handleIncoming p kind (eventFrame kind requestID m).canonical =
      invokeApplicationHandler p requestID m run := by
  have hpayload : (eventFrame kind requestID m).canonical.payload = m.bytes := rfl
  have hhead : (eventFrame kind requestID m).canonical.header.requestID = requestID := rfl
  have hschema : (eventFrame kind requestID m).canonical.header.schemaID.toNat = schemaEvent := rfl
  have hname : ¬ m.event.length = 0 := fun h0 => hevent (length_eq_zero_iff.mp h0)
  have hhandle : handleEvent p kind (eventFrame kind requestID m).canonical =
      invokeApplicationHandler p requestID m run := by
    rw [handleEvent, hpayload, m.length_bytes, if_neg (Nat.not_lt.mpr hmax),
      if_neg (fun h => h hschema), decodeEventMessage_bytes hfields hfits]
    simp only [if_neg hname, hrun, hhead]
  cases kind with
  | request => rw [handleIncoming, handleIncomingRequest, hhead, if_neg hid, hhandle]
  | response => rw [handleIncoming, handleIncomingResponse, hhead, if_neg hid, hhandle]

/-- The calls that send a message in one frame. -/
inductive SendCall
  | fields
  | inline
  deriving DecidableEq, Repr

/-- The bytes that a call emits, if it returns nil. -/
def SendCall.emits (c : SendCall) (s : Endpoint) (kind : Kind) (requestID : UInt64)
    (m : EventMessage) : Option Bytes :=
  match c with
  | .fields => (sendFields s kind requestID m).toOption
  | .inline => (sendInline s kind requestID m).bind Except.toOption

theorem SendCall.emits_ok {c : SendCall} (h : c.emits s kind requestID m = some data) :
    sendWithIDSize s kind requestID m m.size = .ok data := by
  have hok : ∀ {x : Except Err Bytes}, x.toOption = some data → x = .ok data := by
    intro x hx
    cases x with
    | error err => cases hx
    | ok b => exact congrArg _ (Option.some.inj hx)
  cases c with
  | fields => exact hok h
  | inline =>
    rw [SendCall.emits, sendInline] at h
    split at h
    · cases h
    · split at h
      · rename_i payloadSize hinline
        have hsize : payloadSize = m.size := (congrArg Prod.fst hinline).symm
        rw [hsize] at h
        exact hok h
      · cases h

theorem fields_lt_size (h : m.size ≤ maxPayload) : m.fields.length < UInt32.size := by
  have hle : ∀ fields : List TransferField,
      fields.length ≤ (fields.flatMap TransferField.bytes).length := by
    intro fields
    induction fields with
    | nil => exact le_rfl
    | cons field fields ih =>
      rw [flatMap_cons, length_append, length_cons, TransferField.bytes,
        length_append, length_stringBytes]
      omega
  have hblock : (fieldsBytes m.fields).length ≤ m.size := by
    rw [length_fieldsBytes, EventMessage.size, eventMessagePayloadSize64]
    omega
  refine lt_size_of_le (le_trans ?_ (hblock.trans h))
  rw [fieldsBytes]
  split_ifs with hzero
  · exact hzero.le
  · rw [length_append]
    exact (hle m.fields).trans (Nat.le_add_left _ _)

/-- A frame that is handled without an error has a named event and few enough fields. -/
theorem named_of_handled (hfits : m.size ≤ maxPayload)
    (h : (handleIncoming p kind (eventFrame kind requestID m).canonical).err = none) :
    m.event ≠ [] ∧ m.fields.length ≤ maxTransferFields := by
  have hhandle : (handleEvent p kind (eventFrame kind requestID m).canonical).err = none := by
    cases kind with
    | request | response =>
      simp only [handleIncoming, handleIncomingRequest, handleIncomingResponse] at h
      split at h
      · cases h
      · exact h
  have hpayload : (eventFrame kind requestID m).canonical.payload = m.bytes := rfl
  rw [handleEvent, hpayload] at hhandle
  split_ifs at hhandle
  · cases hhandle
  · cases hhandle
  have hdecode := decodeEventMessage_eq hfits
  cases hfields : decodeTransferFields (fieldsBytes m.fields) with
  | error err =>
    rw [hdecode, hfields] at hhandle
    cases hhandle
  | ok fields =>
    rw [hdecode, hfields] at hhandle
    constructor
    · intro hevent
      simp only [Except.map, hevent] at hhandle
      cases hhandle
    · by_contra hmany
      rw [decodeTransferFields_tooMany (Nat.not_le.mp hmany) (fields_lt_size hfits)] at hfields
      cases hfields

theorem invokeApplicationHandler_iff {run : UInt64 → EventMessage → Option Err} :
    invokeApplicationHandler p requestID m run =
        ⟨[if p.running then .job requestID m else .call requestID m], none⟩ ↔
      if p.running then p.queueRoom = true else run requestID m = none := by
  rw [invokeApplicationHandler]
  cases p.running <;> cases p.queueRoom <;> simp

/-- A message that was sent is handled without an error by a peer with the same limits, in that its
    handler is called, or will be by a worker, with the request ID and the message, exactly if the
    event is named, there are at most `maxTransferFields` fields, and the peer takes the message:
    the queue of its workers has room, or else, outside `Run`, the handler returns nil. -/
theorem sent_message_handled_iff (s : Endpoint) (p : Peer) (c : SendCall) (kind : Kind)
    (requestID : UInt64) (m : EventMessage) (data : Bytes)
    (run : UInt64 → EventMessage → Option Err) (hlimits : p.payload = s.payload)
    (hrun : p.handler kind = some run) (hid : requestID ≠ 0)
    (hsent : c.emits s kind requestID m = some data) :
    (∃ frame, decodeFrameView data = .ok frame ∧
      handleIncoming p kind frame =
        ⟨[if p.running then .job requestID m else .call requestID m], none⟩) ↔
    m.event ≠ [] ∧ m.fields.length ≤ maxTransferFields ∧
      if p.running then p.queueRoom = true else run requestID m = none := by
  obtain ⟨hmax, hfits, hdata⟩ := sendWithIDSize_ok (SendCall.emits_ok hsent)
  have hdecode : decodeFrameView data = .ok (eventFrame kind requestID m).canonical := by
    rw [hdata, decode_eventFrame kind requestID hfits]
  constructor
  · rintro ⟨frame, hframe, hhandled⟩
    obtain rfl := Except.ok.inj (hdecode.symm.trans hframe)
    obtain ⟨hevent, hfields⟩ := named_of_handled hfits (congrArg Handled.err hhandled)
    rw [handleIncoming_eventFrame hid (hlimits ▸ hmax) hfits hevent hfields hrun] at hhandled
    exact ⟨hevent, hfields, invokeApplicationHandler_iff.mp hhandled⟩
  · rintro ⟨hevent, hfields, htaken⟩
    refine ⟨_, hdecode, ?_⟩
    rw [handleIncoming_eventFrame hid (hlimits ▸ hmax) hfits hevent hfields hrun]
    exact invokeApplicationHandler_iff.mpr htaken

/-! ## Messages that are sent and refused -/

/-- An established session with all capabilities and the default limits. -/
def plainEndpoint : Endpoint where
  state := .established
  capabilities := allCapabilities
  remoteCaps := allCapabilities
  authRequired := false
  payload := .normalize 0 0 0 0
  remoteFrame := 0
  writer := true
  pooled := []
  deliver := fun _ => none

/-- Its peer, whose handlers return nil. -/
def plainPeer (queueRoom : Bool) : Peer where
  payload := .normalize 0 0 0 0
  running := true
  queueRoom := queueRoom
  handler := fun _ => some fun _ _ => none

theorem plainEndpoint_emits (h : m.size ≤ 1 <<< 20) :
    SendCall.fields.emits plainEndpoint .request requestID m =
      some (eventFrameBytes .request requestID m) := by
  have hbits : 1 <<< 20 = 1048576 := rfl
  have hmax : ¬ m.size > plainEndpoint.payload.max .request := Nat.not_lt.mpr h
  have hframe : ¬ m.size > plainEndpoint.payload.maxFrameBytes - headerSize := by
    have hval : plainEndpoint.payload.maxFrameBytes - headerSize = 8388568 := rfl
    omega
  have hcheck : checkRemoteFrameSize plainEndpoint (headerSize + m.size) = .ok () := by
    have hlarge : ¬ (headerSize + m.size < headerSize ∨
        Etp.maxFrameBytes < headerSize + m.size) := by
      rw [headerSize, maxFrameBytes]
      omega
    rw [checkRemoteFrameSize, if_neg hlarge]
    rfl
  have hsent : sendWithIDSize plainEndpoint .request requestID m m.size =
      .ok (eventFrameBytes .request requestID m) := by
    rw [sendWithIDSize, if_neg (by simp)]
    show (if m.size > plainEndpoint.payload.max .request then _ else
      sendEventFrame plainEndpoint .request requestID m m.size) = _
    rw [if_neg hmax, sendEventFrame_eq, if_neg hframe, hcheck]
    rfl
  show (sendWithIDSize plainEndpoint .request requestID m m.size).toOption = _
  rw [hsent]
  rfl

/-- A message with `n` empty fields. -/
def crowded (n : ℕ) : EventMessage where
  event := [1]
  fields := List.replicate n ⟨[], []⟩

theorem crowded_size (n : ℕ) : (crowded (n + 1)).size = 8 * n + 21 := by
  have hfields : transferFieldsPayloadSize64 (List.replicate (n + 1) ⟨[], []⟩) = 8 * n + 12 := by
    rw [transferFieldsPayloadSize64, length_replicate, if_neg n.succ_ne_zero,
      foldl_size TransferField.size_eq, flatMap_replicate, length_flatten]
    simp [TransferField.bytes]
    omega
  rw [EventMessage.size, eventMessagePayloadSize64, crowded, hfields]
  simp
  omega

theorem crowded_refused {n : ℕ} (hn : maxTransferFields ≤ n) (hmax : n < 1 <<< 16) :
    (handleIncoming (plainPeer true) .request
      (eventFrame .request 1 (crowded (n + 1))).canonical).err =
        some "invalid transfer field count" := by
  have hbits : 1 <<< 16 = 65536 := rfl
  have hsize := crowded_size n
  have hfits : (crowded (n + 1)).size ≤ maxPayload := by
    rw [maxPayload, maxFrameBytes, headerSize]
    omega
  have hroom : ¬ (crowded (n + 1)).bytes.length > (plainPeer true).payload.max .request := by
    have hval : (plainPeer true).payload.max .request = 1048576 := rfl
    rw [EventMessage.length_bytes, hval]
    omega
  have hdecode : decodeEventMessage (crowded (n + 1)).bytes =
      .error "invalid transfer field count" := by
    have hlen : (crowded (n + 1)).fields.length = n + 1 := length_replicate
    rw [decodeEventMessage_eq hfits, decodeTransferFields_tooMany (by omega)
      (by rw [hlen, UInt32.size]; omega)]
    rfl
  have hpayload : (eventFrame .request 1 (crowded (n + 1))).canonical.payload =
      (crowded (n + 1)).bytes := rfl
  have hid : (eventFrame .request 1 (crowded (n + 1))).canonical.header.requestID ≠ 0 := by
    show (1 : UInt64) ≠ 0
    decide
  have hschema : ¬ (eventFrame .request 1 (crowded (n + 1))).canonical.header.schemaID.toNat ≠
      schemaEvent := fun h => h rfl
  rw [handleIncoming, handleIncomingRequest, if_neg hid, handleEvent, hpayload, if_neg hroom,
    if_neg hschema, hdecode]
  rfl

/-- A message without an event, or with too many fields, is sent and then refused by the peer; and
    one that meets a full queue is sent and never reaches the handler. -/
theorem sent_message_refused :
    (∃ data frame, SendCall.fields.emits plainEndpoint .request 1 { event := [] } = some data ∧
      decodeFrameView data = .ok frame ∧
      (handleIncoming (plainPeer true) .request frame).err = some "request event is required") ∧
    (∃ data frame, SendCall.fields.emits plainEndpoint .request 1 (crowded 1025) = some data ∧
      decodeFrameView data = .ok frame ∧
      (handleIncoming (plainPeer true) .request frame).err =
        some "invalid transfer field count") ∧
    (∃ data frame, SendCall.fields.emits plainEndpoint .request 1 { event := [1] } = some data ∧
      decodeFrameView data = .ok frame ∧
      handleIncoming (plainPeer false) .request frame =
        ⟨[.sendError errorRateLimited "application handler queue is full"], none⟩) := by
  have hcrowded : (crowded 1025).size ≤ 1 <<< 20 := by
    rw [crowded_size 1024]
    decide
  refine ⟨⟨_, _, plainEndpoint_emits (by decide), decode_eventFrame _ _ (by decide), by decide⟩,
    ⟨_, _, plainEndpoint_emits hcrowded, decode_eventFrame _ _ ?_, ?_⟩,
    ⟨_, _, plainEndpoint_emits (by decide), decode_eventFrame _ _ (by decide), by decide⟩⟩
  · exact hcrowded.trans (by decide)
  · exact crowded_refused (n := 1024) (by decide) (by decide)

/-- A request for the event `a` with some data and a field is sent and handled. -/
theorem sent_request_handled :
    ∃ data frame, SendCall.fields.emits plainEndpoint .request 1
        { event := [97], data := [1, 2], fields := [⟨[3], [4]⟩] } = some data ∧
      decodeFrameView data = .ok frame ∧
      handleIncoming (plainPeer true) .request frame =
        ⟨[.job 1 { event := [97], data := [1, 2], fields := [⟨[3], [4]⟩] }], none⟩ := by
  have hsent := @plainEndpoint_emits 1
    { event := [97], data := [1, 2], fields := [⟨[3], [4]⟩] } (by decide)
  obtain ⟨frame, hd, hh⟩ := (sent_message_handled_iff plainEndpoint (plainPeer true) .fields
    .request 1 { event := [97], data := [1, 2], fields := [⟨[3], [4]⟩] } _ _ rfl rfl (by decide)
    hsent).mpr ⟨by decide, by decide, rfl⟩
  exact ⟨_, frame, hsent, hd, hh⟩

end Etp.Message
