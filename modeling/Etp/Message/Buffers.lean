import Etp.Message.Inline
import Etp.Wire.Canonical

/-!
# Pooled buffers

The encoders write into memory that comes from a pool and holds what was there
before. With a send queue, `SendText`, `sendEventFrame` and `SendError` encode the
payload and then the header in place, in one such buffer; without one, `SendText`
and `sendEventFrame` encode the payload in a buffer of its own and build the frame
with `NewFrame` and `EncodeFrameInto`.

The encoders write every byte of what they return (`Payload.encode_pooled`,
`encodeFrameInto_pooled`), so a frame that is encoded in place is the header of
the message followed by its payload (`frameInPlace_eq`). The frame of the other
way is the same (`sendContext_eq`).
-/

namespace Etp.Wire

open Octets

/-! ## Encoders -/

theorem encodeTailed_pooled {fixed : ℕ} {tail : Bytes} {ws : List (ℕ × Bytes)} (tooLarge : Err)
    (hws : Gapless 0 (ws ++ [(fixed - 4, be32 (.ofNat tail.length)), (fixed, tail)]))
    (hlen : (ws.flatMap Prod.snd).length + 4 = fixed) (hfixed : fixed ≤ maxPayload)
    (dst dst' : Bytes) :
    encodeTailed fixed tooLarge dst ws tail = encodeTailed fixed tooLarge dst' ws tail := by
  by_cases hfits : fixed + tail.length ≤ maxPayload
  · rw [encodeTailed_ok tooLarge dst hws hlen hfits, encodeTailed_ok tooLarge dst' hws hlen hfits]
  · rw [encodeTailed, encodeTailed, if_pos (by omega), if_pos (by omega)]

theorem encodeTextMessageInto_pooled (text dst dst' : Bytes) :
    encodeTextMessageInto dst text = encodeTextMessageInto dst' text := by
  by_cases hfits : 4 + text.length ≤ maxPayload
  · rw [encodeTextMessageInto_bytes hfits, encodeTextMessageInto_bytes hfits]
  · have hfixed : 4 ≤ maxPayload := by decide
    rw [encodeTextMessageInto, encodeTextMessageInto, if_pos (by omega), if_pos (by omega)]

theorem encodeErrorMessageInto_pooled (v : ErrorMessage) (dst dst' : Bytes) :
    encodeErrorMessageInto dst v = encodeErrorMessageInto dst' v :=
  encodeTailed_pooled _ (by simp [Gapless]) (by simp) (by decide) dst dst'

theorem encodeEventMessageInto_pooled (v : EventMessage) (dst dst' : Bytes) :
    encodeEventMessageInto dst v = encodeEventMessageInto dst' v := by
  by_cases hfits : v.size ≤ maxPayload
  · rw [encodeEventMessageInto_ok hfits, encodeEventMessageInto_ok hfits]
  · have hlarge : ∀ d, encodeEventMessageInto d v =
        .error "event payload exceeds max frame size" := fun d => if_pos (Nat.not_le.mp hfits)
    rw [hlarge, hlarge]

theorem encodeTransferBeginInto_pooled (v : TransferBegin) (dst dst' : Bytes) :
    encodeTransferBeginInto dst v = encodeTransferBeginInto dst' v := by
  by_cases hfits : v.size ≤ maxPayload
  · rw [encodeTransferBeginInto_bytes hfits, encodeTransferBeginInto_bytes hfits]
  · have hlarge : ∀ d, encodeTransferBeginInto d v = [] := fun d => if_pos (Nat.not_le.mp hfits)
    rw [hlarge, hlarge]

theorem Message.encode_pooled (m : Message) (dst dst' : Bytes) : m.encode dst = m.encode dst' := by
  cases m with
  | event v => exact encodeEventMessageInto_pooled v dst dst'
  | error v => exact encodeErrorMessageInto_pooled v dst dst'
  | transferBegin v => exact congrArg Except.ok (encodeTransferBeginInto_pooled v dst dst')
  | window v =>
    exact congrArg Except.ok
      ((encodeWindowInto_bytes dst v).trans (encodeWindowInto_bytes dst' v).symm)
  | transferState v =>
    exact congrArg Except.ok ((encodeTransferStateMessageInto_bytes dst v).trans
      (encodeTransferStateMessageInto_bytes dst' v).symm)
  | goAway v | transferResume v | authRequest v | authReject v | authAccept v =>
    exact encodeTailed_pooled _ (by simp [Gapless]) (by simp) (by decide) dst dst'
  -- the other encoders allocate
  | hello v | close v | ack v | nack v | cancel v | cancelAck v => rfl

theorem Payload.encode_pooled (v : Payload) (dst dst' : Bytes) : v.encode dst = v.encode dst' := by
  cases v with
  | text x => exact congrArg Except.ok (encodeTextMessageInto_pooled x dst dst')
  | message m => exact m.encode_pooled dst dst'

theorem encodeFrameInto_pooled (frame : Frame) (dst dst' : Bytes) :
    encodeFrameInto dst frame = encodeFrameInto dst' frame := by
  by_cases hlen : frame.payload.length ≤ maxFrameBytes - headerSize
  · cases hvalid : validateHeaderValues frame.header with
    | none => rw [encodeFrameInto_ok hvalid hlen, encodeFrameInto_ok hvalid hlen]
    | some err =>
      -- the header is refused before anything is written
      simp only [encodeFrameInto, if_neg (Nat.not_lt.mpr hlen), validateHeaderValues_canonical,
        hvalid]
  · rw [encodeFrameInto, encodeFrameInto, if_pos (Nat.not_le.mp hlen), if_pos (Nat.not_le.mp hlen)]

end Etp.Wire

namespace Etp.Message

open Wire

/-! ## Frames in place -/

/-- The header that is written in place. -/
def textHeader (requestID : UInt64) : Wire.Header where
  frameType := .ofNat FrameType.data.code
  flags := .ofNat (flagFirst ||| flagLast)
  priority := 2
  channelID := 1
  schemaID := .ofNat schemaTextMessage
  requestID := requestID
  transferID := 0

/-- `SendText`: the frame's bytes, if it was handed over. `maxTextBytes` is the limit of the
    configuration. -/
def sendText (s : Endpoint) (maxTextBytes : ℕ) (requestID : UInt64) (text : Bytes) :
    Except Err Bytes := do
  requireEstablished s "send text"
  ensureAuthenticatedFor s.authRequired s.state .data
  let payloadSize := 4 + text.length
  if payloadSize > maxTextBytes ∨ payloadSize > s.payload.maxFrameBytes - headerSize then
    .error ("text payload exceeds max size: " ++ toString payloadSize)
  else if s.writer then do
    let size := headerSize + 4 + text.length
    checkRemoteFrameSize s size
    let data ← frameInPlace s.pooled size (textHeader requestID) fun dst =>
      .ok (encodeTextMessageInto dst text)
    hand s data
  else
    sendContext s (newRealtimeFrame (.ofNat FrameType.data.code) (.ofNat schemaTextMessage)
      requestID (encodeTextMessageInto s.payloadBuf text))

def errorHeader (frame : Wire.Header) : Wire.Header where
  frameType := .ofNat FrameType.error.code
  flags := .ofNat (flagControl ||| flagFirst ||| flagLast)
  priority := 0
  channelID := 0
  schemaID := .ofNat schemaError
  requestID := frame.requestID
  transferID := frame.transferID

/-- The error about a frame with the header `frame`. -/
def errorAbout (code : UInt32) (frame : Wire.Header) (message : Bytes) : ErrorMessage where
  code := code
  frameType := frame.frameType
  schemaID := frame.schemaID
  requestID := frame.requestID
  transferID := frame.transferID
  message := message

/-- `SendError` about a frame with the header `frame`. -/
def sendError (s : Endpoint) (code : UInt32) (frame : Wire.Header) (message : Bytes) :
    Except Err Bytes :=
  if message.length + 32 > s.payload.maxFrameBytes - headerSize then
    .error "error message exceeds max frame size"
  else do
    let size := headerSize + errorMessagePayloadSize message
    checkRemoteFrameSize s size
    let data ← frameInPlace s.pooled size (errorHeader frame) fun dst =>
      encodeErrorMessageInto dst (errorAbout code frame message)
    hand s data

/-! ## What is handed over -/

section Paths

variable {s : Endpoint} {requestID : UInt64}

theorem validate_newTextFrame (payload : Bytes) :
    validateHeaderValues (newRealtimeFrame (.ofNat FrameType.data.code) (.ofNat schemaTextMessage)
      requestID payload).header = none := by
  have hid : validateHeaderValues (newRealtimeFrame (.ofNat FrameType.data.code)
        (.ofNat schemaTextMessage) requestID payload).header =
      validateHeaderValues (textHeader 0) := rfl
  rw [hid]
  decide

/-- `SendText` hands over the frame of the text, whichever way it takes. -/
theorem sendText_eq (maxTextBytes : ℕ) (text : Bytes) :
    sendText s maxTextBytes requestID text = (do
      requireEstablished s "send text"
      ensureAuthenticatedFor s.authRequired s.state .data
      if 4 + text.length > maxTextBytes ∨
          4 + text.length > s.payload.maxFrameBytes - headerSize then
        .error ("text payload exceeds max size: " ++ toString (4 + text.length))
      else do
        checkRemoteFrameSize s (headerSize + (4 + text.length))
        hand s (frameBytes (textHeader requestID) (stringBytes text))) := by
  rw [sendText]
  congr 1
  funext _
  congr 1
  funext _
  dsimp only
  split_ifs with hsize hwriter
  · rfl
  all_goals
    push Not at hsize
    have hmax := s.payload.maxFrameBytes_le
    have hfits : 4 + text.length ≤ maxPayload := by
      rw [maxPayload]
      omega
    have htext : ∀ dst, encodeTextMessageInto dst text = stringBytes text :=
      encodeTextMessageInto_bytes hfits
  · rw [frameInPlace_eq s.pooled (textHeader requestID)
      (fun dst => congrArg Except.ok (htext dst)) (by rw [length_stringBytes]; omega),
      Nat.add_assoc]
    rfl
  · have hlen : (stringBytes text).length ≤ maxPayload := by rwa [length_stringBytes]
    rw [htext, sendContext_eq (validate_newTextFrame (stringBytes text)) hlen]
    show (checkRemoteFrameSize s (headerSize + (stringBytes text).length) >>= _) = _
    rw [length_stringBytes]
    rfl

/-- `SendError` hands over the frame of the error. -/
theorem sendError_eq (code : UInt32) (frame : Wire.Header) (message : Bytes) :
    sendError s code frame message =
      if message.length + 32 > s.payload.maxFrameBytes - headerSize then
        .error "error message exceeds max frame size"
      else (do
        checkRemoteFrameSize s (headerSize + errorMessagePayloadSize message)
        let payload ← encodeErrorMessageInto [] (errorAbout code frame message)
        hand s (frameBytes (errorHeader frame) payload)) := by
  rw [sendError]
  split_ifs with hsize
  · rfl
  · have hmax := s.payload.maxFrameBytes_le
    have hfits : 32 + (errorAbout code frame message).message.length ≤ maxPayload := by
      show 32 + message.length ≤ maxPayload
      rw [maxPayload]
      omega
    obtain ⟨payload, hpayload, hlen, -⟩ := decodeErrorMessage_encode hfits []
    have hencode : ∀ dst, encodeErrorMessageInto dst (errorAbout code frame message) =
        .ok payload := fun dst => (encodeErrorMessageInto_pooled _ dst []).trans hpayload
    simp only [hpayload]
    rw [frameInPlace_eq s.pooled (errorHeader frame) hencode (by rw [hlen]; rfl)]
    rfl

end Paths

/-- The memory of pooled buffers does not show: the encoders return the same bytes whatever the
    memory they write to, and so do the calls that send a frame. With a send queue, `SendText` and
    `sendEventFrame` hand over the bytes that they send without one. -/
theorem pooled_memory_hidden :
    (∀ (v : Payload) (dst dst' : Bytes), v.encode dst = v.encode dst') ∧
    (∀ (m : EventMessage) (dst dst' : Bytes),
      encodeEventMessageSizedInto dst m m.size = encodeEventMessageSizedInto dst' m m.size) ∧
    (∀ (frame : Wire.Frame) (dst dst' : Bytes),
      encodeFrameInto dst frame = encodeFrameInto dst' frame) ∧
    ∀ (s : Endpoint) (pooled pooled' payloadBuf payloadBuf' : Bytes) (writer writer' : Bool),
      (∀ maxTextBytes requestID text,
        sendText { s with pooled, payloadBuf, writer } maxTextBytes requestID text =
          sendText { s with pooled := pooled', payloadBuf := payloadBuf', writer := writer' }
            maxTextBytes requestID text) ∧
      (∀ kind requestID (m : EventMessage),
        sendEventFrame { s with pooled, payloadBuf, writer } kind requestID m m.size =
          sendEventFrame { s with pooled := pooled', payloadBuf := payloadBuf', writer := writer' }
            kind requestID m m.size) ∧
      ∀ code frame message,
        sendError { s with pooled } code frame message =
          sendError { s with pooled := pooled' } code frame message := by
  refine ⟨Payload.encode_pooled, ?_, encodeFrameInto_pooled, ?_⟩
  · intro m dst dst'
    rw [encodeEventMessageSizedInto_bytes, encodeEventMessageSizedInto_bytes]
  · intro s pooled pooled' payloadBuf payloadBuf' writer writer'
    refine ⟨fun max requestID text => ?_, fun kind requestID m => ?_, fun code frame message => ?_⟩
    · rw [sendText_eq, sendText_eq]
      rfl
    · rw [sendEventFrame_eq, sendEventFrame_eq]
      rfl
    · rw [sendError_eq, sendError_eq]
      rfl

end Etp.Message
