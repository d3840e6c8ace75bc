import Etp.Wire.Frame

/-!
# The payloads of control messages

The payloads of every message that is not a list: hello, text, error, goaway,
close, window, resume, transfer state, authentication, ack, nack and cancel. Each
is a few words at fixed positions. Eight of them end in a string whose length is
the last of these words (`encodeTailed`, `decodeTailed`); the others have a fixed
length.

For every message the encoder's payload is the concatenation of its words
(`…_bytes`), of the length announced, and the decoder returns the message
(`decode…_encode…`), given that the flags and reasons are of those the decoder
admits and that the string fits in a frame.
-/

namespace Etp.Wire

open Octets

/-! ## Common parts -/

/-- The largest payload of a frame. -/
def maxPayload : ℕ := maxFrameBytes - headerSize

/-- The loops of the decoders. -/
inductive Loop
  | parts
  | fields
  deriving DecidableEq, Repr

/-- The programs that decode a payload. They read slices of it, fail, and start the turns of
    their loops; what becomes of a slice that is not within the payload is left to them. -/
class Reads (m : Type → Type) extends Monad m where
  fail {α : Type} : Err → m α
  slice : Bytes → ℕ → ℕ → m Bytes
  turn : Loop → ℕ → m Unit

/-- The result of a decoder all of whose slices are within the payload. -/
@[default_instance] instance : Reads (Except Err) where
  fail := .error
  slice payload a b := .ok (slice payload a b)
  turn _ _ := .ok ()

section Reads

variable {m : Type → Type} [Reads m] (payload : Bytes) (pos : ℕ)

/-- The byte at a position. -/
def word8 : m UInt8 :=
  return uint8 (← Reads.slice payload pos (pos + 1))

/-- The two bytes at a position. -/
def word16 : m UInt16 :=
  return uint16 (← Reads.slice payload pos (pos + 2))

/-- The four bytes at a position. -/
def word32 : m UInt32 :=
  return uint32 (← Reads.slice payload pos (pos + 4))

/-- The eight bytes at a position. -/
def word64 : m UInt64 :=
  return uint64 (← Reads.slice payload pos (pos + 8))

end Reads

/-- The end of a string of this length, if it is within the payload. -/
def checkedPayloadEnd (payload : Bytes) (start : ℕ) (length : UInt32) : Option ℕ :=
  if start > payload.length ∨ length.toNat > payload.length - start then none
  else some (start + length.toNat)

/-- The largest `int`. -/
def maxInt : ℕ := 2 ^ 63 - 1

/-- A size as an `int`. -/
def saturatedInt (value : ℕ) : ℕ :=
  if value > maxInt then maxInt else value

/-- Reserved bytes have to be zero. -/
def zeroBytes (data : Bytes) : Bool :=
  data.all (· == 0)

/-- Cleared bytes. -/
def zeros (n : ℕ) : Bytes :=
  List.replicate n 0

@[simp] theorem length_zeros (n : ℕ) : (zeros n).length = n :=
  List.length_replicate

@[simp] theorem zeroBytes_zeros (n : ℕ) : zeroBytes (zeros n) = true := by
  simp [zeroBytes, zeros]

theorem saturatedInt_of_le {n : ℕ} (h : n ≤ maxPayload) : saturatedInt n = n := by
  rw [saturatedInt, if_neg]
  rw [maxPayload, maxFrameBytes, headerSize] at h
  rw [maxInt]
  omega

section Except

variable {α β : Type} (payload : Bytes) (pos : ℕ)

@[simp] theorem ok_bind (a : α) (f : α → Except Err β) : (Except.ok a >>= f) = f a := rfl

@[simp] theorem pure_ok (a : α) : (pure a : Except Err α) = .ok a := rfl

@[simp] theorem fail_error (err : Err) : (Reads.fail err : Except Err α) = .error err := rfl

@[simp] theorem slice_ok (a b : ℕ) :
    (Reads.slice payload a b : Except Err Bytes) = .ok (slice payload a b) := rfl

@[simp] theorem turn_ok (l : Loop) : (Reads.turn l pos : Except Err Unit) = .ok () := rfl

@[simp] theorem word8_ok :
    (word8 payload pos : Except Err UInt8) = .ok (uint8 (slice payload pos (pos + 1))) := rfl

@[simp] theorem word16_ok :
    (word16 payload pos : Except Err UInt16) = .ok (uint16 (slice payload pos (pos + 2))) := rfl

@[simp] theorem word32_ok :
    (word32 payload pos : Except Err UInt32) = .ok (uint32 (slice payload pos (pos + 4))) := rfl

@[simp] theorem word64_ok :
    (word64 payload pos : Except Err UInt64) = .ok (uint64 (slice payload pos (pos + 8))) := rfl

end Except

/-- A computation that succeeds does so in both its parts. -/
theorem bind_ok {α β : Type} {x : Except Err α} {f : α → Except Err β} {b : β}
    (h : (x >>= f) = .ok b) : ∃ a, x = .ok a ∧ f a = .ok b := by
  cases x with
  | error err => cases h
  | ok a => exact ⟨a, rfl, h⟩

/-- What fits in a frame has a length that a word spells. -/
theorem lt_size_of_le {n : ℕ} (h : n ≤ maxPayload) : n < UInt32.size := by
  rw [maxPayload, maxFrameBytes, headerSize] at h
  rw [UInt32.size]
  omega

theorem toNat_length {x : Bytes} (h : x.length < UInt32.size) :
    (UInt32.ofNat x.length).toNat = x.length :=
  UInt32.toNat_ofNat_of_lt' h

theorem checkedPayloadEnd_ofNat {payload x : Bytes} {start : ℕ} (hx : x.length < UInt32.size)
    (hfit : start + x.length ≤ payload.length) :
    checkedPayloadEnd payload start (.ofNat x.length) = some (start + x.length) := by
  rw [checkedPayloadEnd, toNat_length hx, if_neg (by omega)]

/-- A message of `fixed` bytes, the last four of them the length of the string `tail` that follows
    them. -/
def encodeTailed (fixed : ℕ) (tooLarge : Err) (dst : Bytes) (ws : List (ℕ × Bytes))
    (tail : Bytes) : Except Err Bytes :=
  if tail.length > maxPayload - fixed then
    .error tooLarge
  else
    .ok (fill (buffer dst (fixed + tail.length))
      (ws ++ [(fixed - 4, be32 (.ofNat tail.length)), (fixed, tail)]))

section Tailed

variable {α : Type} {fixed : ℕ} {tail : Bytes}

/-- Reads such a message: the string is handed to `message`. -/
def decodeTailed {m : Type → Type} [Reads m] (fixed : ℕ) (tooSmall invalid : Err)
    (payload : Bytes) (message : Bytes → m α) : m α :=
  if payload.length < fixed then
    Reads.fail tooSmall
  else do
    match checkedPayloadEnd payload fixed (← word32 payload (fixed - 4)) with
    | none => Reads.fail invalid
    | some stop =>
      if stop ≠ payload.length then Reads.fail invalid
      else message (← Reads.slice payload fixed stop)

theorem encodeTailed_ok {ws : List (ℕ × Bytes)} (tooLarge : Err) (dst : Bytes)
    (hws : Gapless 0 (ws ++ [(fixed - 4, be32 (.ofNat tail.length)), (fixed, tail)]))
    (hlen : (ws.flatMap Prod.snd).length + 4 = fixed) (hfits : fixed + tail.length ≤ maxPayload) :
    encodeTailed fixed tooLarge dst ws tail =
      .ok (ws.flatMap Prod.snd ++ (be32 (.ofNat tail.length) ++ tail)) := by
  rw [encodeTailed, if_neg (by omega), fill_gapless hws]
  · simp
  · simp [← hlen, Nat.add_assoc]

theorem decodeTailed_ok {pre : Bytes} (tooSmall invalid : Err)
    (message : Bytes → Except Err α) (hpre : pre.length + 4 = fixed)
    (hfits : fixed + tail.length ≤ maxPayload) :
    decodeTailed fixed tooSmall invalid (pre ++ (be32 (.ofNat tail.length) ++ tail)) message =
      message tail := by
  have hlen : (pre ++ (be32 (.ofNat tail.length) ++ tail)).length = fixed + tail.length := by
    simp only [List.length_append, length_be32]
    omega
  have hword : slice (pre ++ (be32 (.ofNat tail.length) ++ tail)) (fixed - 4) fixed =
      be32 (.ofNat tail.length) :=
    slice_mid (by omega) (by rw [length_be32]; omega)
  have htail : slice (pre ++ (be32 (.ofNat tail.length) ++ tail)) fixed (fixed + tail.length) =
      tail := by
    rw [← List.append_assoc, slice_append_right (by simp; omega)]
    have hp : (pre ++ be32 (.ofNat tail.length)).length = fixed := by simpa using hpre
    rw [hp, Nat.sub_self, Nat.add_sub_cancel_left, slice_all]
  have hfixed : fixed - 4 + 4 = fixed := by omega
  rw [decodeTailed, hlen, if_neg (by omega), word32_ok, ok_bind, hfixed, hword, uint32_be32,
    checkedPayloadEnd_ofNat (lt_size_of_le (by omega)) (by omega)]
  simp only [ne_eq, not_true_eq_false, if_false, slice_ok, ok_bind, htail]

end Tailed

/-- An encoder's payload has the length announced and decodes to the message. -/
def RoundTrip {α : Type} (encoded : Except Err Bytes) (size : ℕ) (decode : Bytes → Except Err α)
    (v : α) : Prop :=
  ∃ payload, encoded = .ok payload ∧ payload.length = size ∧ decode payload = .ok v

/-- The round trip of a message with a string at its end, from what its decoder makes of the words
    before the string. -/
theorem RoundTrip.tailed {α : Type} {fixed : ℕ} {tooLarge tooSmall invalid : Err} {dst : Bytes}
    {ws : List (ℕ × Bytes)} {tail : Bytes} {v : α} {message : Bytes → Bytes → Except Err α}
    (hws : Gapless 0 (ws ++ [(fixed - 4, be32 (.ofNat tail.length)), (fixed, tail)]))
    (hlen : (ws.flatMap Prod.snd).length + 4 = fixed) (hfits : fixed + tail.length ≤ maxPayload)
    (hmessage : message (ws.flatMap Prod.snd ++ (be32 (.ofNat tail.length) ++ tail)) tail = .ok v) :
    RoundTrip (encodeTailed fixed tooLarge dst ws tail) (saturatedInt (fixed + tail.length))
      (fun payload => decodeTailed fixed tooSmall invalid payload (message payload)) v := by
  refine ⟨_, encodeTailed_ok tooLarge dst hws hlen hfits, ?_, ?_⟩
  · rw [saturatedInt_of_le hfits]
    simp only [List.length_append, length_be32]
    omega
  · exact (decodeTailed_ok tooSmall invalid _ hlen hfits).trans hmessage

variable {m : Type → Type} [Reads m]

/-! ## Hello -/

/-- What a side says of itself in the handshake. -/
structure Hello where
  role : Bytes
  capabilities : UInt64
  maxFrameBytes : UInt32
  maxChunkSize : UInt32
  maxTransferBytes : UInt64
  maxInFlightChunks : UInt32
  heartbeatMillis : UInt32
  deriving DecidableEq, Repr

/-- A role too long for a frame leaves an empty payload. -/
def encodeHelloMessage (v : Hello) : Bytes :=
  if v.role.length > maxPayload - 40 then
    []
  else
    -- the bytes from 32 to 36 stay as they were allocated
    fill (zeros (40 + v.role.length))
      [(0, be64 v.capabilities), (8, be32 v.maxFrameBytes), (12, be32 v.maxChunkSize),
        (16, be64 v.maxTransferBytes), (24, be32 v.maxInFlightChunks),
        (28, be32 v.heartbeatMillis), (36, be32 (.ofNat v.role.length)), (40, v.role)]

/-- Reads a hello; it may have flags of capabilities that are unknown. -/
def decodeHelloMessage (payload : Bytes) : m Hello :=
  decodeTailed 40 "hello payload too small" "invalid hello role length" payload fun role => do
    if !zeroBytes (← Reads.slice payload 32 36) then
      Reads.fail "hello reserved bytes are not zero"
    else
      return {
        capabilities := ← word64 payload 0
        maxFrameBytes := ← word32 payload 8
        maxChunkSize := ← word32 payload 12
        maxTransferBytes := ← word64 payload 16
        maxInFlightChunks := ← word32 payload 24
        heartbeatMillis := ← word32 payload 28
        role := role }

theorem encodeHelloMessage_bytes {v : Hello} (h : 40 + v.role.length ≤ maxPayload) :
    encodeHelloMessage v =
      (be64 v.capabilities ++ (be32 v.maxFrameBytes ++ (be32 v.maxChunkSize ++
        (be64 v.maxTransferBytes ++ (be32 v.maxInFlightChunks ++ (be32 v.heartbeatMillis ++
          zeros 4)))))) ++ (be32 (.ofNat v.role.length) ++ v.role) := by
  rw [encodeHelloMessage, if_neg (by omega), fill_eq_lay]
  · have hgap : min 4 (40 + v.role.length - 32) = 4 := by omega
    simp [lay, zeros, Nat.sub_sub, hgap]
  · simp [Ascending]
    omega

theorem decodeHelloMessage_encode {v : Hello} (h : 40 + v.role.length ≤ maxPayload) :
    RoundTrip (.ok (encodeHelloMessage v)) (40 + v.role.length) decodeHelloMessage v := by
  refine ⟨_, rfl, ?_, ?_⟩
  · rw [encodeHelloMessage_bytes h]
    simp only [List.length_append, length_be64, length_be32, length_zeros]
    omega
  · rw [encodeHelloMessage_bytes h, decodeHelloMessage, decodeTailed_ok _ _ _ (by simp) h]
    simp (disch := simp)

/-! ## Text -/

/-- A text too long for a frame leaves an empty payload. -/
def encodeTextMessageInto (dst text : Bytes) : Bytes :=
  if text.length > maxPayload - 4 then
    []
  else
    fill (buffer dst (4 + text.length)) [(0, be32 (.ofNat text.length)), (4, text)]

/-- Reads a text. -/
def decodeTextMessage (payload : Bytes) : m Bytes :=
  decodeTailed 4 "string payload too small" "invalid string length" payload pure

theorem encodeTextMessageInto_bytes {text : Bytes} (h : 4 + text.length ≤ maxPayload)
    (dst : Bytes) :
    encodeTextMessageInto dst text = be32 (.ofNat text.length) ++ text := by
  rw [encodeTextMessageInto, if_neg (by omega), fill_gapless (by simp [Gapless]) (by simp)]
  simp

/-! ## Errors -/

/-- What an error frame tells about the frame that was refused. -/
structure ErrorMessage where
  code : UInt32
  frameType : UInt8
  schemaID : UInt32
  requestID : UInt64
  transferID : UInt64
  message : Bytes
  deriving DecidableEq, Repr

/-- The size of its payload. -/
def errorMessagePayloadSize (message : Bytes) : ℕ :=
  saturatedInt (32 + message.length)

/-- The bytes from 5 to 8 are reserved; the message comes last. -/
def encodeErrorMessageInto (dst : Bytes) (v : ErrorMessage) : Except Err Bytes :=
  encodeTailed 32 "error message too large" dst
    [(0, be32 v.code), (4, be8 v.frameType), (5, zeros 3), (8, be32 v.schemaID),
      (12, be64 v.requestID), (20, be64 v.transferID)] v.message

/-- Reads an error. -/
def decodeErrorMessage (payload : Bytes) : m ErrorMessage :=
  decodeTailed 32 "error payload too small" "invalid error message length" payload fun message => do
    if !zeroBytes (← Reads.slice payload 5 8) then
      Reads.fail "error reserved bytes are not zero"
    else
      return {
        code := ← word32 payload 0
        frameType := ← word8 payload 4
        schemaID := ← word32 payload 8
        requestID := ← word64 payload 12
        transferID := ← word64 payload 20
        message := message }

theorem decodeErrorMessage_encode {v : ErrorMessage} (h : 32 + v.message.length ≤ maxPayload)
    (dst : Bytes) :
    RoundTrip (encodeErrorMessageInto dst v) (errorMessagePayloadSize v.message)
      decodeErrorMessage v := by
  apply RoundTrip.tailed (by simp [Gapless]) (by simp) h
  simp (disch := simp)

/-! ## Goaway and close -/

/-! The session ends at once, or after the requests and transfers that have begun. -/

def closeFlagImmediate : UInt16 := (1 : UInt16) <<< 0
def closeFlagDrain : UInt16 := (1 : UInt16) <<< 1
def closeFlagNoNewRequests : UInt16 := (1 : UInt16) <<< 2
def closeFlagNoNewTransfers : UInt16 := (1 : UInt16) <<< 3

/-- The flags that a goaway or a close may carry: known ones, and not both ways to close. -/
def closeFlagsAdmitted (flags : UInt16) : Bool :=
  flags &&& ~~~(closeFlagImmediate ||| closeFlagDrain ||| closeFlagNoNewRequests |||
      closeFlagNoNewTransfers) == 0 &&
    flags &&& (closeFlagImmediate ||| closeFlagDrain) != closeFlagImmediate ||| closeFlagDrain

/-- The announcement that a side is about to close. -/
structure GoAway where
  reasonCode : UInt32
  flags : UInt16
  drainTimeoutMillis : UInt32
  lastAcceptedRequestID : UInt64
  lastAcceptedTransferID : UInt64
  message : Bytes
  deriving DecidableEq, Repr

/-- The size of its payload. -/
def goAwayPayloadSize (message : Bytes) : ℕ :=
  saturatedInt (32 + message.length)

/-- The bytes from 6 to 8 are reserved; the message comes last. -/
def encodeGoAwayInto (dst : Bytes) (v : GoAway) : Except Err Bytes :=
  encodeTailed 32 "goaway message too large" dst
    [(0, be32 v.reasonCode), (4, be16 v.flags), (6, zeros 2), (8, be32 v.drainTimeoutMillis),
      (12, be64 v.lastAcceptedRequestID), (20, be64 v.lastAcceptedTransferID)] v.message

/-- Reads a goaway whose flags are admitted. -/
def decodeGoAway (payload : Bytes) : m GoAway :=
  decodeTailed 32 "goaway payload too small" "invalid goaway message length" payload
    fun message => do
      let flags ← word16 payload 4
      if !closeFlagsAdmitted flags || !zeroBytes (← Reads.slice payload 6 8) then
        Reads.fail "invalid goaway flags or reserved bytes"
      else
        return {
          reasonCode := ← word32 payload 0
          flags := flags
          drainTimeoutMillis := ← word32 payload 8
          lastAcceptedRequestID := ← word64 payload 12
          lastAcceptedTransferID := ← word64 payload 20
          message := message }

theorem decodeGoAway_encode {v : GoAway} (hflags : closeFlagsAdmitted v.flags)
    (h : 32 + v.message.length ≤ maxPayload) (dst : Bytes) :
    RoundTrip (encodeGoAwayInto dst v) (goAwayPayloadSize v.message) decodeGoAway v := by
  apply RoundTrip.tailed (by simp [Gapless]) (by simp) h
  simp (disch := simp) [hflags]

/-- The request to close. -/
structure CloseMessage where
  reasonCode : UInt32
  flags : UInt16
  drainTimeoutMillis : UInt32
  deriving DecidableEq, Repr

/-- Laid out as a goaway without a message. -/
def encodeCloseMessage (v : CloseMessage) : Bytes :=
  -- the bytes 6 and 7 stay as they were allocated
  fill (zeros 12) [(0, be32 v.reasonCode), (4, be16 v.flags), (8, be32 v.drainTimeoutMillis)]

/-- Reads a close whose flags are admitted. -/
def decodeCloseMessage (payload : Bytes) : m CloseMessage :=
  if payload.length ≠ 12 then
    Reads.fail "invalid close payload length"
  else do
    let flags ← word16 payload 4
    if !closeFlagsAdmitted flags || !zeroBytes (← Reads.slice payload 6 8) then
      Reads.fail "invalid close flags or reserved bytes"
    else
      return {
        reasonCode := ← word32 payload 0
        flags := flags
        drainTimeoutMillis := ← word32 payload 8 }

theorem encodeCloseMessage_bytes (v : CloseMessage) :
    encodeCloseMessage v =
      be32 v.reasonCode ++ (be16 v.flags ++ (zeros 2 ++ be32 v.drainTimeoutMillis)) := by
  rw [encodeCloseMessage, fill_eq_lay (by simp [Ascending])]
  simp [lay, zeros]

theorem decodeCloseMessage_encode {v : CloseMessage} (hflags : closeFlagsAdmitted v.flags) :
    RoundTrip (.ok (encodeCloseMessage v)) 12 decodeCloseMessage v := by
  refine ⟨_, rfl, ?_, ?_⟩ <;> rw [encodeCloseMessage_bytes]
  · simp
  · simp (disch := simp) [decodeCloseMessage, hflags]

/-! ## Windows -/

/-! The window is that of the session, or that of a transfer. -/

def windowFlagConnection : UInt16 := (1 : UInt16) <<< 0
def windowFlagTransfer : UInt16 := (1 : UInt16) <<< 1

/-- The bytes and chunks that the receiver has room for. -/
structure Window where
  transferID : UInt64
  windowBytes : UInt64
  windowChunks : UInt32
  flags : UInt16
  deriving DecidableEq, Repr

/-- The last two bytes are reserved. -/
def encodeWindowInto (dst : Bytes) (v : Window) : Bytes :=
  fill (buffer dst 24)
    [(0, be64 v.transferID), (8, be64 v.windowBytes), (16, be32 v.windowChunks),
      (20, be16 v.flags), (22, zeros 2)]

/-- The flags that a window may carry. -/
def windowFlagsAdmitted (flags : UInt16) : Bool :=
  flags == windowFlagConnection || flags == windowFlagTransfer

/-- Reads a window; the identifier of its transfer is not looked at. -/
def decodeWindow (payload : Bytes) : m Window :=
  if payload.length ≠ 24 then
    Reads.fail "invalid window payload length"
  else do
    let flags ← word16 payload 20
    if !windowFlagsAdmitted flags || !zeroBytes (← Reads.slice payload 22 24) then
      Reads.fail "invalid window flags or reserved bytes"
    else
      return {
        transferID := ← word64 payload 0
        windowBytes := ← word64 payload 8
        windowChunks := ← word32 payload 16
        flags := flags }

theorem encodeWindowInto_bytes (dst : Bytes) (v : Window) :
    encodeWindowInto dst v = be64 v.transferID ++ (be64 v.windowBytes ++ (be32 v.windowChunks ++
      (be16 v.flags ++ zeros 2))) := by
  rw [encodeWindowInto, fill_gapless (by simp [Gapless]) (by simp)]
  simp

theorem decodeWindow_encode {v : Window} (hflags : windowFlagsAdmitted v.flags) (dst : Bytes) :
    RoundTrip (.ok (encodeWindowInto dst v)) 24 decodeWindow v := by
  refine ⟨_, rfl, ?_, ?_⟩ <;> rw [encodeWindowInto_bytes]
  · simp
  · simp (disch := simp) [decodeWindow, hflags]

/-! ## Resumption and transfer states -/

/-- The request to go on with a transfer from `nextChunk` on. -/
structure TransferResume where
  transferID : UInt64
  receivedBytes : UInt64
  nextChunk : UInt32
  token : Bytes
  deriving DecidableEq, Repr

/-- The size of its payload. -/
def transferResumePayloadSize (token : Bytes) : ℕ :=
  saturatedInt (24 + token.length)

/-- The token comes last. -/
def encodeTransferResumeInto (dst : Bytes) (v : TransferResume) : Except Err Bytes :=
  encodeTailed 24 "resume token too large" dst
    [(0, be64 v.transferID), (8, be64 v.receivedBytes), (16, be32 v.nextChunk)] v.token

/-- Reads a request to resume. -/
def decodeTransferResume (payload : Bytes) : m TransferResume :=
  decodeTailed 24 "transfer resume payload too small" "invalid transfer resume token length" payload
    fun token => return {
        transferID := ← word64 payload 0
        receivedBytes := ← word64 payload 8
        nextChunk := ← word32 payload 16
        token := token }

theorem decodeTransferResume_encode {v : TransferResume} (h : 24 + v.token.length ≤ maxPayload)
    (dst : Bytes) :
    RoundTrip (encodeTransferResumeInto dst v) (transferResumePayloadSize v.token)
      decodeTransferResume v := by
  apply RoundTrip.tailed (by simp [Gapless]) (by simp) h
  simp (disch := simp)

/-- How far a transfer has come. -/
structure TransferStateMessage where
  transferID : UInt64
  receivedBytes : UInt64
  nextChunk : UInt32
  flags : UInt16
  reasonCode : UInt16
  deriving DecidableEq, Repr

/-- The fields without a gap. -/
def encodeTransferStateMessageInto (dst : Bytes) (v : TransferStateMessage) : Bytes :=
  fill (buffer dst 24)
    [(0, be64 v.transferID), (8, be64 v.receivedBytes), (16, be32 v.nextChunk),
      (20, be16 v.flags), (22, be16 v.reasonCode)]

/-- Reads a state; every flag and reason is accepted. -/
def decodeTransferStateMessage (payload : Bytes) : m TransferStateMessage :=
  if payload.length ≠ 24 then
    Reads.fail "invalid transfer state payload length"
  else do
    return {
      transferID := ← word64 payload 0
      receivedBytes := ← word64 payload 8
      nextChunk := ← word32 payload 16
      flags := ← word16 payload 20
      reasonCode := ← word16 payload 22 }

theorem encodeTransferStateMessageInto_bytes (dst : Bytes) (v : TransferStateMessage) :
    encodeTransferStateMessageInto dst v = be64 v.transferID ++ (be64 v.receivedBytes ++
      (be32 v.nextChunk ++ (be16 v.flags ++ be16 v.reasonCode))) := by
  rw [encodeTransferStateMessageInto, fill_gapless (by simp [Gapless]) (by simp)]
  simp

theorem decodeTransferStateMessage_encode (v : TransferStateMessage) (dst : Bytes) :
    RoundTrip (.ok (encodeTransferStateMessageInto dst v)) 24 decodeTransferStateMessage v := by
  refine ⟨_, rfl, ?_, ?_⟩ <;> rw [encodeTransferStateMessageInto_bytes]
  · simp
  · simp (disch := simp) [decodeTransferStateMessage]

/-! ## Authentication -/

/-- The credential of the client. -/
structure AuthRequest where
  method : UInt16
  flags : UInt16
  authSchemaID : UInt32
  payload : Bytes
  deriving DecidableEq, Repr

/-- The size of its payload. -/
def authRequestPayloadSize (v : AuthRequest) : ℕ :=
  saturatedInt (12 + v.payload.length)

/-- The credential comes last. -/
def encodeAuthRequestInto (dst : Bytes) (v : AuthRequest) : Except Err Bytes :=
  encodeTailed 12 "auth payload too large" dst
    [(0, be16 v.method), (2, be16 v.flags), (4, be32 v.authSchemaID)] v.payload

/-- Reads a credential. -/
def decodeAuthRequest (payload : Bytes) : m AuthRequest :=
  decodeTailed 12 "auth request payload too small" "invalid auth request payload length" payload
    fun inner => return {
        method := ← word16 payload 0
        flags := ← word16 payload 2
        authSchemaID := ← word32 payload 4
        payload := inner }

theorem decodeAuthRequest_encode {v : AuthRequest} (h : 12 + v.payload.length ≤ maxPayload)
    (dst : Bytes) :
    RoundTrip (encodeAuthRequestInto dst v) (authRequestPayloadSize v) decodeAuthRequest v := by
  apply RoundTrip.tailed (by simp [Gapless]) (by simp) h
  simp (disch := simp)

/-- The user that the server took the client for. -/
structure AuthAccept where
  userID : Bytes
  deriving DecidableEq, Repr

/-- The size of its payload. -/
def authAcceptPayloadSize (userID : Bytes) : ℕ :=
  saturatedInt (4 + userID.length)

/-- Only the name of the user. -/
def encodeAuthAcceptInto (dst : Bytes) (v : AuthAccept) : Except Err Bytes :=
  encodeTailed 4 "auth accept user id too large" dst [] v.userID

/-- Reads an acceptance. -/
def decodeAuthAccept (payload : Bytes) : m AuthAccept :=
  decodeTailed 4 "auth accept payload too small" "invalid auth accept user length" payload
    fun userID => return { userID := userID }

theorem decodeAuthAccept_encode {v : AuthAccept} (h : 4 + v.userID.length ≤ maxPayload)
    (dst : Bytes) :
    RoundTrip (encodeAuthAcceptInto dst v) (authAcceptPayloadSize v.userID) decodeAuthAccept v :=
  RoundTrip.tailed (by simp [Gapless]) rfl h rfl

/-- Why the server refused the client. -/
structure AuthReject where
  statusCode : UInt16
  reasonCode : UInt16
  message : Bytes
  deriving DecidableEq, Repr

/-- The size of its payload. -/
def authRejectPayloadSize (message : Bytes) : ℕ :=
  saturatedInt (8 + message.length)

/-- The message comes last. -/
def encodeAuthRejectInto (dst : Bytes) (v : AuthReject) : Except Err Bytes :=
  encodeTailed 8 "auth reject message too large" dst
    [(0, be16 v.statusCode), (2, be16 v.reasonCode)] v.message

/-- Reads a refusal. -/
def decodeAuthReject (payload : Bytes) : m AuthReject :=
  decodeTailed 8 "auth reject payload too small" "invalid auth reject message length" payload
    fun message => do
      return {
        statusCode := ← word16 payload 0
        reasonCode := ← word16 payload 2
        message := message }

theorem decodeAuthReject_encode {v : AuthReject} (h : 8 + v.message.length ≤ maxPayload)
    (dst : Bytes) :
    RoundTrip (encodeAuthRejectInto dst v) (authRejectPayloadSize v.message)
      decodeAuthReject v := by
  apply RoundTrip.tailed (by simp [Gapless]) (by simp) h
  simp (disch := simp)

/-! ## Acks, nacks and cancels -/

/-- The chunks that have arrived. -/
structure Ack where
  transferID : UInt64
  chunkFrom : UInt32
  chunkTo : UInt32
  receivedBytes : UInt64
  deriving DecidableEq, Repr

/-- The fields without a gap. -/
def encodeAck (v : Ack) : Bytes :=
  fill (zeros 24)
    [(0, be64 v.transferID), (8, be32 v.chunkFrom), (12, be32 v.chunkTo),
      (16, be64 v.receivedBytes)]

/-- Reads an ack; the range may be empty. -/
def decodeAck (payload : Bytes) : m Ack :=
  if payload.length ≠ 24 then
    Reads.fail "invalid ack payload length"
  else do
    return {
      transferID := ← word64 payload 0
      chunkFrom := ← word32 payload 8
      chunkTo := ← word32 payload 12
      receivedBytes := ← word64 payload 16 }

theorem encodeAck_bytes (v : Ack) :
    encodeAck v = be64 v.transferID ++ (be32 v.chunkFrom ++ (be32 v.chunkTo ++
      be64 v.receivedBytes)) := by
  rw [encodeAck, fill_gapless (by simp [Gapless]) (by simp)]
  simp

theorem decodeAck_encode (v : Ack) : RoundTrip (.ok (encodeAck v)) 24 decodeAck v := by
  refine ⟨_, rfl, ?_, ?_⟩ <;> rw [encodeAck_bytes]
  · simp
  · simp (disch := simp) [decodeAck]

/-! The first and the last of the reasons of a nack. -/

def nackMissingChunk : UInt16 := 1
def nackFlowControl : UInt16 := 7

/-- The chunks that are asked for again. -/
structure Nack where
  transferID : UInt64
  chunkFrom : UInt32
  chunkTo : UInt32
  reasonCode : UInt16
  flags : UInt16
  deriving DecidableEq, Repr

/-- The fields without a gap. -/
def encodeNack (v : Nack) : Bytes :=
  fill (zeros 20)
    [(0, be64 v.transferID), (8, be32 v.chunkFrom), (12, be32 v.chunkTo),
      (16, be16 v.reasonCode), (18, be16 v.flags)]

/-- Reads a nack of a known reason; it has no flags. -/
def decodeNack (payload : Bytes) : m Nack :=
  if payload.length ≠ 20 then
    Reads.fail "invalid nack payload length"
  else do
    let reason ← word16 payload 16
    if reason < nackMissingChunk ∨ reason > nackFlowControl ∨
        (← word16 payload 18) ≠ 0 then
      Reads.fail "invalid nack reason or flags"
    else
      return {
        transferID := ← word64 payload 0
        chunkFrom := ← word32 payload 8
        chunkTo := ← word32 payload 12
        reasonCode := reason
        flags := 0 }

theorem encodeNack_bytes (v : Nack) :
    encodeNack v = be64 v.transferID ++ (be32 v.chunkFrom ++ (be32 v.chunkTo ++
      (be16 v.reasonCode ++ be16 v.flags))) := by
  rw [encodeNack, fill_gapless (by simp [Gapless]) (by simp)]
  simp

theorem decodeNack_encode {v : Nack} (hlow : nackMissingChunk ≤ v.reasonCode)
    (hhigh : v.reasonCode ≤ nackFlowControl) (hflags : v.flags = 0) :
    RoundTrip (.ok (encodeNack v)) 20 decodeNack v := by
  refine ⟨_, rfl, ?_, ?_⟩ <;> rw [encodeNack_bytes]
  · simp
  · simp (disch := simp) [decodeNack, hlow, hhigh, ← hflags]

/-! The first and the last of the reasons of a cancel, and its flags. -/

def cancelUser : UInt16 := 1
def cancelProtocol : UInt16 := 5

def cancelDeletePartial : UInt16 := (1 : UInt16) <<< 0
def cancelSilent : UInt16 := (1 : UInt16) <<< 1

/-- The end of a transfer before it is complete. -/
structure Cancel where
  transferID : UInt64
  reasonCode : UInt16
  flags : UInt16
  deriving DecidableEq, Repr

/-- The fields without a gap. -/
def encodeCancel (v : Cancel) : Bytes :=
  fill (zeros 12) [(0, be64 v.transferID), (8, be16 v.reasonCode), (10, be16 v.flags)]

/-- Reads a cancel of a known reason and known flags. -/
def decodeCancel (payload : Bytes) : m Cancel :=
  if payload.length ≠ 12 then
    Reads.fail "invalid cancel payload length"
  else do
    let reason ← word16 payload 8
    let flags ← word16 payload 10
    if reason < cancelUser ∨ reason > cancelProtocol ∨
        flags &&& ~~~(cancelDeletePartial ||| cancelSilent) ≠ 0 then
      Reads.fail "invalid cancel reason or flags"
    else
      return {
        transferID := ← word64 payload 0
        reasonCode := reason
        flags := flags }

theorem encodeCancel_bytes (v : Cancel) :
    encodeCancel v = be64 v.transferID ++ (be16 v.reasonCode ++ be16 v.flags) := by
  rw [encodeCancel, fill_gapless (by simp [Gapless]) (by simp)]
  simp

theorem decodeCancel_encode {v : Cancel} (hlow : cancelUser ≤ v.reasonCode)
    (hhigh : v.reasonCode ≤ cancelProtocol)
    (hflags : v.flags &&& ~~~(cancelDeletePartial ||| cancelSilent) = 0) :
    RoundTrip (.ok (encodeCancel v)) 12 decodeCancel v := by
  refine ⟨_, rfl, ?_, ?_⟩ <;> rw [encodeCancel_bytes]
  · simp
  · simp (disch := simp) [decodeCancel, hlow, hhigh, hflags]

/-! The first and the last of the answers to a cancel. -/

def cancelAckOK : UInt8 := 1
def cancelAckCompleted : UInt8 := 3

/-- What became of a transfer that was cancelled. -/
structure CancelAck where
  transferID : UInt64
  status : UInt8
  deriving DecidableEq, Repr

/-- The last seven bytes are reserved. -/
def encodeCancelAck (v : CancelAck) : Bytes :=
  -- the bytes from 9 on stay as they were allocated
  fill (zeros 16) [(0, be64 v.transferID), (8, be8 v.status)]

/-- Reads the answer to a cancel. -/
def decodeCancelAck (payload : Bytes) : m CancelAck :=
  if payload.length ≠ 16 then
    Reads.fail "invalid cancel ack payload length"
  else do
    let status ← word8 payload 8
    if status < cancelAckOK ∨ status > cancelAckCompleted ∨
        !zeroBytes (← Reads.slice payload 9 16) then
      Reads.fail "invalid cancel ack status or reserved bytes"
    else
      return { transferID := ← word64 payload 0, status := status }

theorem encodeCancelAck_bytes (v : CancelAck) :
    encodeCancelAck v = be64 v.transferID ++ (be8 v.status ++ zeros 7) := by
  rw [encodeCancelAck, fill_eq_lay (by simp [Ascending])]
  simp [lay, zeros]

theorem decodeCancelAck_encode {v : CancelAck} (hlow : cancelAckOK ≤ v.status)
    (hhigh : v.status ≤ cancelAckCompleted) :
    RoundTrip (.ok (encodeCancelAck v)) 16 decodeCancelAck v := by
  refine ⟨_, rfl, ?_, ?_⟩ <;> rw [encodeCancelAck_bytes]
  · simp
  · simp (disch := simp) [decodeCancelAck, hlow, hhigh]

end Etp.Wire
