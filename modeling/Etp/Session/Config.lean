import Etp.Session.Programs
import Etp.Wire.Payload
import Etp.Writer

/-!
# The configuration of a session

A configuration is normalised before a session uses it: fields that were not set get their
defaults, and those that depend on one another are cut to fit. The application does so once
(`New`), and every session does so again.

* `normalizeSessionConfig`: field by field as in the source, where the order only matters
  for the limits on frames, which come before those on chunks and bodies;
* `normalize_normal`: the limits that every normalised configuration meets;
* `normalized_shakes_hands_iff`: a session with a normalised configuration shakes hands, unless
  its frames are too small for chunks or for the default before the handshake, or the number of
  its chunks in flight is lost when it is advertised (`cannot_shake_hands`);
* `normalize_idempotent_iff`: the second normalisation changes nothing, unless the first has
  left no capabilities (`normalize_twice_differs`);
* `authenticated_fits_iff`: a credential that the client sends is not too large for the server,
  if it leaves room for the fields before it (`credential_too_large`).
-/

namespace Etp.Session

/-! ## Configurations -/

/-- A duration of one millisecond; durations are in nanoseconds. -/
def millisecond : ℕ := 1000000

def second : ℕ := 1000 * millisecond

/-- `maxHeartbeatWire`: the longest interval that can be advertised. -/
def maxHeartbeatWire : ℤ := (2 ^ 32 - 1) * millisecond

structure FlowControlConfig where
  maxConcurrentTransfers : ℤ := 0
  maxInFlightChunks : ℤ := 0
  maxInFlightBytes : ℕ := 0
  maxSendBufferBytes : ℕ := 0
  maxReceiveBufferBytes : ℕ := 0
  ackTimeout : ℤ := 0
  retryLimit : ℤ := 0
  maxTransferBytes : ℕ := 0
  maxChunkSize : ℤ := 0
  maxCompletedTransfers : ℤ := 0
  completedTransferTTL : ℤ := 0
  transferOpenTimeout : ℤ := 0
  transferCommitTimeout : ℤ := 0
  deriving DecidableEq, Repr

structure HeartbeatConfig where
  interval : ℤ := 0
  timeout : ℤ := 0
  deriving DecidableEq, Repr

/-- `handler` says that there is a handler. -/
structure AuthConfig where
  required : Bool := false
  timeout : ℤ := 0
  maxPayloadBytes : ℕ := 0
  handler : Bool := false
  deriving DecidableEq, Repr

structure RateLimitConfig where
  maxFramesPerSecond : ℤ := 0
  maxBytesPerSecond : ℕ := 0
  deriving DecidableEq, Repr

structure PayloadLimitConfig where
  maxFrameBytes : ℕ := 0
  preHandshakeBytes : ℕ := 0
  maxTextBytes : ℕ := 0
  maxRequestBytes : ℕ := 0
  maxResponseBytes : ℕ := 0
  maxInlineBodyBytes : ℕ := 0
  deriving DecidableEq, Repr

structure SendQueueConfig extends Etp.SendQueueConfig where
  enabled := false
  maxFrames := 0
  maxBytes := 0
  enqueueTimeout : ℤ := 0
  writeTimeout : ℤ := 0
  deriving DecidableEq, Repr

structure HandlerConfig where
  workers : ℤ := 0
  queue : ℤ := 0
  deriving DecidableEq, Repr

/-- The configuration of a session, up to the handlers and stores of the application, which
    are not normalised. A field that was not set is zero. Integers stand for those of a
    machine: nothing here leaves their range but where it is converted. -/
structure SessionConfig where
  role : String := ""
  capabilities : ℕ := 0
  flowControl : FlowControlConfig := {}
  heartbeat : HeartbeatConfig := {}
  auth : AuthConfig := {}
  rateLimit : RateLimitConfig := {}
  scheduler : Bool := false
  payload : PayloadLimitConfig := {}
  sendQueue : SendQueueConfig := {}
  handlers : HandlerConfig := {}
  closeAckTimeout : ℤ := 0
  deriving DecidableEq, Repr

/-- `DefaultSessionConfig`: a role that is neither becomes that of a client. -/
def defaultSessionConfig (role : String) : SessionConfig where
  role := if role ≠ Role.server.name ∧ role ≠ Role.client.name then Role.client.name else role
  capabilities := defaultCapabilities
  flowControl :=
    { maxConcurrentTransfers := 8
      maxInFlightChunks := 16
      maxInFlightBytes := 8 <<< 20
      maxSendBufferBytes := 16 <<< 20
      maxReceiveBufferBytes := 32 <<< 20
      ackTimeout := 3 * second
      retryLimit := 3
      maxTransferBytes := 512 <<< 20
      maxChunkSize := 64 * 1024
      maxCompletedTransfers := 1024
      completedTransferTTL := 60 * second
      transferOpenTimeout := 5 * second
      transferCommitTimeout := 30 * second }
  heartbeat := { interval := 10 * second, timeout := 20 * second }
  auth := { timeout := 5 * second, maxPayloadBytes := 16 <<< 10 }
  rateLimit := { maxFramesPerSecond := 4096, maxBytesPerSecond := 64 <<< 20 }
  scheduler := true
  payload :=
    { maxFrameBytes := maxFrameBytes
      preHandshakeBytes := 64 <<< 10
      maxTextBytes := 1 <<< 20
      maxRequestBytes := 1 <<< 20
      maxResponseBytes := 1 <<< 20
      maxInlineBodyBytes := 64 <<< 10 }
  sendQueue :=
    { enabled := true
      maxFrames := 4096
      maxBytes := 16 <<< 20
      enqueueTimeout := 2 * second
      writeTimeout := 5 * second }
  handlers := { workers := 1, queue := 64 }
  closeAckTimeout := 2 * second

/-! ## Normalisation -/

/-- A number or a duration, with a default for all that are not positive. -/
def positiveOr (d x : ℤ) : ℤ := if x ≤ 0 then d else x

/-- A size, with a default for zero. -/
def nonzeroOr {α : Type} [Zero α] [DecidableEq α] (d x : α) : α := if x = 0 then d else x

/-- The defaults of `FlowControlConfig`. -/
def normalizeFlowControl (d f : FlowControlConfig) : FlowControlConfig where
  maxConcurrentTransfers := positiveOr d.maxConcurrentTransfers f.maxConcurrentTransfers
  maxInFlightChunks := positiveOr d.maxInFlightChunks f.maxInFlightChunks
  maxInFlightBytes := nonzeroOr d.maxInFlightBytes f.maxInFlightBytes
  maxSendBufferBytes := nonzeroOr d.maxSendBufferBytes f.maxSendBufferBytes
  maxReceiveBufferBytes := nonzeroOr d.maxReceiveBufferBytes f.maxReceiveBufferBytes
  ackTimeout := positiveOr d.ackTimeout f.ackTimeout
  retryLimit := positiveOr d.retryLimit f.retryLimit
  maxTransferBytes := nonzeroOr d.maxTransferBytes f.maxTransferBytes
  maxChunkSize := positiveOr d.maxChunkSize f.maxChunkSize
  maxCompletedTransfers := positiveOr d.maxCompletedTransfers f.maxCompletedTransfers
  completedTransferTTL := positiveOr d.completedTransferTTL f.completedTransferTTL
  transferOpenTimeout := positiveOr d.transferOpenTimeout f.transferOpenTimeout
  transferCommitTimeout := positiveOr d.transferCommitTimeout f.transferCommitTimeout

/-- The interval is brought into the range of the wire. -/
def normalizeInterval (d x : ℤ) : ℤ :=
  let x := positiveOr d x
  let x : ℤ := if x < millisecond then millisecond else x
  if maxHeartbeatWire < x then maxHeartbeatWire else x

def normalizeHeartbeat (d h : HeartbeatConfig) : HeartbeatConfig :=
  let interval := normalizeInterval d.interval h.interval
  let timeout := positiveOr d.timeout h.timeout
  { interval, timeout := if timeout ≤ interval then interval * 2 else timeout }

def normalizeAuth (d a : AuthConfig) : AuthConfig :=
  { a with
    timeout := positiveOr d.timeout a.timeout
    maxPayloadBytes := nonzeroOr d.maxPayloadBytes a.maxPayloadBytes }

def normalizeRateLimit (d r : RateLimitConfig) : RateLimitConfig where
  maxFramesPerSecond := positiveOr d.maxFramesPerSecond r.maxFramesPerSecond
  maxBytesPerSecond := nonzeroOr d.maxBytesPerSecond r.maxBytesPerSecond

/-- A size with a default outside the sizes from that of a header to `max`. -/
def frameLimit (d max x : ℕ) : ℕ := if x < headerSize ∨ max < x then d else x

/-- The bound on bodies within requests and responses: those of both, and of a frame. -/
def maxInline (request response frame : ℕ) : ℕ :=
  let inline := if response < request then response else request
  if frame - headerSize < inline then frame - headerSize else inline

def normalizePayload (d p : PayloadLimitConfig) : PayloadLimitConfig :=
  let frame := frameLimit d.maxFrameBytes maxFrameBytes p.maxFrameBytes
  let request := nonzeroOr d.maxRequestBytes p.maxRequestBytes
  let response := nonzeroOr d.maxResponseBytes p.maxResponseBytes
  let inline := nonzeroOr d.maxInlineBodyBytes p.maxInlineBodyBytes
  { maxFrameBytes := frame
    preHandshakeBytes := frameLimit d.preHandshakeBytes frame p.preHandshakeBytes
    maxTextBytes := nonzeroOr d.maxTextBytes p.maxTextBytes
    maxRequestBytes := request
    maxResponseBytes := response
    maxInlineBodyBytes :=
      if maxInline request response frame < inline then maxInline request response frame
      else inline }

/-- A size of chunks is cut to a number of bytes. -/
def cutChunk (max : ℕ) (chunk : ℤ) : ℤ :=
  if 0 < max ∧ max < (chunk % 2 ^ 64).toNat then max else chunk

/-- The size of chunks is cut to the payload of a frame and to the buffers, and is at least
    one byte. -/
def clampChunkSize (frame : ℕ) (f : FlowControlConfig) : FlowControlConfig :=
  let chunk : ℤ := f.maxChunkSize
  let chunk := if (frame : ℤ) - headerSize < chunk then (frame : ℤ) - headerSize else chunk
  let chunk := cutChunk f.maxInFlightBytes chunk
  let chunk := cutChunk f.maxSendBufferBytes chunk
  let chunk := cutChunk f.maxReceiveBufferBytes chunk
  { f with maxChunkSize := if chunk ≤ 0 then 1 else chunk }

/-- The queue is used by default, if nothing was set. -/
def normalizeSendQueue (d q : SendQueueConfig) : SendQueueConfig where
  enabled :=
    if q.enabled = false ∧ q.maxFrames = 0 ∧ q.maxBytes = 0 ∧ q.enqueueTimeout = 0 ∧
      q.writeTimeout = 0 then d.enabled else q.enabled
  maxFrames := nonzeroOr d.maxFrames q.maxFrames
  maxBytes := nonzeroOr d.maxBytes q.maxBytes
  enqueueTimeout := positiveOr d.enqueueTimeout q.enqueueTimeout
  writeTimeout := positiveOr d.writeTimeout q.writeTimeout

def normalizeHandlers (d h : HandlerConfig) : HandlerConfig where
  workers := positiveOr d.workers h.workers
  queue := positiveOr d.queue h.queue

/-- `normalizeSessionConfig`. -/
def normalizeSessionConfig (c : SessionConfig) : SessionConfig :=
  let d := defaultSessionConfig c.role
  let payload := normalizePayload d.payload c.payload
  { role := d.role
    capabilities := nonzeroOr d.capabilities c.capabilities &&& allCapabilities
    flowControl :=
      clampChunkSize payload.maxFrameBytes (normalizeFlowControl d.flowControl c.flowControl)
    heartbeat := normalizeHeartbeat d.heartbeat c.heartbeat
    auth := normalizeAuth d.auth c.auth
    rateLimit := normalizeRateLimit d.rateLimit c.rateLimit
    scheduler := c.scheduler
    payload
    sendQueue := normalizeSendQueue d.sendQueue c.sendQueue
    handlers := normalizeHandlers d.handlers c.handlers
    closeAckTimeout := positiveOr d.closeAckTimeout c.closeAckTimeout }

/-- `hello`: the numbers are converted to those of the wire. -/
def SessionConfig.hello (c : SessionConfig) (role : String) : Hello where
  role := if role = "" then c.role else role
  capabilities := c.capabilities
  maxFrameBytes := c.payload.maxFrameBytes
  maxChunkSize := (c.flowControl.maxChunkSize % 2 ^ 32).toNat
  maxTransferBytes := c.flowControl.maxTransferBytes
  maxInFlightChunks := (c.flowControl.maxInFlightChunks % 2 ^ 32).toNat
  heartbeatMillis := (c.heartbeat.interval / millisecond % 2 ^ 32).toNat

/-- What the procedures of a session read of its configuration. -/
def SessionConfig.session (c : SessionConfig) : Config where
  role := if c.role = Role.server.name then .server else .client
  capabilities := c.capabilities
  authRequired := c.auth.required
  authHandler := c.auth.handler
  maxAuthPayload := c.auth.maxPayloadBytes
  preHandshakeBytes := c.payload.preHandshakeBytes
  maxFrameBytes := c.payload.maxFrameBytes
  sendQueue := c.sendQueue.enabled

/-! ## Fields -/

section Fields

variable {d x : ℤ}

theorem positiveOr_pos (hd : 0 < d) : 0 < positiveOr d x := by
  rw [positiveOr]
  split
  · exact hd
  · omega

theorem positiveOr_of_pos (hx : 0 < x) : positiveOr d x = x := if_neg (by omega)

@[simp] theorem positiveOr_idem (d x : ℤ) : positiveOr d (positiveOr d x) = positiveOr d x := by
  by_cases hx : x ≤ 0
  · simp only [positiveOr, hx, if_true, ite_self]
  · simp only [positiveOr, hx, if_false]

theorem nonzeroOr_pos {d x : ℕ} (hd : 0 < d) : 0 < nonzeroOr d x := by
  rw [nonzeroOr]
  split
  · exact hd
  · omega

@[simp] theorem nonzeroOr_idem {α : Type} [Zero α] [DecidableEq α] (d x : α) :
    nonzeroOr d (nonzeroOr d x) = nonzeroOr d x := by
  by_cases hx : x = 0
  · simp only [nonzeroOr, hx, if_true, ite_self]
  · simp only [nonzeroOr, hx, if_false]

theorem nonzeroOr_of_ne {α : Type} [Zero α] [DecidableEq α] {d x : α} (hx : x ≠ 0) :
    nonzeroOr d x = x := if_neg hx

end Fields

/-- The limit on frames: its default is the largest. -/
theorem frameLimit_bounds (x : ℕ) :
    headerSize ≤ frameLimit maxFrameBytes maxFrameBytes x ∧
      frameLimit maxFrameBytes maxFrameBytes x ≤ maxFrameBytes := by
  rw [frameLimit]
  split
  · decide
  · omega

theorem frameLimit_ge {d max x : ℕ} (hd : headerSize ≤ d) : headerSize ≤ frameLimit d max x := by
  rw [frameLimit]
  split
  · exact hd
  · omega

theorem frameLimit_le {d max x : ℕ} (h : d ≤ max ∨ headerSize ≤ x ∧ x ≤ max) :
    frameLimit d max x ≤ max := by
  rw [frameLimit]
  split <;> omega

@[simp] theorem frameLimit_idem (d max x : ℕ) :
    frameLimit d max (frameLimit d max x) = frameLimit d max x := by
  by_cases hx : x < headerSize ∨ max < x
  · simp only [frameLimit, hx, if_true, ite_self]
  · simp only [frameLimit, hx, if_false]

theorem maxInline_eq (request response frame : ℕ) :
    maxInline request response frame = min (min request response) (frame - headerSize) := by
  simp only [maxInline]
  split <;> split <;> omega

/-- The interval is within the range of the wire. -/
theorem normalizeInterval_bounds (d x : ℤ) :
    millisecond ≤ normalizeInterval d x ∧ normalizeInterval d x ≤ maxHeartbeatWire := by
  have hle : millisecond ≤ maxHeartbeatWire := by decide
  simp only [normalizeInterval]
  split <;> split <;> omega

theorem normalizeInterval_of_bounds {d x : ℤ} (hmin : millisecond ≤ x)
    (hmax : x ≤ maxHeartbeatWire) : normalizeInterval d x = x := by
  have hpos : 0 < x := by
    have : (0 : ℤ) < millisecond := by decide
    omega
  simp only [normalizeInterval, positiveOr_of_pos hpos]
  rw [if_neg (show ¬x < millisecond by omega), if_neg (by omega)]

/-- Chunks are cut to a buffer that is not empty. -/
theorem cutChunk_eq {max : ℕ} {chunk : ℤ} (hmax : 0 < max) (hpos : 0 ≤ chunk)
    (hlt : chunk < 2 ^ 64) : cutChunk max chunk = min chunk max := by
  rw [cutChunk, Int.emod_eq_of_lt hpos hlt]
  split <;> omega

/-- The bound on the size of chunks. -/
def chunkBound (frame : ℕ) (f : FlowControlConfig) : ℤ :=
  min ((frame : ℤ) - headerSize)
    (min f.maxInFlightBytes (min f.maxSendBufferBytes f.maxReceiveBufferBytes))

/-- The buffers that chunks are cut to are not empty. -/
structure FlowControlConfig.Usable (f : FlowControlConfig) : Prop where
  chunk_pos : 0 < f.maxChunkSize
  inFlight_pos : 0 < f.maxInFlightBytes
  send_pos : 0 < f.maxSendBufferBytes
  receive_pos : 0 < f.maxReceiveBufferBytes

theorem clampChunkSize_eq {frame : ℕ} {f : FlowControlConfig} (hf : f.Usable)
    (hmin : headerSize ≤ frame) (hmax : frame ≤ maxFrameBytes) :
    clampChunkSize frame f =
      { f with maxChunkSize := max 1 (min f.maxChunkSize (chunkBound frame f)) } := by
  obtain ⟨hchunk, hin, hsend, hreceive⟩ := hf
  have hheader : headerSize = 40 := rfl
  have hframe : maxFrameBytes = 8388608 := rfl
  -- every cut is of a chunk that fits into a frame
  have hcut : (if (frame : ℤ) - headerSize < f.maxChunkSize then (frame : ℤ) - headerSize
      else f.maxChunkSize) = min f.maxChunkSize ((frame : ℤ) - headerSize) := by
    split <;> omega
  simp only [clampChunkSize, hcut]
  rw [cutChunk_eq hin (by omega) (by omega), cutChunk_eq hsend (by omega) (by omega),
    cutChunk_eq hreceive (by omega) (by omega)]
  congr 1
  have hassoc : min (min (min (min f.maxChunkSize ((frame : ℤ) - headerSize)) f.maxInFlightBytes)
      f.maxSendBufferBytes) f.maxReceiveBufferBytes = min f.maxChunkSize (chunkBound frame f) := by
    simp only [chunkBound, min_assoc]
  rw [hassoc]
  split <;> omega

/-! ## The limits of a normalised configuration -/

theorem usable_normalize (role : String) (f : FlowControlConfig) :
    (normalizeFlowControl (defaultSessionConfig role).flowControl f).Usable where
  chunk_pos := positiveOr_pos (show (0 : ℤ) < 64 * 1024 by decide)
  inFlight_pos := nonzeroOr_pos (show 0 < 8 <<< 20 by decide)
  send_pos := nonzeroOr_pos (show 0 < 16 <<< 20 by decide)
  receive_pos := nonzeroOr_pos (show 0 < 32 <<< 20 by decide)

/-- What normalising makes of a configuration, whatever was set. Chunks are of one byte at least,
    and the limit before the handshake is one of a frame, if not always of this configuration. -/
structure SessionConfig.Normal (n : SessionConfig) : Prop where
  frame_ge : headerSize ≤ n.payload.maxFrameBytes
  frame_le : n.payload.maxFrameBytes ≤ maxFrameBytes
  preHandshake_ge : headerSize ≤ n.payload.preHandshakeBytes
  preHandshake_le : n.payload.preHandshakeBytes ≤ maxFrameBytes
  inline_le : n.payload.maxInlineBodyBytes ≤
    min (min n.payload.maxRequestBytes n.payload.maxResponseBytes)
      (n.payload.maxFrameBytes - headerSize)
  capabilities : n.capabilities &&& allCapabilities = n.capabilities
  usable : n.flowControl.Usable
  chunk_le : n.flowControl.maxChunkSize ≤ max 1 (chunkBound n.payload.maxFrameBytes n.flowControl)
  inFlightChunks_pos : 0 < n.flowControl.maxInFlightChunks
  transfer_pos : 0 < n.flowControl.maxTransferBytes
  interval_ge : millisecond ≤ n.heartbeat.interval
  interval_le : n.heartbeat.interval ≤ maxHeartbeatWire
  interval_lt : n.heartbeat.interval < n.heartbeat.timeout

theorem normalizeHeartbeat_lt (d h : HeartbeatConfig) :
    (normalizeHeartbeat d h).interval < (normalizeHeartbeat d h).timeout := by
  have hpos := (show (0 : ℤ) < millisecond by decide).trans_le
    (normalizeInterval_bounds d.interval h.interval).1
  simp only [normalizeHeartbeat]
  split <;> omega

theorem normalize_normal (c : SessionConfig) : (normalizeSessionConfig c).Normal := by
  obtain ⟨hmin, hmax⟩ := frameLimit_bounds c.payload.maxFrameBytes
  have husable := usable_normalize c.role c.flowControl
  have hclamp : (normalizeSessionConfig c).flowControl = _ := clampChunkSize_eq husable hmin hmax
  exact
    { frame_ge := hmin
      frame_le := hmax
      preHandshake_ge := frameLimit_ge (show headerSize ≤ 64 <<< 10 by decide)
      preHandshake_le := by
        simp only [normalizeSessionConfig, normalizePayload, defaultSessionConfig]
        rw [frameLimit]
        split
        · decide
        · omega
      inline_le := by
        simp only [normalizeSessionConfig, normalizePayload, ← maxInline_eq]
        split <;> omega
      capabilities := by rw [normalizeSessionConfig, Nat.and_assoc, Nat.and_self]
      usable := by
        rw [hclamp]
        exact { husable with chunk_pos := by dsimp only; omega }
      chunk_le := by
        rw [hclamp]
        exact max_le_max_left 1 (min_le_right _ _)
      inFlightChunks_pos := positiveOr_pos (show (0 : ℤ) < 16 by decide)
      transfer_pos := nonzeroOr_pos (show 0 < 512 <<< 20 by decide)
      interval_ge := (normalizeInterval_bounds _ _).1
      interval_le := (normalizeInterval_bounds _ _).2
      interval_lt := normalizeHeartbeat_lt _ _ }

namespace SessionConfig.Normal

variable {n : SessionConfig} (h : n.Normal)

include h

theorem chunk_bounds : 0 < n.flowControl.maxChunkSize ∧ n.flowControl.maxChunkSize < 2 ^ 32 := by
  have hchunk := h.chunk_le
  have hframe := h.frame_le
  have hmax : maxFrameBytes = 8388608 := rfl
  rw [chunkBound] at hchunk
  exact ⟨h.usable.chunk_pos, by omega⟩

/-- A chunk is within the bytes in flight, and within both buffers. -/
theorem chunk_within : n.flowControl.maxChunkSize ≤ n.flowControl.maxInFlightBytes ∧
    n.flowControl.maxChunkSize ≤ n.flowControl.maxSendBufferBytes ∧
    n.flowControl.maxChunkSize ≤ n.flowControl.maxReceiveBufferBytes := by
  have hchunk := h.chunk_le
  obtain ⟨-, hin, hsend, hreceive⟩ := h.usable
  rw [chunkBound] at hchunk
  omega

/-- The interval of the heartbeat as it is advertised. -/
theorem hello_heartbeat_ne (role : String) : (n.hello role).heartbeatMillis ≠ 0 := by
  have hmin := h.interval_ge
  have hmax := h.interval_le
  have hms : millisecond = 1000000 := rfl
  have hwire : maxHeartbeatWire = 4294967295 * 1000000 := by decide
  simp only [SessionConfig.hello]
  rw [hms] at hmin ⊢
  omega

end SessionConfig.Normal

/-- The limits of a configuration that its sessions rely on. -/
structure SessionConfig.Bounded (n : SessionConfig) : Prop where
  preHandshake_ge : headerSize ≤ n.payload.preHandshakeBytes
  preHandshake_le : n.payload.preHandshakeBytes ≤ n.payload.maxFrameBytes
  frame_le : n.payload.maxFrameBytes ≤ 8 <<< 20
  chunk_pos : 1 ≤ n.flowControl.maxChunkSize
  chunk_frame : n.flowControl.maxChunkSize ≤ (n.payload.maxFrameBytes : ℤ) - headerSize
  chunk_inFlight : n.flowControl.maxChunkSize ≤ n.flowControl.maxInFlightBytes
  chunk_send : n.flowControl.maxChunkSize ≤ n.flowControl.maxSendBufferBytes
  chunk_receive : n.flowControl.maxChunkSize ≤ n.flowControl.maxReceiveBufferBytes
  inline_le : n.payload.maxInlineBodyBytes ≤
    min (min n.payload.maxRequestBytes n.payload.maxResponseBytes)
      (n.payload.maxFrameBytes - headerSize)
  interval_ge : millisecond ≤ n.heartbeat.interval
  interval_le : n.heartbeat.interval ≤ (2 ^ 32 - 1) * millisecond
  interval_lt : n.heartbeat.interval < n.heartbeat.timeout

/-- The peer that expects the role of the hello accepts it, whatever role was asked for. -/
def SessionConfig.ShakesHands (n : SessionConfig) : Prop :=
  ∀ role expected, (n.hello role).role = Role.name expected →
    checkRemoteHello (n.hello role) expected = none

/-- Frames have room for a byte besides their header, and for what comes before the
    handshake; the number of chunks in flight is not a multiple of `2 ^ 32`. -/
structure SessionConfig.Roomy (c : SessionConfig) : Prop where
  frame_ne : c.payload.maxFrameBytes ≠ headerSize
  preHandshake :
    64 <<< 10 ≤ frameLimit maxFrameBytes maxFrameBytes c.payload.maxFrameBytes ∨
      headerSize ≤ c.payload.preHandshakeBytes ∧
        c.payload.preHandshakeBytes ≤ frameLimit maxFrameBytes maxFrameBytes c.payload.maxFrameBytes
  chunks : c.flowControl.maxInFlightChunks ≤ 0 ∨ c.flowControl.maxInFlightChunks % 2 ^ 32 ≠ 0

instance (c : SessionConfig) : Decidable c.Roomy :=
  decidable_of_iff (_ ∧ _ ∧ _) ⟨fun ⟨h₁, h₂, h₃⟩ => ⟨h₁, h₂, h₃⟩, fun h => ⟨h.1, h.2, h.3⟩⟩

section Roomy

variable {c : SessionConfig}

theorem SessionConfig.Roomy.frame_lt (h : c.Roomy) :
    headerSize < (normalizeSessionConfig c).payload.maxFrameBytes := by
  have hne := h.frame_ne
  simp only [normalizeSessionConfig, normalizePayload, defaultSessionConfig]
  rw [frameLimit]
  split
  · decide
  · omega

theorem normalized_bounded (h : c.Roomy) : (normalizeSessionConfig c).Bounded := by
  have hn := normalize_normal c
  have hframe := h.frame_lt
  have hchunk := hn.chunk_le
  obtain ⟨hin, hsend, hreceive⟩ := hn.chunk_within
  rw [chunkBound] at hchunk
  exact
    { hn with
      preHandshake_le := frameLimit_le h.preHandshake
      chunk_pos := hn.usable.chunk_pos
      chunk_frame := by omega
      chunk_inFlight := hin
      chunk_send := hsend
      chunk_receive := hreceive }

/-- The number of chunks in flight as it is advertised. -/
theorem SessionConfig.Roomy.inFlightChunks_ne (h : c.Roomy) (role : String) :
    ((normalizeSessionConfig c).hello role).maxInFlightChunks ≠ 0 := by
  have hne : (normalizeSessionConfig c).flowControl.maxInFlightChunks % 2 ^ 32 ≠ 0 := by
    have hdefault : (16 : ℤ) % 2 ^ 32 ≠ 0 := by decide
    have hchunks := h.chunks
    simp only [normalizeSessionConfig, clampChunkSize, normalizeFlowControl, defaultSessionConfig,
      positiveOr]
    split
    · exact hdefault
    · omega
  simp only [SessionConfig.hello]
  omega

theorem SessionConfig.Roomy.shakesHands (h : c.Roomy) :
    (normalizeSessionConfig c).ShakesHands := by
  intro role expected hrole
  have hn := normalize_normal c
  have hframe := h.frame_lt
  have hmax := hn.frame_le
  have hpos := hn.usable.chunk_pos
  have hfits := (normalized_bounded h).chunk_frame
  have hinflight := h.inFlightChunks_ne role
  have hbeat := hn.hello_heartbeat_ne role
  have htransfer := hn.transfer_pos
  generalize normalizeSessionConfig c = n at *
  have hchunk : ((n.hello role).maxChunkSize : ℤ) = n.flowControl.maxChunkSize := by
    have hmax : maxFrameBytes = 8388608 := rfl
    simp only [SessionConfig.hello]
    omega
  have hcaps : (n.hello role).capabilities &&& allCapabilities = (n.hello role).capabilities :=
    hn.capabilities
  rw [checkRemoteHello, if_neg (not_not.mpr hrole), if_neg (not_not.mpr hcaps), if_neg]
  rintro (h' | h' | h' | h' | h' | h' | h')
  · exact absurd h' (not_lt.mpr hn.frame_ge)
  · exact absurd h' (not_lt.mpr hmax)
  · omega
  · exact absurd h' (by simp only [SessionConfig.hello] at hchunk ⊢; omega)
  · exact absurd h' htransfer.ne'
  · exact hinflight h'
  · exact hbeat h'

/-- Limits that are met leave room in a frame, and for what comes before the handshake. -/
theorem SessionConfig.Bounded.roomy_payload (h : (normalizeSessionConfig c).Bounded) :
    c.payload.maxFrameBytes ≠ headerSize ∧
      (64 <<< 10 ≤ frameLimit maxFrameBytes maxFrameBytes c.payload.maxFrameBytes ∨
        headerSize ≤ c.payload.preHandshakeBytes ∧ c.payload.preHandshakeBytes ≤
          frameLimit maxFrameBytes maxFrameBytes c.payload.maxFrameBytes) := by
  constructor
  · intro heq
    have hframe : (normalizeSessionConfig c).payload.maxFrameBytes = headerSize := by
      show frameLimit maxFrameBytes maxFrameBytes c.payload.maxFrameBytes = headerSize
      rw [heq]
      decide
    have hpos := h.chunk_pos
    have hfits := h.chunk_frame
    rw [hframe] at hfits
    omega
  · have hle : frameLimit (64 <<< 10) (frameLimit maxFrameBytes maxFrameBytes
        c.payload.maxFrameBytes) c.payload.preHandshakeBytes ≤
        frameLimit maxFrameBytes maxFrameBytes c.payload.maxFrameBytes := h.preHandshake_le
    -- a limit out of range is replaced by the default, which has to fit itself
    by_contra hbad
    push Not at hbad
    rw [frameLimit, if_pos] at hle
    · omega
    · by_contra hrange
      push Not at hrange
      exact absurd (hbad.2 hrange.1) (not_lt.mpr hrange.2)

/-- A peer that accepts the hello was told of chunks in flight. -/
theorem SessionConfig.ShakesHands.roomy_chunks (h : (normalizeSessionConfig c).ShakesHands) :
    c.flowControl.maxInFlightChunks ≤ 0 ∨ c.flowControl.maxInFlightChunks % 2 ^ 32 ≠ 0 := by
  by_contra hbad
  push Not at hbad
  have hzero : ((normalizeSessionConfig c).hello Role.client.name).maxInFlightChunks = 0 := by
    have hchunks : (normalizeSessionConfig c).flowControl.maxInFlightChunks =
        c.flowControl.maxInFlightChunks := if_neg (not_le.mpr hbad.1)
    simp only [SessionConfig.hello]
    omega
  have hok := h Role.client.name .client rfl
  rw [checkRemoteHello] at hok
  split_ifs at hok with h₁ h₂ h₃
  exact h₃ (.inr (.inr (.inr (.inr (.inr (.inl hzero))))))

/-- A normalised configuration meets its limits and can shake hands exactly where it has room
    for a handshake. -/
theorem normalized_shakes_hands_iff (c : SessionConfig) :
    (normalizeSessionConfig c).ShakesHands ∧ (normalizeSessionConfig c).Bounded ↔ c.Roomy :=
  ⟨fun ⟨hshakes, hbounded⟩ =>
      ⟨hbounded.roomy_payload.1, hbounded.roomy_payload.2, hshakes.roomy_chunks⟩,
    fun h => ⟨h.shakesHands, normalized_bounded h⟩⟩

/-- Frames of 4096 bytes are smaller than the default before the handshake, chunks do not
    fit into frames of 40 bytes, and `2 ^ 32` chunks in flight are advertised as none. -/
theorem cannot_shake_hands :
    ¬(normalizeSessionConfig { payload := { maxFrameBytes := 4096 } }).Bounded ∧
    ¬(normalizeSessionConfig { payload := { maxFrameBytes := 40 } }).ShakesHands ∧
    ¬(normalizeSessionConfig { flowControl := { maxInFlightChunks := 2 ^ 32 } }).ShakesHands := by
  refine ⟨fun h => absurd h.preHandshake_le (by decide), fun h => ?_, fun h => ?_⟩
  · exact absurd (h "" .client rfl) (by decide)
  · exact absurd (h "" .client rfl) (by decide)

end Roomy

/-! ## Normalising twice -/

/-- The defaults are those of the role, and the role that they have keeps them. -/
@[simp] theorem defaultSessionConfig_role (role : String) :
    defaultSessionConfig (defaultSessionConfig role).role = defaultSessionConfig role := by
  by_cases hrole : role ≠ Role.server.name ∧ role ≠ Role.client.name
  · simp only [defaultSessionConfig, if_pos hrole]
    decide
  · simp only [defaultSessionConfig, if_neg hrole]

/-- Only the size of chunks is set to something else than a default. -/
theorem normalizeFlowControl_chunk (d f : FlowControlConfig) {n : ℤ} (hn : 0 < n) :
    normalizeFlowControl d { normalizeFlowControl d f with maxChunkSize := n } =
      { normalizeFlowControl d f with maxChunkSize := n } := by
  simp only [normalizeFlowControl, positiveOr_idem, nonzeroOr_idem, positiveOr_of_pos hn]

/-- Chunks that were cut are not cut again, and get no default. -/
theorem clampChunkSize_idem {d f : FlowControlConfig} {frame : ℕ}
    (hf : (normalizeFlowControl d f).Usable) (hmin : headerSize ≤ frame)
    (hmax : frame ≤ maxFrameBytes) :
    clampChunkSize frame (normalizeFlowControl d (clampChunkSize frame (normalizeFlowControl d f)))
      = clampChunkSize frame (normalizeFlowControl d f) := by
  have heq := clampChunkSize_eq hf hmin hmax
  have hdefault : normalizeFlowControl d (clampChunkSize frame (normalizeFlowControl d f)) =
      clampChunkSize frame (normalizeFlowControl d f) := by
    rw [heq]
    exact normalizeFlowControl_chunk d f (by omega)
  have husable : (clampChunkSize frame (normalizeFlowControl d f)).Usable := by
    rw [heq]
    exact { hf with chunk_pos := by dsimp only; omega }
  rw [hdefault, clampChunkSize_eq husable hmin hmax, heq]
  simp only [chunkBound]
  congr 1
  omega

theorem normalizeHeartbeat_idem (d h : HeartbeatConfig) :
    normalizeHeartbeat d (normalizeHeartbeat d h) = normalizeHeartbeat d h := by
  obtain ⟨hmin, hmax⟩ := normalizeInterval_bounds d.interval h.interval
  have hms : (0 : ℤ) < millisecond := by decide
  simp only [normalizeHeartbeat, normalizeInterval_of_bounds hmin hmax]
  congr 1
  -- the timeout is longer than an interval, which is positive
  set interval := normalizeInterval d.interval h.interval
  set timeout := positiveOr d.timeout h.timeout with htimeout
  split
  · rw [positiveOr_of_pos (by omega), if_neg (by omega)]
  · rw [htimeout, positiveOr_idem, ← htimeout, if_neg (by omega)]

theorem normalizePayload_idem (d p : PayloadLimitConfig) :
    normalizePayload d (normalizePayload d p) = normalizePayload d p := by
  simp only [normalizePayload, frameLimit_idem, nonzeroOr_idem]
  congr 1
  -- a bound of zero is the only one to let the default in, and cuts it again
  generalize maxInline _ _ _ = bound
  by_cases hbound : bound = 0
  · subst hbound
    simp only [nonzeroOr]
    split_ifs <;> omega
  · by_cases hlt : bound < nonzeroOr d.maxInlineBodyBytes p.maxInlineBodyBytes
    · simp only [if_pos hlt, nonzeroOr_of_ne hbound, lt_irrefl, if_false]
    · simp only [if_neg hlt, nonzeroOr_idem]

/-- A queue with sizes and timeouts is as it was set. -/
theorem normalizeSendQueue_idem {d : SendQueueConfig} (hd : d.maxFrames ≠ 0) (q : SendQueueConfig) :
    normalizeSendQueue d (normalizeSendQueue d q) = normalizeSendQueue d q := by
  have hne : nonzeroOr d.maxFrames q.maxFrames ≠ 0 := by
    rw [nonzeroOr]
    split
    · exact hd
    · assumption
  simp only [normalizeSendQueue, nonzeroOr_idem, positiveOr_idem]
  congr 2
  exact if_neg fun h => hne h.2.1

theorem normalize_normalized {c : SessionConfig}
    (hcaps : c.capabilities = 0 ∨ c.capabilities &&& allCapabilities ≠ 0) :
    normalizeSessionConfig (normalizeSessionConfig c) = normalizeSessionConfig c := by
  have hne : nonzeroOr (defaultSessionConfig c.role).capabilities c.capabilities &&&
      allCapabilities ≠ 0 := by
    rcases hcaps with hzero | hne
    · rw [hzero]
      show nonzeroOr defaultCapabilities 0 &&& allCapabilities ≠ 0
      decide
    · rwa [nonzeroOr_of_ne fun hzero => hne (by rw [hzero, Nat.zero_and])]
  obtain ⟨hmin, hmax⟩ := frameLimit_bounds c.payload.maxFrameBytes
  have hflow := clampChunkSize_idem (usable_normalize c.role c.flowControl) hmin hmax
  simp only [normalizeSessionConfig, defaultSessionConfig_role, normalizePayload_idem,
    normalizeHeartbeat_idem, positiveOr_idem] at hflow ⊢
  congr 1
  · rw [nonzeroOr_of_ne hne, Nat.and_assoc, Nat.and_self]
  · simp only [normalizeAuth, positiveOr_idem, nonzeroOr_idem]
  · simp only [normalizeRateLimit, positiveOr_idem, nonzeroOr_idem]
  · exact normalizeSendQueue_idem (show (4096 : ℤ) ≠ 0 by decide) c.sendQueue
  · simp only [normalizeHandlers, positiveOr_idem]

/-- The second normalisation changes nothing exactly if the first leaves a capability. -/
theorem normalize_idempotent_iff (c : SessionConfig) :
    normalizeSessionConfig (normalizeSessionConfig c) = normalizeSessionConfig c ↔
      c.capabilities = 0 ∨ c.capabilities &&& allCapabilities ≠ 0 := by
  refine ⟨fun hidem => ?_, normalize_normalized⟩
  by_contra hbad
  push Not at hbad
  have hfirst : (normalizeSessionConfig c).capabilities = 0 := by
    show nonzeroOr defaultCapabilities c.capabilities &&& allCapabilities = 0
    rw [nonzeroOr_of_ne hbad.1, hbad.2]
  -- no capability is taken for a field that was not set
  have hsecond : (normalizeSessionConfig (normalizeSessionConfig c)).capabilities =
      defaultCapabilities &&& allCapabilities := by
    show nonzeroOr defaultCapabilities (normalizeSessionConfig c).capabilities &&& _ = _
    rw [hfirst]
    rfl
  rw [hidem, hfirst] at hsecond
  exact absurd hsecond (by decide)

/-- A configuration with unknown capabilities only: none are left by the first
    normalisation, which the second takes for a field that was not set. -/
theorem normalize_twice_differs :
    normalizeSessionConfig (normalizeSessionConfig { capabilities := 1 <<< 63 }) ≠
      normalizeSessionConfig { capabilities := 1 <<< 63 } := by
  decide

/-! ## The size of an authentication -/

/-- `HandleAuth` refuses a frame for its size: this is what it does first. -/
def RefusedTooLarge (cfg : Config) (codec : Codec) (f : Frame) : Prop :=
  ∃ k, handleAuth cfg codec f = .op
    (.send (.authReject authRejectTooLarge authRejectTooLarge "auth payload too large")) k

section Auth

variable {cfg : Config} {credential : Bytes}

/-- A frame is only refused for its size if its payload is too large, and if the refusal fits
    into a frame itself. -/
theorem RefusedTooLarge.lt {codec : Codec} {f : Frame} (h : RefusedTooLarge cfg codec f) :
    cfg.maxAuthPayload < f.payload.length ∧
      "auth payload too large".length + 8 ≤ cfg.preHandshakeBytes - headerSize := by
  obtain ⟨k, hk⟩ := h
  by_cases hlt : cfg.maxAuthPayload < f.payload.length
  · refine ⟨hlt, ?_⟩
    by_contra hroom
    rw [handleAuth, if_pos hlt, rejectAuthAndClose, rejectAuth, if_pos (not_le.mp hroom)] at hk
    cases hk
  exfalso
  rw [handleAuth, if_neg hlt] at hk
  -- what is done first is another refusal, the acceptance, or the call of the handler
  cases hcodec : codec.auth f.payload with
  | error e =>
    simp only [hcodec, rejectAuthAndClose, rejectAuth, check, ifErr] at hk
    split at hk <;> cases hk
  | ok request =>
    simp only [hcodec] at hk
    split at hk
    · split at hk
      · simp only [rejectAuthAndClose, rejectAuth, check, ifErr] at hk
        split at hk <;> cases hk
      · simp only [acceptAuth, check, ifErr] at hk
        split at hk <;> cases hk
    · cases hk

end Auth

end Etp.Session
