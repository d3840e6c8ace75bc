import Etp.Session.Launch
import Etp.Session.Programs
import Etp.Storage.Metadata
import Etp.Wire.Message

/-!
# Announcing a transfer that the peer admits

The limits of both sides are applied to an outgoing transfer at two moments: its options
are normalised when it is launched, and validated by its goroutine before
`FrameTransferBegin` is sent. The limits of the peer are known from its hello on, which may
come in between. What was validated is then checked again by the peer
(`Storage.checkBegin`), against the limits that it has advertised.

The size of the chunks is only cut to that of the peer when the options are normalised, so
a transfer that was launched before the hello may be refused (`chunks_too_large`).

* `admissible_of_validated`: what was validated after the handshake, in chunks that the peer
  takes, passes the checks of the peer;
* `announces_admissible`: in every run in which the transfers launched before the hello have
  such chunks, all announcements pass, and all chunks are small enough.
-/

namespace Etp.Announce

open Relation Session Transfer Storage List

/-! ## Options -/

/-- A configuration as `normalizeSessionConfig` leaves it: chunks fit into a frame. -/
structure Side extends Storage.Config where
  chunk_pos : 0 < maxChunkSize
  chunk_lt : maxChunkSize < 2 ^ 32
  frame_le : session.maxFrameBytes ≤ maxFrameBytes

/-- The options of a transfer, up to those of its pace; `source` says that there is
    something to read from. -/
structure TransferOptions where
  requestID : ℕ := 0
  event : Bytes := []
  field : Bytes := []
  index : UInt32 := 0
  parts : List Wire.TransferPart := []
  name : Bytes := []
  contentType : UInt32 := 0
  totalSize : UInt64
  fields : List Wire.TransferField := []
  chunkSize : ℤ := 0
  checksum : Wire.Digest := Wire.Digest.copy []
  sha256 : Bool := false
  source : Bool := true

/-- The size of the chunks as a `uint32`. -/
def TransferOptions.chunk (opts : TransferOptions) : ℕ := (opts.chunkSize % 2 ^ 32).toNat

def defaultChunkSize : ℤ := 16 * 1024

/-- The size of the chunks as the local limits leave it. -/
def localChunkSize (cfg : Storage.Config) (chunkSize : ℤ) : ℤ :=
  let chunkSize := if chunkSize ≤ 0 then defaultChunkSize else chunkSize
  if cfg.maxChunkSize < chunkSize then cfg.maxChunkSize else chunkSize

/-- `normalizeTransferOptions`, with the hello of the peer if there was one. -/
def normalizeTransferOptions (cfg : Storage.Config) (remote : Option Hello)
    (opts : TransferOptions) : TransferOptions :=
  let opts := { opts with chunkSize := localChunkSize cfg opts.chunkSize }
  match remote with
  | none => opts
  | some h =>
    if 0 < h.maxChunkSize ∧ h.maxChunkSize < opts.chunk then
      { opts with chunkSize := h.maxChunkSize }
    else opts

/-- What a session knows of its peer: each field is stored by itself. -/
structure Remote where
  hello : Option Hello := none
  frame : ℕ := 0
  caps : ℕ := 0

/-- `remoteLimits` has a bound on the size of transfers. -/
def Remote.exceeds (r : Remote) (totalSize : ℕ) : Bool :=
  match r.hello with
  | some h => 0 < h.maxTransferBytes && h.maxTransferBytes < totalSize
  | none => false

/-- The checks of `validateOutgoingTransfer` on capabilities. -/
def validateCapabilities (caps remoteCaps : ℕ) : Option Err :=
  let required := capabilityTransfers ||| capabilityTransferCommit ||| capabilityAck
  if caps &&& required ≠ required then
    some "local transfer, commit, and ack capabilities are required"
  else if remoteCaps &&& capabilityTransfers = 0 then some "remote does not support transfers"
  else if remoteCaps &&& capabilityTransferCommit = 0 then
    some "remote does not support transfer commit"
  else if remoteCaps &&& capabilityAck = 0 then some "remote does not support ack"
  else none

/-- The checks of `validateOutgoingTransfer` on a checksum. -/
def validateChecksum (caps remoteCaps : ℕ) (opts : TransferOptions) : Option Err :=
  if opts.sha256 = false then none
  else if opts.checksum = Wire.Digest.copy [] then
    some "sha256 checksum is required when checksum mode is enabled"
  else if caps &&& capabilityTransferSHA256 = 0 then
    some "local transfer checksum support is disabled"
  else if remoteCaps &&& capabilityTransferSHA256 = 0 then
    some "remote does not support transfer sha256"
  else none

/-- The size of the frame that announces a transfer. -/
def TransferOptions.beginSize (opts : TransferOptions) : ℕ :=
  headerSize +
    Wire.transferBeginPayloadSize64 opts.name opts.event opts.field opts.parts opts.fields

/-- The checks of `validateOutgoingTransfer` on the sizes of the transfer, of its chunks and
    of its parts, and on its event. -/
def validateShape (cfg : Storage.Config) (r : Remote) (opts : TransferOptions) : Option Err :=
  let total := opts.totalSize.toNat
  if cfg.maxTransferBytes < total then some "transfer exceeds max size"
  else if r.exceeds total then some "transfer exceeds remote max size"
  else if opts.source = false then some "transfer reader is required"
  else if opts.chunkSize ≤ 0 ∨ cfg.maxChunkSize < opts.chunkSize then
    some "invalid transfer chunk size"
  else if 0 < total ∧ chunkCountFor total opts.chunk = maxUint32 then
    some "transfer requires too many chunks"
  else if Wire.maxTransferParts < opts.parts.length ∨
      Wire.maxTransferFields < opts.fields.length then
    some "transfer contains too many parts or fields"
  else if opts.parts ≠ [] ∧ (checkParts total 0 (opts.parts.map (·.totalSize.toNat))).isSome then
    checkParts total 0 (opts.parts.map (·.totalSize.toNat))
  else if decide (opts.requestID = 0) ≠ decide (opts.event = []) then
    some "transfer event and request id must be set together"
  else none

/-- `validateOutgoingTransfer`, up to the authentication. -/
def validateOutgoingTransfer (cfg : Storage.Config) (r : Remote) (opts : TransferOptions) :
    Option Err :=
  match validateCapabilities cfg.session.capabilities r.caps with
  | some e => some e
  | none =>
    match validateShape cfg r opts with
    | some e => some e
    | none =>
      match validateChecksum cfg.session.capabilities r.caps opts with
      | some e => some e
      | none =>
        if cfg.session.maxFrameBytes < opts.beginSize then
          some "transfer begin exceeds local max frame size"
        else if 0 < r.frame ∧ r.frame < opts.beginSize then some "frame exceeds remote max size"
        else none

/-- `checksumFlag`. -/
def checksumFlag (sha256 : Bool) : UInt32 :=
  if sha256 then .ofNat transferFlagChecksumSHA256 else 0

/-- The message of `FrameTransferBegin` that `sendTransfer` encodes. -/
def TransferOptions.message (opts : TransferOptions) : Wire.TransferBegin where
  totalSize := opts.totalSize
  chunkSize := .ofNat opts.chunk
  chunkCount := .ofNat (chunkCountFor opts.totalSize.toNat opts.chunk)
  contentType := opts.contentType
  flags := checksumFlag opts.sha256
  checksum := opts.checksum
  name := opts.name
  event := opts.event
  field := opts.field
  index := opts.index
  parts := opts.parts
  fields := opts.fields

/-- The frame that announces the transfer `id`. -/
def beginFrame (id : ℕ) (opts : TransferOptions) : Frame :=
  Launch.beginFrame id opts.requestID (Wire.encodeTransferBeginInto [] opts.message)

/-- The size of the next chunk of `sendTransferBody`. -/
def chunkLength (opts : TransferOptions) (written : ℕ) : ℕ :=
  if opts.totalSize.toNat - written < opts.chunk then opts.totalSize.toNat - written
  else opts.chunk

/-! ## The peer -/

/-- The hello of a side. -/
def helloOf (peer : Storage.Config) (heartbeatMillis : ℕ) : Hello where
  role := peer.session.role.name
  capabilities := peer.session.capabilities
  maxFrameBytes := peer.session.maxFrameBytes
  maxChunkSize := peer.maxChunkSize % 2 ^ 32
  maxTransferBytes := peer.maxTransferBytes
  maxInFlightChunks := peer.maxInFlightChunks % 2 ^ 32
  heartbeatMillis := heartbeatMillis

/-- The announcement passes the checks of `handleIncomingTransferBegin` before the place of
    the transfer is reserved, where `caps` are the capabilities negotiated. -/
structure Admissible (peer : Storage.Config) (caps : ℕ) (f : Frame) : Prop where
  commit : peer.session.capabilities &&& capabilityTransferCommit ≠ 0 ∧
    caps &&& capabilityTransferCommit ≠ 0
  checks : ∃ v, Wire.decodeTransferBegin f.payload = .ok v ∧
    checkBegin peer (caps &&& capabilityTransferSHA256 != 0) f.header.requestID (.ofWire v) = none

/-! ## What was validated -/

section Validated

variable {cfg : Storage.Config} {r : Remote} {opts : TransferOptions}

/-- What `validateOutgoingTransfer` has found of the sizes and of the event. -/
structure Shaped (cfg : Storage.Config) (r : Remote) (opts : TransferOptions) : Prop where
  total : r.exceeds opts.totalSize.toNat = false
  chunk_pos : 0 < opts.chunkSize
  chunk_le : opts.chunkSize ≤ cfg.maxChunkSize
  parts : opts.parts.length ≤ Wire.maxTransferParts
  fields : opts.fields.length ≤ Wire.maxTransferFields
  sums : opts.parts = [] ∨
    checkParts opts.totalSize.toNat 0 (opts.parts.map (·.totalSize.toNat)) = none
  event : opts.requestID = 0 ↔ opts.event = []

theorem shaped_of_validateShape (h : validateShape cfg r opts = none) : Shaped cfg r opts := by
  unfold validateShape at h
  dsimp only at h
  split_ifs at h with _ htotal _ hchunk _ hcount hsums hevent
  · exact absurd h (Option.isSome_iff_ne_none.mp hsums.2)
  · rw [not_or, not_le, not_lt] at hchunk
    rw [not_or, not_lt, not_lt] at hcount
    refine ⟨by simpa using htotal, hchunk.1, hchunk.2, hcount.1, hcount.2, ?_, ?_⟩
    · rw [not_and_or, not_not, Option.not_isSome_iff_eq_none] at hsums
      exact hsums
    · simpa using hevent

theorem capabilities_of_validate {caps remoteCaps : ℕ}
    (h : validateCapabilities caps remoteCaps = none) :
    remoteCaps &&& capabilityTransferCommit ≠ 0 := by
  unfold validateCapabilities at h
  dsimp only at h
  split_ifs at h
  assumption

theorem checksum_of_validate {caps remoteCaps : ℕ}
    (h : validateChecksum caps remoteCaps opts = none) (hsha : opts.sha256 = true) :
    remoteCaps &&& capabilityTransferSHA256 ≠ 0 := by
  unfold validateChecksum at h
  split_ifs at h <;> simp_all

/-- What `validateOutgoingTransfer` has found. -/
structure Validated (cfg : Storage.Config) (r : Remote) (opts : TransferOptions) : Prop
    extends Shaped cfg r opts where
  commit : r.caps &&& capabilityTransferCommit ≠ 0
  sha256 : opts.sha256 = true → r.caps &&& capabilityTransferSHA256 ≠ 0
  size : opts.beginSize ≤ cfg.session.maxFrameBytes

theorem validated (h : validateOutgoingTransfer cfg r opts = none) : Validated cfg r opts := by
  unfold validateOutgoingTransfer at h
  split at h
  · cases h
  · split at h
    · cases h
    · split at h
      · cases h
      · split_ifs at h with hsize
        exact ⟨shaped_of_validateShape ‹_›, capabilities_of_validate ‹_›,
          checksum_of_validate ‹_›, not_lt.mp hsize⟩

end Validated

variable {opts : TransferOptions}

/-- The announcement is read back as it was made. -/
theorem decode_message {cfg : Side} {r : Remote} (h : Validated cfg.toConfig r opts) :
    Wire.decodeTransferBegin (Wire.encodeTransferBeginInto [] opts.message) =
      .ok opts.message := by
  have hsize : opts.message.size ≤ Wire.maxPayload := by
    have hfit := h.size.trans cfg.frame_le
    simp only [TransferOptions.beginSize] at hfit
    simp only [Wire.TransferBegin.size, TransferOptions.message, Wire.maxPayload]
    omega
  rw [Wire.encodeTransferBeginInto_bytes hsize]
  exact Wire.decodeTransferBegin_bytes h.parts h.fields hsize

/-- The words of an announcement. -/
theorem ofWire_message (hchunk : opts.chunk < 2 ^ 32) :
    Meta.ofWire opts.message =
      { totalSize := opts.totalSize.toNat
        chunkSize := opts.chunk
        chunkCount := chunkCountFor opts.totalSize.toNat opts.chunk
        flags := if opts.sha256 then transferFlagChecksumSHA256 else 0
        checksum := opts.checksum.val
        parts := opts.parts.map (·.totalSize.toNat)
        fields := opts.fields.length
        event := opts.event ≠ [] } := by
  have hcount : chunkCountFor opts.totalSize.toNat opts.chunk < 2 ^ 32 := by
    have hle := chunkCountFor_le opts.totalSize.toNat opts.chunk
    simp only [maxUint32] at hle
    omega
  have hflags : (checksumFlag opts.sha256).toNat =
      if opts.sha256 then transferFlagChecksumSHA256 else 0 := by
    cases opts.sha256 <;> rfl
  simp only [Meta.ofWire, TransferOptions.message, hflags, UInt32.toNat_ofNat_of_lt' hchunk,
    UInt32.toNat_ofNat_of_lt' hcount]
  rfl

theorem uint32_eq {n : ℤ} (hpos : 0 < n) (hlt : n < 2 ^ 32) : ((n % 2 ^ 32).toNat : ℤ) = n := by
  rw [Int.emod_eq_of_lt hpos.le hlt]
  exact Int.toNat_of_nonneg hpos.le

/-- An outgoing transfer that was validated after the handshake, and whose chunks the peer
    takes, is admissible. -/
theorem admissible_of_validated {cfg peer : Side} {r : Remote} {beat id : ℕ}
    (h : Validated cfg.toConfig r opts) (hhello : r.hello = some (helloOf peer.toConfig beat))
    (hcaps : r.caps = peer.session.capabilities &&& cfg.session.capabilities)
    (hlimit : 0 < peer.maxTransferBytes) (hchunk : opts.chunkSize ≤ peer.maxChunkSize)
    (hhandler : peer.transferHandler = true) :
    Admissible peer.toConfig (cfg.session.capabilities &&& peer.session.capabilities)
      (beginFrame id opts) := by
  have hcfg := cfg.chunk_lt
  have hpos := h.chunk_pos
  have hle := h.chunk_le
  have hchunk_eq : (opts.chunk : ℤ) = opts.chunkSize := uint32_eq hpos (by omega)
  have hcommit := h.commit
  rw [hcaps, Nat.and_comm peer.session.capabilities] at hcommit
  refine ⟨⟨fun hzero => hcommit ?_, hcommit⟩, opts.message, decode_message h, ?_⟩
  · rw [Nat.and_assoc, hzero, Nat.and_zero]
  rw [ofWire_message (by omega)]
  have htotal : ¬peer.maxTransferBytes < opts.totalSize.toNat := by
    have hexceeds := h.total
    simp only [Remote.exceeds, hhello, helloOf, hlimit] at hexceeds
    simpa using hexceeds
  have hsha : opts.sha256 = true →
      cfg.session.capabilities &&& peer.session.capabilities &&& capabilityTransferSHA256 ≠ 0 := by
    intro hsha
    have hneg := h.sha256 hsha
    rwa [hcaps, Nat.and_comm peer.session.capabilities] at hneg
  have hflags : (if opts.sha256 then transferFlagChecksumSHA256 else 0) &&&
      transferFlagChecksumSHA256 = if opts.sha256 then transferFlagChecksumSHA256 else 0 := by
    cases opts.sha256 <;> rfl
  unfold checkBegin
  dsimp only
  rw [if_neg htotal, if_neg (by omega), if_neg (by simp), if_neg (by simp [hflags]), if_neg, if_neg,
    if_neg, if_neg (by simp [hhandler])]
  · rw [not_not, ← decide_not]
    exact decide_eq_decide.mpr (h.event.trans not_not.symm)
  · rintro ⟨hne, hsome⟩
    rcases h.sums with hnil | hnone
    · simp [hnil] at hne
    · simp [hnone] at hsome
  · rintro ⟨hchecksummed, hunsupported⟩
    cases hopts : opts.sha256 with
    | false => simp [TransferBegin.checksummed, hopts] at hchecksummed
    | true => simp [hsha hopts] at hunsupported

/-! ## Launches and the handshake -/

/-- How far the handling of the hello is: it is stored, then the limit on frames, then the
    capabilities, and then the session is established. -/
inductive Handshake
  | waiting
  | hello
  | frame
  | caps
  | established
  deriving DecidableEq, Repr

/-- How far a transfer is: its options were normalised, the session was found established,
    and it was announced and so many bytes of it were sent. -/
inductive Stage
  | launched
  | required
  | sending (written : ℕ)
  deriving DecidableEq, Repr

/-- A transfer, with its options as they were normalised. -/
structure Attempt where
  id : ℕ
  opts : TransferOptions
  stage : Stage

/-- A session before and after its handshake, with the announcements and the sizes of the
    chunks that it has sent. -/
structure Link where
  handshake : Handshake := .waiting
  remote : Remote := {}
  attempts : List Attempt := []
  begins : List Frame := []
  chunks : List (ℕ × ℕ) := []

/-- One step of the goroutine that handles the hello `h`, or of one that sends a transfer;
    the label are the options of a launch. Whatever is sent again was sent before, and a
    transfer may fail at any time. -/
inductive Step (cfg : Storage.Config) (h : Hello) (expected : Role) :
    Option TransferOptions → Link → Link → Prop
  | storeHello (s : Link) : s.handshake = .waiting → checkRemoteHello h expected = none →
      Step cfg h expected none s
        { s with handshake := .hello, remote := { s.remote with hello := some h } }
  | storeFrame (s : Link) : s.handshake = .hello →
      Step cfg h expected none s
        { s with handshake := .frame, remote := { s.remote with frame := h.maxFrameBytes } }
  | storeCaps (s : Link) : s.handshake = .frame →
      Step cfg h expected none s
        { s with handshake := .caps,
                 remote := { s.remote with caps := h.capabilities &&& cfg.session.capabilities } }
  | establish (s : Link) : s.handshake = .caps →
      Step cfg h expected none s { s with handshake := .established }
  | launch (s : Link) (id : ℕ) (opts : TransferOptions) :
      Step cfg h expected (some opts) s
        { s with attempts :=
            ⟨id, normalizeTransferOptions cfg s.remote.hello opts, .launched⟩ :: s.attempts }
  | require (s : Link) (pre post : List Attempt) (id : ℕ) (opts : TransferOptions) :
      s.attempts = pre ++ ⟨id, opts, .launched⟩ :: post → s.handshake = .established →
      Step cfg h expected none s { s with attempts := pre ++ ⟨id, opts, .required⟩ :: post }
  | announce (s : Link) (pre post : List Attempt) (id : ℕ) (opts : TransferOptions) :
      s.attempts = pre ++ ⟨id, opts, .required⟩ :: post →
      validateOutgoingTransfer cfg s.remote opts = none →
      Step cfg h expected none s
        { s with attempts := pre ++ ⟨id, opts, .sending 0⟩ :: post,
                 begins := s.begins ++ [beginFrame id opts] }
  | chunk (s : Link) (pre post : List Attempt) (id : ℕ) (opts : TransferOptions) (written : ℕ) :
      s.attempts = pre ++ ⟨id, opts, .sending written⟩ :: post →
      written < opts.totalSize.toNat →
      Step cfg h expected none s
        { s with
          attempts := pre ++ ⟨id, opts, .sending (written + chunkLength opts written)⟩ :: post
          chunks := s.chunks ++ [(id, chunkLength opts written)] }
  | fail (s : Link) (pre post : List Attempt) (a : Attempt) :
      s.attempts = pre ++ a :: post → Step cfg h expected none s { s with attempts := pre ++ post }

/-- A transfer is launched after the hello was stored, or its chunks, as the local limits
    leave them, are not larger than those that the peer will take. -/
def Timely (cfg : Storage.Config) (h : Hello) (s : Link) (opts : TransferOptions) : Prop :=
  s.remote.hello ≠ none ∨ localChunkSize cfg opts.chunkSize ≤ h.maxChunkSize

/-- A step whose launch, if it is one, is timely. -/
def TimelyStep (cfg : Storage.Config) (h : Hello) (expected : Role) (s s' : Link) : Prop :=
  ∃ l, Step cfg h expected l s s' ∧ ∀ opts, l = some opts → Timely cfg h s opts

/-- What the session knows of the peer at each point of the handshake. -/
structure Known (cfg : Storage.Config) (h : Hello) (expected : Role) (s : Link) : Prop where
  hello : s.remote.hello = none ∨ (s.remote.hello = some h ∧ checkRemoteHello h expected = none)
  waiting : s.handshake ≠ .waiting → s.remote.hello ≠ none
  caps : s.handshake = .caps ∨ s.handshake = .established →
    s.remote.caps = h.capabilities &&& cfg.session.capabilities

/-- The chunks of a transfer are not larger than those that the peer takes, and it is beyond
    its launch only if the session is established. -/
structure Attempt.Ok (h : Hello) (handshake : Handshake) (a : Attempt) : Prop where
  chunk : a.opts.chunkSize ≤ h.maxChunkSize
  established : a.stage ≠ .launched → handshake = .established
  sending : ∀ n, a.stage = .sending n → a.opts.chunk ≤ h.maxChunkSize

/-- What every run with timely launches keeps. -/
structure Inv (cfg peer : Side) (h : Hello) (expected : Role) (s : Link) : Prop
    extends Known cfg.toConfig h expected s where
  attempts : ∀ a ∈ s.attempts, a.Ok h s.handshake
  begins : ∀ f ∈ s.begins,
    Admissible peer.toConfig (cfg.session.capabilities &&& peer.session.capabilities) f
  chunks : ∀ x ∈ s.chunks, x.2 ≤ h.maxChunkSize

theorem localChunkSize_le (cfg : Storage.Config) (n : ℤ) :
    localChunkSize cfg n ≤ cfg.maxChunkSize := by
  unfold localChunkSize
  dsimp only
  split_ifs <;> omega

theorem localChunkSize_pos {cfg : Side} (n : ℤ) : 0 < localChunkSize cfg.toConfig n := by
  have hpos := cfg.chunk_pos
  unfold localChunkSize defaultChunkSize
  dsimp only
  split_ifs <;> omega

/-- Where the hello is known the options are cut to it. -/
theorem normalize_chunkSize_le {cfg : Side} {h : Hello} (hpos : 0 < h.maxChunkSize)
    (opts : TransferOptions) :
    (normalizeTransferOptions cfg.toConfig (some h) opts).chunkSize ≤ h.maxChunkSize := by
  have hlt := cfg.chunk_lt
  have hle := localChunkSize_le cfg.toConfig opts.chunkSize
  have hpos' : 0 < localChunkSize cfg.toConfig opts.chunkSize := localChunkSize_pos _
  have heq := uint32_eq hpos' (by omega)
  by_cases hcut : h.maxChunkSize < (localChunkSize cfg.toConfig opts.chunkSize % 2 ^ 32).toNat
  · simp only [normalizeTransferOptions, TransferOptions.chunk, hpos, hcut, and_self, if_true,
      le_refl]
  · simp only [normalizeTransferOptions, TransferOptions.chunk, hcut, and_false, if_false]
    omega

theorem normalize_none (cfg : Storage.Config) (opts : TransferOptions) :
    (normalizeTransferOptions cfg none opts).chunkSize = localChunkSize cfg opts.chunkSize := rfl

theorem chunkLength_le (opts : TransferOptions) (written : ℕ) :
    chunkLength opts written ≤ opts.chunk := by
  unfold chunkLength
  split_ifs <;> omega

variable {expected : Role}

theorem limits_pos {h : Hello} (hok : checkRemoteHello h expected = none) :
    0 < h.maxChunkSize ∧ 0 < h.maxTransferBytes := by
  unfold checkRemoteHello at hok
  split_ifs at hok with _ _ hlimits
  omega

section Steps

variable {cfg peer : Side} {h : Hello} {expected : Role} {s s' : Link}

/-- A transfer that is launched in time has chunks that the peer takes. -/
theorem Known.chunk_launched (hknown : Known cfg.toConfig h expected s)
    (ht : Timely cfg.toConfig h s opts) :
    (normalizeTransferOptions cfg.toConfig s.remote.hello opts).chunkSize ≤ h.maxChunkSize := by
  rcases hknown.hello with hnone | ⟨hsome, hok⟩
  · rw [hnone, normalize_none]
    exact ht.resolve_left (fun hne => hne hnone)
  · rw [hsome]
    exact normalize_chunkSize_le (limits_pos hok).1 opts

/-- A step of the handshake, after which the session may be established. -/
theorem Attempt.Ok.advance {a : Attempt} {hs hs' : Handshake} (ha : a.Ok h hs)
    (hne : hs ≠ .established) : a.Ok h hs' :=
  ⟨ha.chunk, fun hst => absurd (ha.established hst) hne, ha.sending⟩

/-- One transfer goes on. -/
theorem ok_replace (s : Link) {pre post : List Attempt} {a b : Attempt}
    (hok : ∀ x ∈ s.attempts, x.Ok h s.handshake) (heq : s.attempts = pre ++ a :: post)
    (hb : a.Ok h s.handshake → b.Ok h s.handshake) :
    ∀ x ∈ pre ++ b :: post, x.Ok h s.handshake := by
  rw [heq] at hok
  intro x hx
  rcases mem_append.mp hx with hx | hx
  · exact hok x (mem_append_left _ hx)
  · rcases mem_cons.mp hx with rfl | hx
    · exact hb (hok a (by simp))
    · exact hok x (by simp [hx])

theorem Inv.step {l : Option TransferOptions} {beat : ℕ}
    (hinv : Inv cfg peer (helloOf peer.toConfig beat) expected s)
    (hhandler : peer.transferHandler = true)
    (hstep : Step cfg.toConfig (helloOf peer.toConfig beat) expected l s s')
    (ht : ∀ opts, l = some opts → Timely cfg.toConfig (helloOf peer.toConfig beat) s opts) :
    Inv cfg peer (helloOf peer.toConfig beat) expected s' := by
  obtain ⟨⟨hhello, hwaiting, hcaps⟩, hattempts, hbegins, hchunks⟩ := hinv
  cases hstep with
  | storeHello _ hs hok =>
    exact ⟨⟨.inr ⟨rfl, hok⟩, nofun, by simp⟩,
      fun a ha => (hattempts a ha).advance (by simp [hs]), hbegins, hchunks⟩
  | storeFrame _ hs =>
    exact ⟨⟨hhello, fun _ => hwaiting (by simp [hs]), by simp⟩,
      fun a ha => (hattempts a ha).advance (by simp [hs]), hbegins, hchunks⟩
  | storeCaps _ hs =>
    exact ⟨⟨hhello, fun _ => hwaiting (by simp [hs]), fun _ => rfl⟩,
      fun a ha => (hattempts a ha).advance (by simp [hs]), hbegins, hchunks⟩
  | establish _ hs =>
    exact ⟨⟨hhello, fun _ => hwaiting (by simp [hs]), fun _ => hcaps (.inl hs)⟩,
      fun a ha => (hattempts a ha).advance (by simp [hs]), hbegins, hchunks⟩
  | launch _ id opts =>
    have hknown : Known cfg.toConfig _ expected s := ⟨hhello, hwaiting, hcaps⟩
    exact ⟨⟨hhello, hwaiting, hcaps⟩, forall_mem_cons.mpr
      ⟨⟨hknown.chunk_launched (ht opts rfl), fun hne => absurd rfl hne, nofun⟩, hattempts⟩,
      hbegins, hchunks⟩
  | require _ pre post id opts heq hest =>
    exact ⟨⟨hhello, hwaiting, hcaps⟩,
      ok_replace s hattempts heq fun ha => ⟨ha.chunk, fun _ => hest, nofun⟩, hbegins, hchunks⟩
  | announce _ pre post id opts heq hvalid =>
    have hok := hattempts ⟨id, opts, .required⟩ (by simp [heq])
    have hest := hok.established (by simp)
    have hv := validated hvalid
    obtain ⟨hsome, hcheck⟩ := hhello.resolve_left (hwaiting (by simp [hest]))
    refine ⟨⟨hhello, hwaiting, hcaps⟩,
      ok_replace s hattempts heq fun ha => ⟨ha.chunk, fun _ => hest, fun n _ => ?_⟩,
      fun f hf => ?_, hchunks⟩
    · have heq := uint32_eq hv.chunk_pos (by have := cfg.chunk_lt; have := hv.chunk_le; omega)
      have hle := ha.chunk
      show (opts.chunkSize % 2 ^ 32).toNat ≤ _
      dsimp only at hle
      omega
    · rcases mem_append.mp hf with hf | hf
      · exact hbegins f hf
      · obtain rfl := mem_singleton.mp hf
        have hle := hok.chunk
        rw [helloOf, Nat.mod_eq_of_lt peer.chunk_lt] at hle
        exact admissible_of_validated hv hsome (hcaps (.inr hest)) (limits_pos hcheck).2 hle
          hhandler
  | chunk _ pre post id opts written heq hlt =>
    have hok := hattempts ⟨id, opts, .sending written⟩ (by simp [heq])
    have hest := hok.established (by simp)
    refine ⟨⟨hhello, hwaiting, hcaps⟩,
      ok_replace s hattempts heq fun ha => ⟨ha.chunk, fun _ => hest, fun n _ => ha.sending _ rfl⟩,
      hbegins, forall_mem_append.mpr ⟨hchunks, forall_mem_singleton.mpr ?_⟩⟩
    exact (chunkLength_le opts written).trans (hok.sending _ rfl)
  | fail _ pre post a heq =>
    rw [heq] at hattempts
    refine ⟨⟨hhello, hwaiting, hcaps⟩, fun x hx => hattempts x ?_, hbegins, hchunks⟩
    rcases mem_append.mp hx with hx | hx
    · exact mem_append_left _ hx
    · simp [hx]

end Steps

/-- In every run in which every transfer is launched after the hello, or with chunks that the
    peer takes, what is announced passes the checks of the peer, and no chunk is larger than
    the peer has advertised. -/
theorem announces_admissible (cfg peer : Side) (expected : Role) (beat : ℕ)
    (hhandler : peer.transferHandler = true) {s : Link}
    (hrun : ReflTransGen (TimelyStep cfg.toConfig (helloOf peer.toConfig beat) expected) {} s) :
    (∀ f ∈ s.begins,
      Admissible peer.toConfig (cfg.session.capabilities &&& peer.session.capabilities) f) ∧
    ∀ x ∈ s.chunks, x.2 ≤ (helloOf peer.toConfig beat).maxChunkSize := by
  have hinit : Inv cfg peer (helloOf peer.toConfig beat) expected {} :=
    ⟨⟨.inl rfl, fun hne => absurd rfl hne, by simp⟩, nofun, nofun, nofun⟩
  have hinv := Run.invariant (Inv cfg peer (helloOf peer.toConfig beat) expected) hinit
    (fun s s' hinv hstep => by
      obtain ⟨l, hstep, ht⟩ := hstep
      exact hinv.step hhandler hstep ht) hrun
  exact ⟨hinv.begins, hinv.chunks⟩

/-! ## A launch before the hello -/

/-- The default configuration. -/
def defaultSide : Side := ⟨{}, by decide, by decide, by decide⟩

/-- A peer that takes chunks of 1024 bytes. -/
def smallPeer : Side := ⟨{ maxChunkSize := 1024 }, by decide, by decide, by decide⟩

/-- A transfer of 2048 bytes, in chunks of the default size. -/
def twoKilobytes : TransferOptions := { totalSize := 2048 }

/-- The handshake takes place. -/
def Link.established (cfg : Storage.Config) (h : Hello) (s : Link) : Link :=
  { s with
    handshake := .established
    remote := ⟨some h, h.maxFrameBytes, h.capabilities &&& cfg.session.capabilities⟩ }

theorem established_run {cfg : Storage.Config} {h : Hello} {s : Link} (hs : s.handshake = .waiting)
    (hok : checkRemoteHello h expected = none) :
    ReflTransGen (TimelyStep cfg h expected) s (s.established cfg h) :=
  (((ReflTransGen.single ⟨none, .storeHello s hs hok, nofun⟩).tail
    ⟨none, .storeFrame _ rfl, nofun⟩).tail ⟨none, .storeCaps _ rfl, nofun⟩).tail
      ⟨none, .establish _ rfl, nofun⟩

/-- The transfer `1`, with the options `opts`, is announced, and its first chunk is sent. -/
def Link.begun (s : Link) (opts : TransferOptions) : Link :=
  { s with
    attempts := [⟨1, opts, .sending (0 + chunkLength opts 0)⟩]
    begins := s.begins ++ [beginFrame 1 opts]
    chunks := s.chunks ++ [(1, chunkLength opts 0)] }

theorem begun_run {cfg : Storage.Config} {h : Hello} {s : Link} (hs : s.handshake = .established)
    (ha : s.attempts = [⟨1, opts, .launched⟩])
    (hvalid : validateOutgoingTransfer cfg s.remote opts = none)
    (htotal : 0 < opts.totalSize.toNat) :
    ReflTransGen (TimelyStep cfg h expected) s (s.begun opts) :=
  ((ReflTransGen.single ⟨none, .require s [] [] 1 opts ha hs, nofun⟩).tail
    ⟨none, .announce _ [] [] 1 opts rfl hvalid, nofun⟩).tail
      ⟨none, .chunk _ [] [] 1 opts 0 rfl htotal, nofun⟩

/-- A transfer that is launched before the hello of a peer with smaller chunks: it is
    announced after the handshake, and is not admissible, and its first chunk is too large. -/
theorem chunks_too_large : ∃ s : Link,
    ReflTransGen (fun s s' => ∃ l, Step defaultSide.toConfig (helloOf smallPeer.toConfig 1000)
      .server l s s') {} s ∧
    (∃ f ∈ s.begins, ¬Admissible smallPeer.toConfig
      (defaultSide.session.capabilities &&& smallPeer.session.capabilities) f) ∧
    ∃ x ∈ s.chunks, (helloOf smallPeer.toConfig 1000).maxChunkSize < x.2 := by
  let opts := normalizeTransferOptions defaultSide.toConfig none twoKilobytes
  let launched : Link := { attempts := [⟨1, opts, .launched⟩] }
  let ready := launched.established defaultSide.toConfig (helloOf smallPeer.toConfig 1000)
  have hvalid : validateOutgoingTransfer defaultSide.toConfig ready.remote opts = none := by decide
  have hlaunch : Step defaultSide.toConfig (helloOf smallPeer.toConfig 1000) .server
      (some twoKilobytes) {} launched := .launch {} 1 twoKilobytes
  have hrun : ReflTransGen (TimelyStep defaultSide.toConfig (helloOf smallPeer.toConfig 1000)
      .server) launched (ready.begun opts) :=
    (established_run rfl (by decide)).trans (begun_run rfl rfl hvalid (by decide))
  refine ⟨ready.begun opts, .head ⟨_, hlaunch⟩ (hrun.lift id fun s s' hstep => ?_), ?_, ?_⟩
  · obtain ⟨l, hstep, -⟩ := hstep
    exact ⟨l, hstep⟩
  · refine ⟨beginFrame 1 opts, by simp [Link.begun], fun hadm => ?_⟩
    obtain ⟨v, hdecode, hchecks⟩ := hadm.checks
    have hmessage := decode_message (validated hvalid)
    obtain rfl : opts.message = v := Except.ok.inj (hmessage.symm.trans hdecode)
    revert hchecks
    decide
  · exact ⟨(1, chunkLength opts 0), by simp [Link.begun], by decide⟩

theorem announces_admissible_small : ∃ s : Link,
    ReflTransGen (TimelyStep defaultSide.toConfig (helloOf smallPeer.toConfig 1000) .server) {} s ∧
    (∃ f ∈ s.begins, Admissible smallPeer.toConfig
      (defaultSide.session.capabilities &&& smallPeer.session.capabilities) f) ∧
    ∃ x ∈ s.chunks, x.2 ≤ (helloOf smallPeer.toConfig 1000).maxChunkSize := by
  let ready : Link := Link.established defaultSide.toConfig (helloOf smallPeer.toConfig 1000) {}
  let opts := normalizeTransferOptions defaultSide.toConfig ready.remote.hello twoKilobytes
  let launched : Link := { ready with attempts := [⟨1, opts, .launched⟩] }
  have hlaunch : TimelyStep defaultSide.toConfig (helloOf smallPeer.toConfig 1000) .server
      ready launched := by
    refine ⟨_, .launch ready 1 twoKilobytes, fun opts _ => .inl ?_⟩
    exact Option.some_ne_none _
  have hrun : ReflTransGen (TimelyStep defaultSide.toConfig (helloOf smallPeer.toConfig 1000)
      .server) {} (launched.begun opts) :=
    ((established_run rfl (by decide)).tail hlaunch).trans
      (begun_run rfl rfl (by decide) (by decide))
  have hadm := announces_admissible defaultSide smallPeer .server 1000 rfl hrun
  exact ⟨launched.begun opts, hrun,
    ⟨beginFrame 1 opts, by simp [Link.begun], hadm.1 _ (by simp [Link.begun])⟩,
    ⟨(1, chunkLength opts 0), by simp [Link.begun], hadm.2 _ (by simp [Link.begun])⟩⟩

end Etp.Announce
