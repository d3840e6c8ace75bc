import Etp.Session.Machine
import Etp.Transfer.Incoming
import Etp.Wire.Message

/-!
# What a receiver is told of a transfer

The announcement of a transfer, the request to resume one and the decision of the resume
store about it, the checks that the receiver makes before it admits the transfer, and the
room that it offers.
-/

namespace Etp.Storage

open Transfer

/-- The announcement of a transfer with the sizes of its parts, the number of its fields,
    and whether it names an event. -/
structure Meta extends TransferBegin where
  parts : List ℕ := []
  fields : ℕ := 0
  event : Bool := false
  deriving DecidableEq, Repr

/-- The announcement as it is on the wire. -/
def Meta.ofWire (v : Wire.TransferBegin) : Meta where
  totalSize := v.totalSize.toNat
  chunkSize := v.chunkSize.toNat
  chunkCount := v.chunkCount.toNat
  flags := v.flags.toNat
  checksum := v.checksum.val
  parts := v.parts.map (·.totalSize.toNat)
  fields := v.fields.length
  event := v.event ≠ []

/-- The message of `FrameTransferResume`, up to its token. -/
structure Resume where
  transferID : ℕ
  receivedBytes : ℕ
  nextChunk : ℕ
  deriving DecidableEq, Repr

/-- What the resume store decides. -/
structure Decision where
  accepted : Bool
  metadata : Meta
  receivedBytes : ℕ
  nextChunk : ℕ
  hash : Option Bytes := none
  reasonCode : ℕ := 0
  deriving DecidableEq, Repr

/-- The configuration, as normalised; `sha256` is the hash function. -/
structure Config where
  session : Session.Config := {}
  maxConcurrentTransfers : ℕ := 4
  maxTransferBytes : ℕ := 1 <<< 40
  maxChunkSize : ℕ := 1 <<< 20
  maxInFlightChunks : ℕ := 4
  maxInFlightBytes : ℕ := 4 <<< 20
  maxReceiveBufferBytes : ℕ := 16 <<< 20
  transferHandler : Bool := true
  resumeStore : Bool := true
  sha256 : Bytes → Bytes := id

variable (cfg : Config)

/-- The bytes of a window when `buffered` bytes are in the receive buffer. -/
def windowBytes (buffered : ℕ) : ℕ :=
  let available := cfg.maxReceiveBufferBytes - buffered
  if cfg.maxInFlightBytes = 0 ∨ available < cfg.maxInFlightBytes then available
  else cfg.maxInFlightBytes

/-- The parts of a transfer add up to its size. -/
def checkParts (totalSize : ℕ) : ℕ → List ℕ → Option Err
  | sum, [] => if sum ≠ totalSize then some "transfer part sizes do not match total size" else none
  | sum, part :: parts =>
    if totalSize - sum < part then some "transfer part sizes exceed total size"
    else checkParts totalSize (sum + part) parts

/-- The checks of `handleIncomingTransferBegin` on the announcement; `sha256` says
    whether checksums were negotiated. -/
def checkBegin (sha256 : Bool) (requestID : ℕ) (m : Meta) : Option Err :=
  if cfg.maxTransferBytes < m.totalSize then some "incoming transfer exceeds max size"
  else if m.chunkSize = 0 ∨ cfg.maxChunkSize < m.chunkSize then some "invalid incoming chunk size"
  else if m.chunkCount ≠ chunkCountFor m.totalSize m.chunkSize then
    some "invalid incoming chunk count"
  else if m.flags &&& transferFlagChecksumSHA256 ≠ m.flags then
    some "unsupported incoming transfer flags"
  else if m.checksummed ∧ sha256 = false then some "incoming checksum was not negotiated"
  else if m.parts ≠ [] ∧ (checkParts m.totalSize 0 m.parts).isSome then
    checkParts m.totalSize 0 m.parts
  else if decide (requestID = 0) ≠ !m.event then
    some "transfer event and request id must be set together"
  else if cfg.transferHandler = false then some "incoming transfer handler is not configured"
  else none

/-- The bytes before the chunk `nextChunk`, if there is one or all are before it. -/
def transferOffsetForChunk (totalSize chunkSize nextChunk : ℕ) : Option ℕ :=
  if chunkSize = 0 ∨ chunkCountFor totalSize chunkSize < nextChunk then none
  else if nextChunk = chunkCountFor totalSize chunkSize then some totalSize
  else if totalSize ≤ nextChunk * chunkSize then none
  else some (nextChunk * chunkSize)

/-- The checks of `handleIncomingTransferResume` on a decision: the counters of the
    refusal, if one fails. -/
def checkDecision (sha256 : Bool) (requestID : ℕ) (resume : Resume) (d : Decision) :
    Option (ℕ × ℕ) :=
  let m := d.metadata
  if cfg.maxTransferBytes < m.totalSize ∨ m.chunkSize = 0 ∨ cfg.maxChunkSize < m.chunkSize ∨
      m.chunkCount ≠ chunkCountFor m.totalSize m.chunkSize ∨
      m.flags &&& transferFlagChecksumSHA256 ≠ m.flags ∨
      Wire.maxTransferParts < m.parts.length ∨ Wire.maxTransferFields < m.fields then
    some (d.receivedBytes, d.nextChunk)
  else if m.checksummed ∧ sha256 = false then some (d.receivedBytes, d.nextChunk)
  else if m.parts ≠ [] ∧ (checkParts m.totalSize 0 m.parts).isSome then
    some (d.receivedBytes, d.nextChunk)
  else if transferOffsetForChunk m.totalSize m.chunkSize d.nextChunk ≠ some d.receivedBytes ∨
      decide (requestID = 0) ≠ !m.event then some (d.receivedBytes, d.nextChunk)
  else if m.checksummed ∧ d.hash = none then some (resume.receivedBytes, resume.nextChunk)
  else none

/-- The record of a transfer that is resumed. -/
def resumedTransfer (d : Decision) : IncomingTransfer :=
  { newIncomingTransfer cfg.maxInFlightChunks d.metadata.toTransferBegin with
    hash := d.hash
    receivedBytes := d.receivedBytes
    acceptedBytes := d.receivedBytes
    nextChunk := d.nextChunk
    acceptedNextChunk := d.nextChunk
    lastChunk := d.nextChunk - 1 }

end Etp.Storage
