import Etp.Frame
import Etp.Lib.Piece

/-!
# Transfers

A transfer carries a byte string in chunks. `FrameTransferBegin` announces its
size and the size and number of its chunks, `FrameData` carries one chunk,
`FrameTransferEnd` asks the receiver to commit what it has written; the receiver
answers with acknowledgements, refusals, windows and states.

The frames of one transfer are modelled by their meaning: the transfer they
belong to is fixed, and the codec of their payloads is left to other modules.
Sizes and chunk numbers are natural numbers; the code's are `uint64` and
`uint32`, and `chunkCountFor` saturates where the number of chunks does not fit.

The geometry is that of a list cut into pieces: for a transfer whose number of
chunks is not saturated, `chunkCount` pieces are the whole byte string
(`Covers.length_le`), and all but the last are full.
-/

namespace Etp.Transfer

open Piece

/-- `TransferFlagChecksumSHA256`. -/
def transferFlagChecksumSHA256 : ℕ := 1 <<< 0

/-- The announcement of a transfer, up to the fields that only its handler reads. -/
structure TransferBegin where
  totalSize : ℕ
  chunkSize : ℕ
  chunkCount : ℕ
  flags : ℕ := 0
  checksum : Bytes := []
  deriving DecidableEq, Repr

/-- Whether the receiver hashes the transfer. -/
def TransferBegin.checksummed (m : TransferBegin) : Bool :=
  m.flags &&& transferFlagChecksumSHA256 != 0

/-- The largest `uint32`. -/
def maxUint32 : ℕ := 2 ^ 32 - 1

/-- The number of chunks of a transfer. -/
def chunkCountFor (totalSize chunkSize : ℕ) : ℕ :=
  if totalSize = 0 then 0
  else
    let chunks := 1 + (totalSize - 1) / chunkSize
    if maxUint32 < chunks then maxUint32 else chunks

/-- The announcement of the byte string `D`, as `sendTransfer` makes it. -/
def announce (D : Bytes) (chunkSize flags : ℕ) (checksum : Bytes) : TransferBegin where
  totalSize := D.length
  chunkSize := chunkSize
  chunkCount := chunkCountFor D.length chunkSize
  flags := flags
  checksum := checksum

/-- What `validateOutgoingTransfer` asks of the chunks. -/
def TransferBegin.sendable (m : TransferBegin) : Bool :=
  0 < m.chunkSize && !(0 < m.totalSize && chunkCountFor m.totalSize m.chunkSize == maxUint32)

/-- The reasons of a refusal. -/
inductive NackReason
  | missingChunk
  | invalidChunk
  | transferUnknown
  | transferCanceled
  | writeFailed
  | protocolError
  | flowControl
  deriving DecidableEq, Repr

/-- The code of a reason on the wire. -/
def NackReason.code : NackReason → ℕ
  | .missingChunk => 1
  | .invalidChunk => 2
  | .transferUnknown => 3
  | .transferCanceled => 4
  | .writeFailed => 5
  | .protocolError => 6
  | .flowControl => 7

/-- An acknowledgement of the chunks from `chunkFrom` to `chunkTo`. -/
structure Ack where
  chunkFrom : ℕ
  chunkTo : ℕ
  receivedBytes : ℕ
  deriving DecidableEq, Repr

/-- A refusal of the chunks from `chunkFrom` to `chunkTo`. -/
structure Nack where
  chunkFrom : ℕ
  chunkTo : ℕ
  reason : NackReason
  deriving DecidableEq, Repr

/-- The state of a transfer, as its receiver reports it after the end; a failure has a reason. -/
structure TransferState where
  receivedBytes : ℕ
  nextChunk : ℕ
  failure : Option NackReason := none
  deriving DecidableEq, Repr

/-- A chunk in a frame. -/
structure Chunk where
  chunkID : ℕ
  payload : Bytes
  ackRequest : Bool := true
  deriving DecidableEq, Repr

/-- The frames of a transfer from its sender. -/
inductive Request
  | begin (m : TransferBegin)
  | data (c : Chunk)
  | finish
  deriving DecidableEq, Repr

/-- The frames of a transfer from its receiver. -/
inductive Reply
  | ack (a : Ack)
  | nack (n : Nack)
  | window (windowBytes windowChunks : ℕ)
  | state (s : TransferState)
  deriving DecidableEq, Repr

/-! ## Geometry -/

/-- The transfer `m` announces the byte string `D`, in chunks whose number is not saturated. -/
structure TransferBegin.Covers (m : TransferBegin) (D : Bytes) : Prop where
  totalSize : m.totalSize = D.length
  chunkSize : 0 < m.chunkSize
  chunkCount : m.chunkCount = chunkCountFor m.totalSize m.chunkSize
  unsaturated : m.chunkCount < maxUint32

theorem chunkCountFor_le (totalSize chunkSize : ℕ) :
    chunkCountFor totalSize chunkSize ≤ maxUint32 := by
  simp only [chunkCountFor]
  split_ifs
  · exact Nat.zero_le _
  · exact Nat.le_refl _
  · omega

/-- A transfer that is sent announces its byte string. -/
theorem covers_announce {D : Bytes} {chunkSize flags : ℕ} {checksum : Bytes}
    (h : (announce D chunkSize flags checksum).sendable = true) :
    (announce D chunkSize flags checksum).Covers D := by
  simp only [TransferBegin.sendable, Bool.and_eq_true, decide_eq_true_eq,
    Bool.not_eq_true', Bool.and_eq_false_iff, decide_eq_false_iff_not, beq_eq_false_iff_ne] at h
  refine ⟨rfl, h.1, rfl, ?_⟩
  rcases h.2 with hzero | hne
  · have : D.length = 0 := by simpa [announce] using hzero
    simp [announce, chunkCountFor, this, maxUint32]
  · exact Nat.lt_of_le_of_ne (chunkCountFor_le _ _) hne

namespace TransferBegin

variable {m : TransferBegin} {D : Bytes} {k : ℕ}

/-- The chunk `k` of the byte string `D`. -/
def chunk (m : TransferBegin) (D : Bytes) (k : ℕ) : Bytes := piece m.chunkSize D k

/-- The number of bytes in the first `k` chunks. -/
def offset (m : TransferBegin) (k : ℕ) : ℕ := Piece.offset m.chunkSize m.totalSize k

/-- The chunks cover the byte string, and none of them is empty. -/
theorem Covers.count_bounds (h : m.Covers D) :
    D.length ≤ m.chunkCount * m.chunkSize ∧
      ∀ k < m.chunkCount, k * m.chunkSize < D.length := by
  obtain ⟨htotal, hpos, hcount, hsat⟩ := h
  rw [chunkCountFor, htotal] at hcount
  by_cases hzero : D.length = 0
  · rw [if_pos hzero] at hcount
    exact ⟨by omega, fun k hk => by omega⟩
  · rw [if_neg hzero] at hcount
    have hle : m.chunkCount = 1 + (D.length - 1) / m.chunkSize := by
      simp only at hcount
      split_ifs at hcount with hbig
      · omega
      · exact hcount
    have hmod := Nat.div_add_mod (D.length - 1) m.chunkSize
    have hlt := Nat.mod_lt (D.length - 1) hpos
    constructor
    · rw [hle, Nat.add_mul, Nat.mul_comm (_ / _)]
      omega
    · intro k hk
      have : k * m.chunkSize ≤ (D.length - 1) / m.chunkSize * m.chunkSize :=
        Nat.mul_le_mul_right _ (by omega)
      rw [Nat.mul_comm (_ / _)] at this
      omega

theorem Covers.length_le (h : m.Covers D) : D.length ≤ m.chunkCount * m.chunkSize :=
  h.count_bounds.1

theorem Covers.chunk_length_pos (h : m.Covers D) (hk : k < m.chunkCount) :
    0 < (m.chunk D k).length := by
  have := h.count_bounds.2 k hk
  have := h.chunkSize
  rw [chunk, length_piece]
  omega

theorem Covers.chunk_length_le (_ : m.Covers D) : (m.chunk D k).length ≤ m.chunkSize := by
  rw [chunk, length_piece]
  exact Nat.min_le_left _ _

theorem Covers.offset_succ (h : m.Covers D) :
    m.offset (k + 1) = m.offset k + (m.chunk D k).length := by
  rw [offset, offset, h.totalSize]
  exact Piece.offset_succ

theorem Covers.offset_count (h : m.Covers D) : m.offset m.chunkCount = m.totalSize := by
  have := h.length_le
  rw [offset, Piece.offset, h.totalSize]
  omega

theorem offset_mono {j : ℕ} (h : j ≤ k) : m.offset j ≤ m.offset k := Piece.offset_mono h

theorem Covers.offset_lt {j : ℕ} (h : m.Covers D) (hj : j < m.chunkCount) (hjk : j < k) :
    m.offset j < m.offset k :=
  Piece.offset_lt h.chunkSize hjk (h.totalSize ▸ h.count_bounds.2 j hj)

theorem Covers.lt_chunkCount (h : m.Covers D) (hk : m.offset k < m.totalSize) :
    k < m.chunkCount := by
  by_contra hge
  have := m.offset_mono (Nat.not_lt.mp hge)
  rw [h.offset_count] at this
  omega

/-- The chunks are the byte string. -/
theorem Covers.flatten (h : m.Covers D) : (pieces m.chunkSize D m.chunkCount).flatten = D :=
  flatten_pieces_all h.length_le

end TransferBegin

end Etp.Transfer
