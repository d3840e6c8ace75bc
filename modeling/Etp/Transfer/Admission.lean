import Etp.Storage.Metadata
import Etp.Transfer.Link
import Etp.Wire.Message
import Mathlib.Algebra.Order.BigOperators.Group.Finset

/-!
# Transfers that are admitted

A receiver admits a transfer by its announcement (`Storage.checkBegin`) or by the
decision of its resume store (`Storage.checkDecision`). Both compare the number of
chunks with `chunkCountFor`, which saturates at the largest `uint32`.

`TransferBegin.Exact` says that the chunks cover the transfer and that none of
them is empty; an admitted transfer is exact unless its size is more than
`2 ^ 32 - 1` chunks hold (`Admitted.exact`). The size that the receiver asks of a
chunk (`demand`) is then what the chunk adds to the bytes before it
(`Exact.offset_succ`), so that all chunks add up to the transfer.
-/

namespace Etp.Transfer

namespace TransferBegin

/-- The size that `handleIncomingTransferData` asks of the chunk `k`. -/
def demand (m : TransferBegin) (k : ℕ) : ℕ :=
  if k + 1 = m.chunkCount then (m.totalSize - k * m.chunkSize) % 2 ^ 32 else m.chunkSize

/-- The chunks cover the transfer, and none of them is empty. -/
structure Exact (m : TransferBegin) : Prop where
  word : m.chunkSize < 2 ^ 32
  chunkSize : 0 < m.chunkSize
  covers : m.totalSize ≤ m.chunkCount * m.chunkSize
  needed : ∀ k < m.chunkCount, k * m.chunkSize < m.totalSize

variable {m : TransferBegin} {k : ℕ}

theorem exact_of_chunkCountFor (hword : m.chunkSize < 2 ^ 32) (hpos : 0 < m.chunkSize)
    (hcount : m.chunkCount = chunkCountFor m.totalSize m.chunkSize)
    (hsize : m.totalSize ≤ maxUint32 * m.chunkSize) : m.Exact := by
  rw [chunkCountFor] at hcount
  by_cases hzero : m.totalSize = 0
  · rw [if_pos hzero] at hcount
    exact ⟨hword, hpos, by omega, fun k hk => by omega⟩
  · rw [if_neg hzero] at hcount
    have hdiv := Nat.div_add_mod (m.totalSize - 1) m.chunkSize
    have hmod := Nat.mod_lt (m.totalSize - 1) hpos
    -- the number of chunks does not saturate
    have hlt : (m.totalSize - 1) / m.chunkSize < maxUint32 := by
      rw [Nat.div_lt_iff_lt_mul hpos]
      omega
    have heq : m.chunkCount = 1 + (m.totalSize - 1) / m.chunkSize := by
      simp only at hcount
      rwa [if_neg (by omega)] at hcount
    refine ⟨hword, hpos, ?_, fun k hk => ?_⟩
    · rw [heq, Nat.add_mul, Nat.mul_comm (_ / _)]
      omega
    · have hle : k * m.chunkSize ≤ (m.totalSize - 1) / m.chunkSize * m.chunkSize :=
        Nat.mul_le_mul_right _ (by omega)
      rw [Nat.mul_comm (_ / _)] at hle
      omega

namespace Exact

/-- What a receiver asks of a chunk is what remains, up to the size of a chunk. -/
theorem demand_eq (h : m.Exact) (hk : k < m.chunkCount) :
    m.demand k = min m.chunkSize (m.totalSize - k * m.chunkSize) := by
  have hword := h.word
  rw [demand]
  split_ifs with hlast
  · have hcovers := h.covers
    rw [← hlast, Nat.add_mul, Nat.one_mul] at hcovers
    rw [Nat.mod_eq_of_lt (by omega)]
    omega
  · have hnext := h.needed (k + 1) (by omega)
    rw [Nat.add_mul, Nat.one_mul] at hnext
    omega

theorem demand_pos (h : m.Exact) (hk : k < m.chunkCount) : 0 < m.demand k := by
  have hsize := h.chunkSize
  have hneeded := h.needed k hk
  rw [h.demand_eq hk]
  omega

theorem demand_le (h : m.Exact) (hk : k < m.chunkCount) : m.demand k ≤ m.chunkSize := by
  rw [h.demand_eq hk]
  exact Nat.min_le_left _ _

theorem offset_succ (h : m.Exact) (hk : k < m.chunkCount) :
    m.offset (k + 1) = m.offset k + m.demand k := by
  have hneeded := h.needed k hk
  rw [h.demand_eq hk, offset, offset, Piece.offset, Piece.offset, Nat.add_mul, Nat.one_mul]
  omega

theorem offset_count (h : m.Exact) : m.offset m.chunkCount = m.totalSize :=
  Nat.min_eq_right h.covers

theorem offset_pos (h : m.Exact) (hpos : 0 < k) (hk : k ≤ m.chunkCount) : 0 < m.offset k := by
  have hsize := h.chunkSize
  have hneeded := h.needed 0 (by omega)
  have hprod := Nat.mul_pos hpos hsize
  rw [offset, Piece.offset]
  omega

/-- The sizes of the first chunks add up to their bytes. -/
theorem sum_demand (h : m.Exact) (hk : k ≤ m.chunkCount) :
    ∑ j ∈ Finset.range k, m.demand j = m.offset k := by
  induction k with
  | zero => simp [offset]
  | succ k ih => rw [Finset.sum_range_succ, ih (by omega), h.offset_succ hk]

end Exact

end TransferBegin

end Etp.Transfer

/-! ## Announcements on the wire -/

namespace Etp.Wire

/-- The size that `handleIncomingTransferData` asks of the chunk `k`, as it computes it. -/
def TransferBegin.demanded (v : TransferBegin) (k : UInt32) : UInt32 :=
  if k + 1 = v.chunkCount then (v.totalSize - k.toUInt64 * v.chunkSize.toUInt64).toUInt32
  else v.chunkSize

end Etp.Wire

namespace Etp.Transfer

open Storage

variable {v : Wire.TransferBegin} {cfg : Storage.Config} {r : Receiver}

/-- The offset of a chunk is that of the bytes before it. -/
theorem TransferBegin.Exact.offset_of_transferOffsetForChunk {m : TransferBegin}
    {nextChunk n : ℕ} (hm : m.Exact)
    (hcount : m.chunkCount = chunkCountFor m.totalSize m.chunkSize)
    (h : Storage.transferOffsetForChunk m.totalSize m.chunkSize nextChunk = some n) :
    nextChunk ≤ m.chunkCount ∧ n = m.offset nextChunk := by
  rw [Storage.transferOffsetForChunk, ← hcount] at h
  split_ifs at h with hbad hlast hover
  all_goals
    push Not at hbad
    refine ⟨hbad.2, ?_⟩
  · rw [hlast, hm.offset_count]
    exact (Option.some.inj h).symm
  · rw [TransferBegin.offset, Piece.offset, Nat.min_eq_left (Nat.not_le.mp hover).le]
    exact (Option.some.inj h).symm

/-- The words of the receiver compute the size that it asks of a chunk. -/
theorem toNat_demanded (h : (Meta.ofWire v).Exact) {k : UInt32} (hk : k < v.chunkCount) :
    (v.demanded k).toNat = (Meta.ofWire v).demand k.toNat := by
  have hlt : k.toNat < v.chunkCount.toNat := hk
  have hneeded : k.toNat * v.chunkSize.toNat < v.totalSize.toNat := h.needed k.toNat hk
  have hcount := v.chunkCount.toNat_lt
  have htotal := v.totalSize.toNat_lt
  have hlast : k + 1 = v.chunkCount ↔ k.toNat + 1 = (Meta.ofWire v).chunkCount := by
    show _ ↔ k.toNat + 1 = v.chunkCount.toNat
    rw [← UInt32.toNat_inj, UInt32.toNat_add, UInt32.toNat_one, Nat.mod_eq_of_lt (by omega)]
  -- the product stays below the size, so that neither it nor the difference wraps
  have hprod : (k.toUInt64 * v.chunkSize.toUInt64).toNat = k.toNat * v.chunkSize.toNat := by
    rw [UInt64.toNat_mul, UInt32.toNat_toUInt64, UInt32.toNat_toUInt64,
      Nat.mod_eq_of_lt (by omega)]
  rw [Wire.TransferBegin.demanded, TransferBegin.demand]
  by_cases hk' : k + 1 = v.chunkCount
  · rw [if_pos hk', if_pos (hlast.mp hk'), UInt64.toNat_toUInt32, UInt64.toNat_sub_of_le, hprod]
    · rfl
    · rw [UInt64.le_iff_toNat_le, hprod]
      omega
  · rw [if_neg hk', if_neg (mt hlast.mpr hk')]
    rfl

/-- The receiver of a transfer as it is registered: opened by an announcement, while the reader may
    be about to answer a frame that came too early, or by a resumption. -/
inductive Admitted (cfg : Storage.Config) (v : Wire.TransferBegin) : Receiver → Prop
  | begin (sha256 : Bool) (requestID : ℕ) (early : List Reply) :
      checkBegin cfg sha256 requestID (.ofWire v) = none →
      (early = [] ∨ ∃ f, early = [Link.unknown f]) →
      Admitted cfg v (Link.opened cfg.maxInFlightChunks (Meta.ofWire v).toTransferBegin early)
  | resume (sha256 : Bool) (requestID : ℕ) (resume : Resume) (d : Decision) :
      d.metadata = .ofWire v → checkDecision cfg sha256 requestID resume d = none →
      Admitted cfg v { tr := resumedTransfer cfg d }

namespace Admitted

/-- What both ways to admit a transfer have checked. -/
theorem checked (h : Admitted cfg v r) :
    0 < v.chunkSize.toNat ∧
      v.chunkCount.toNat = chunkCountFor v.totalSize.toNat v.chunkSize.toNat := by
  cases h with
  | begin sha256 requestID early hcheck =>
    simp only [checkBegin] at hcheck
    split_ifs at hcheck with h₁ h₂ h₃
    all_goals
      push Not at h₂ h₃
      exact ⟨Nat.pos_of_ne_zero h₂.1, h₃⟩
  | resume sha256 requestID resume d hmeta hcheck =>
    simp only [checkDecision, hmeta] at hcheck
    split_ifs at hcheck with h₁
    push Not at h₁
    exact ⟨Nat.pos_of_ne_zero h₁.2.1, h₁.2.2.2.1⟩

/-- The chunks of an admitted transfer are exact, where their number did not saturate. -/
theorem exact (h : Admitted cfg v r)
    (hsize : v.totalSize.toNat ≤ (2 ^ 32 - 1) * v.chunkSize.toNat) :
    (Meta.ofWire v).Exact := by
  obtain ⟨hpos, hcount⟩ := h.checked
  exact TransferBegin.exact_of_chunkCountFor v.chunkSize.toNat_lt hpos hcount hsize

end Admitted

end Etp.Transfer
