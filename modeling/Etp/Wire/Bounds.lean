import Etp.Lib.Scan
import Etp.Wire.Canonical

/-!
# Decoders within bounds

The decoders as scans (`Checked.M`): every index and slice expression is checked
against the length of what it reads, and the two loops record where their turns
start.

Each decoder has the same outcome as a scan as without the checks, so no
expression is out of range. A decoder without a loop is computed by rewriting,
given the length that it has checked before; the loops are followed turn by turn
(`Checked.decodeLoop_counted`).
-/

namespace Etp.Wire

open Octets List

namespace Checked

/-- The programs with checked slices. -/
abbrev M := Scan Loop Err

/-- A slice out of bounds ends the program. -/
instance : Reads M where
  fail := Scan.fail
  slice := Scan.slice
  turn := Scan.turn

/-- As a scan the decoder has the outcome `r` that it has without the checks, and no turn. -/
def Plain {α : Type} (x : M α) (r : Except Err α) : Prop := x = .ofExcept r

/-- As a scan the decoder has the outcome `r` that it has without the checks, and at most `n`
    turns of the loop `l`, at positions that increase from `lo` on. -/
def Looped {α : Type} (l : Loop) (n lo : ℕ) (x : M α) (r : Except Err α) : Prop :=
  x.outcome = some r ∧ Scan.Counted l n lo x.turns

/-! ## Words -/

section Words

variable {payload : Bytes} {pos : ℕ}

@[simp] theorem slice_eq {a b : ℕ} (hab : a ≤ b) (hb : b ≤ payload.length) :
    (Reads.slice payload a b : M Bytes) = pure (slice payload a b) := Scan.slice_eq hab hb

@[simp] theorem word8_eq (h : pos + 1 ≤ payload.length) :
    (word8 payload pos : M UInt8) = pure (uint8 (slice payload pos (pos + 1))) := by
  rw [word8, slice_eq (by omega) h, Scan.pure_bind]

@[simp] theorem word16_eq (h : pos + 2 ≤ payload.length) :
    (word16 payload pos : M UInt16) = pure (uint16 (slice payload pos (pos + 2))) := by
  rw [word16, slice_eq (by omega) h, Scan.pure_bind]

@[simp] theorem word32_eq (h : pos + 4 ≤ payload.length) :
    (word32 payload pos : M UInt32) = pure (uint32 (slice payload pos (pos + 4))) := by
  rw [word32, slice_eq (by omega) h, Scan.pure_bind]

@[simp] theorem word64_eq (h : pos + 8 ≤ payload.length) :
    (word64 payload pos : M UInt64) = pure (uint64 (slice payload pos (pos + 8))) := by
  rw [word64, slice_eq (by omega) h, Scan.pure_bind]

end Words

/-! ## Formats with a string at the end, and of a fixed length -/

variable {α : Type}

theorem Plain.tailed {fixed : ℕ} {tooSmall invalid : Err} {payload : Bytes} {message : Bytes → M α}
    {result : Bytes → Except Err α} (h4 : 4 ≤ fixed)
    (h : fixed ≤ payload.length → ∀ tail, Plain (message tail) (result tail)) :
    Plain (decodeTailed fixed tooSmall invalid payload message)
      (decodeTailed fixed tooSmall invalid payload result) := by
  rw [Plain, decodeTailed, decodeTailed]
  split_ifs with hlen
  · rfl
  · rw [word32_eq (by omega), Scan.pure_bind, word32_ok, ok_bind]
    cases hstop : checkedPayloadEnd payload fixed
        (uint32 (slice payload (fixed - 4) (fixed - 4 + 4))) with
    | none => rfl
    | some stop =>
      obtain ⟨hsum, hle⟩ := checkedPayloadEnd_some hstop
      dsimp only
      split_ifs with hall
      · rfl
      · rw [slice_eq (by omega) hle, Scan.pure_bind, h (by omega), slice_ok, ok_bind]

/-- A decoder that has checked the length of the payload. -/
theorem Plain.sized {payload : Bytes} {n : ℕ} {wrong : Err} {x : M α} {r : Except Err α}
    (h : payload.length = n → Plain x r) :
    Plain (if payload.length ≠ n then Reads.fail wrong else x)
      (if payload.length ≠ n then Reads.fail wrong else r) := by
  split_ifs with hlen
  · rfl
  · exact h (not_not.mp hlen)

/-! ## Strings and lists -/

section Lists

variable {payload : Bytes}

theorem readString_plain (pos : ℕ) (invalid : Err) :
    Plain (readString payload pos invalid) (readString payload pos invalid) := by
  rw [Plain, readString, readString]
  split_ifs with hlen
  · rfl
  · rw [word32_eq (by omega), Scan.pure_bind, word32_ok, ok_bind]
    cases hstop : checkedPayloadEnd payload (pos + 4) (uint32 (slice payload pos (pos + 4))) with
    | none => rfl
    | some stop =>
      obtain ⟨hsum, hle⟩ := checkedPayloadEnd_some hstop
      dsimp only
      rw [slice_eq (by omega) hle, Scan.pure_bind]
      rfl

theorem readUint32_plain (pos : ℕ) (invalid : Err) :
    Plain (readUint32 payload pos invalid) (readUint32 payload pos invalid) := by
  rw [Plain, readUint32, readUint32]
  split_ifs with hlen
  · rfl
  · rw [word32_eq (by omega), Scan.pure_bind]
    rfl

/-- What follows a turn of a loop. -/
theorem turn_bind (l : Loop) (pos : ℕ) (f : Unit → M α) :
    (Reads.turn l pos >>= f) = ⟨(l, pos) :: (f ()).turns, (f ()).outcome⟩ := rfl

theorem Plain.bind {α β : Type} {y : M α} {x : Except Err α} (hy : Plain y x) {f : α → M β}
    {g : α → Except Err β} (h : ∀ a, x = .ok a → Plain (f a) (g a)) :
    Plain (y >>= f) (x >>= g) := by
  subst hy
  cases x with
  | error err => rfl
  | ok a => exact h a rfl

theorem decodeTransferField_plain (pos : ℕ) :
    Plain (decodeTransferField payload pos) (decodeTransferField payload pos) :=
  (readString_plain _ _).bind fun _ _ => (readString_plain _ _).bind fun _ _ => rfl

theorem decodeTransferPart_plain (pos : ℕ) :
    Plain (decodeTransferPart payload pos) (decodeTransferPart payload pos) := by
  refine (readString_plain _ _).bind fun ⟨field, pos₁⟩ _ => ?_
  refine (readUint32_plain _ _).bind fun ⟨index, pos₂⟩ _ => ?_
  refine (readString_plain _ _).bind fun ⟨name, pos₃⟩ _ => ?_
  dsimp only
  split_ifs with hroom
  · rfl
  · simp (disch := omega) [Plain, Scan.pure_bind]
    rfl

/-- A loop does what it does without checks, in as many turns as are left at most and at positions
    that increase. -/
theorem decodeLoop_counted {l : Loop} {entry : ℕ → M (α × ℕ)} {result : ℕ → Except Err (α × ℕ)}
    (hentry : ∀ pos, Plain (entry pos) (result pos))
    (hlt : ∀ {pos a stop}, result pos = .ok (a, stop) → pos < stop) (count pos : ℕ)
    (read : List α) :
    Looped l count pos (decodeLoop l entry count pos read)
      (decodeLoop l result count pos read) := by
  induction count generalizing pos read with
  | zero => exact ⟨rfl, Scan.counted_nil _ _ _⟩
  | succ count ih =>
    rw [Looped, decodeLoop, decodeLoop, turn_bind, turn_ok, ok_bind, hentry pos]
    cases hitem : result pos with
    | error err =>
      -- if the entry is refused, no turn follows
      exact ⟨rfl, (Scan.counted_nil l count (pos + 1)).cons (Nat.lt_succ_self pos)⟩
    | ok r =>
      have hrest := ih r.2 (read ++ [r.1])
      exact ⟨hrest.1, hrest.2.cons (hlt hitem)⟩

/-- A decoder that fails or returns without a loop. -/
theorem Plain.looped {x : M α} {r : Except Err α} (h : Plain x r) (l : Loop) (n lo : ℕ) :
    Looped l n lo x r := by
  subst h
  exact ⟨rfl, Scan.counted_nil _ _ _⟩

/-- What follows a loop has none. -/
theorem Looped.bind {α β : Type} {l : Loop} {n lo : ℕ} {x : M α} {r : Except Err α}
    (hx : Looped l n lo x r) {f : α → M β} {g : α → Except Err β}
    (h : ∀ a, Plain (f a) (g a)) : Looped l n lo (x >>= f) (r >>= g) := by
  obtain ⟨hout, hturns⟩ := hx
  cases r with
  | error err =>
    rw [Scan.bind_of_error hout]
    exact ⟨rfl, hturns⟩
  | ok a =>
    rw [Scan.bind_of_ok hout, h a]
    exact ⟨rfl, by rwa [Scan.ofExcept, append_nil]⟩

theorem decodeTransferFields_counted (payload : Bytes) :
    Looped .fields maxTransferFields 4 (decodeTransferFields payload)
      (decodeTransferFields payload) := by
  rw [decodeTransferFields, decodeTransferFields]
  by_cases hnil : payload.length = 0
  · rw [if_pos hnil, if_pos hnil]
    exact Plain.looped rfl _ _ _
  · rw [if_neg hnil, if_neg hnil]
    by_cases hlen : payload.length < 4
    · rw [if_pos hlen, if_pos hlen]
      exact Plain.looped rfl _ _ _
    · rw [if_neg hlen, if_neg hlen, word32_eq (by omega), Scan.pure_bind, word32_ok, ok_bind]
      dsimp only
      split_ifs with hcount
      · exact Plain.looped rfl _ _ _
      · push Not at hcount
        have hloop := decodeLoop_counted (l := .fields) (@decodeTransferField_plain payload)
          (fun h => (decodeTransferField_inv h).2.1) (uint32 (slice payload 0 (0 + 4))).toNat 4 []
        refine Looped.bind ⟨hloop.1, hloop.2.mono hcount.1⟩ fun r => ?_
        split_ifs <;> rfl

theorem decodeTransferParts_counted (payload : Bytes) :
    Looped .parts maxTransferParts 4 (decodeTransferParts payload)
      (decodeTransferParts payload) := by
  rw [decodeTransferParts, decodeTransferParts]
  by_cases hlen : payload.length < 4
  · rw [if_pos hlen, if_pos hlen]
    exact Plain.looped rfl _ _ _
  · rw [if_neg hlen, if_neg hlen, word32_eq (by omega), Scan.pure_bind, word32_ok, ok_bind]
    dsimp only
    split_ifs with hcount
    · exact Plain.looped rfl _ _ _
    · push Not at hcount
      have hloop := decodeLoop_counted (l := .parts) (@decodeTransferPart_plain payload)
        (fun h => (decodeTransferPart_inv h).2.1) (uint32 (slice payload 0 (0 + 4))).toNat 4 []
      exact ⟨hloop.1, hloop.2.mono hcount.1⟩

end Lists

/-! ## Formats with blocks -/

/-- The scan returns `r` without a panic, with a loop over parts and then a loop over fields. -/
def Within {α : Type} (x : M α) (r : Except Err α) : Prop :=
  x.outcome = some r ∧ ∃ ts us, x.turns = ts ++ us ∧
    Scan.Counted .parts maxTransferParts 4 ts ∧ Scan.Counted .fields maxTransferFields 4 us

section Within

variable {α β : Type}

theorem Plain.within {x : M α} {r : Except Err α} (h : Plain x r) : Within x r := by
  subst h
  exact ⟨rfl, [], [], rfl, Scan.counted_nil _ _ _, Scan.counted_nil _ _ _⟩

theorem Within.map {x : M α} {r : Except Err α} (h : Within x r) (f : α → β) :
    Within (f <$> x) (f <$> r) := by
  obtain ⟨hout, hturns⟩ := h
  show Within (x >>= fun a => pure (f a)) _
  cases r with
  | error err =>
    rw [Scan.bind_of_error hout]
    exact ⟨rfl, hturns⟩
  | ok a =>
    rw [Scan.bind_of_ok hout, Scan.pure_eq]
    refine ⟨rfl, ?_⟩
    rwa [show (x.turns ++ (Scan.ofExcept (.ok (f a)) : M β).turns) = x.turns from
      append_nil _]

/-- A scan with a loop over fields only. -/
theorem Looped.within {x : M α} {r : Except Err α} (h : Looped .fields maxTransferFields 4 x r) :
    Within x r :=
  ⟨h.1, [], _, rfl, Scan.counted_nil _ _ _, h.2⟩

/-- The parts are read, and the loop over the fields may follow. -/
theorem decodeTransferParts_bind (block : Bytes) {f : List TransferPart × ℕ → M α}
    {g : List TransferPart × ℕ → Except Err α}
    (h : ∀ r, decodeTransferParts block = .ok r →
      Looped .fields maxTransferFields 4 (f r) (g r)) :
    Within (decodeTransferParts block >>= f) (decodeTransferParts block >>= g) := by
  obtain ⟨hout, hturns⟩ := decodeTransferParts_counted block
  cases hresult : (decodeTransferParts block : Except Err _) with
  | error err =>
    rw [hresult] at hout
    rw [Scan.bind_of_error hout]
    exact ⟨rfl, _, [], (append_nil _).symm, hturns, Scan.counted_nil _ _ _⟩
  | ok r =>
    obtain ⟨houtf, hturnsf⟩ := h r hresult
    rw [hresult] at hout
    rw [Scan.bind_of_ok hout, ok_bind]
    exact ⟨houtf, _, _, rfl, hturns, hturnsf⟩

/-- A scan that fails or returns without a loop goes on with the rest. -/
theorem Plain.within_bind {x : M α} {r : Except Err α} (hx : Plain x r) {f : α → M β}
    {g : α → Except Err β} (h : ∀ a, r = .ok a → Within (f a) (g a)) :
    Within (x >>= f) (r >>= g) := by
  subst hx
  cases r with
  | error err => exact Plain.within rfl
  | ok a => exact h a rfl

end Within

theorem decodeEventMessage_within (payload : Bytes) :
    Within (decodeEventMessage payload) (decodeEventMessage payload) := by
  rw [decodeEventMessage, decodeEventMessage]
  split_ifs with hlen
  · exact Plain.within rfl
  · rw [word32_eq (by omega), Scan.pure_bind, word32_ok, ok_bind]
    cases hevent : checkedPayloadEnd payload 4 (uint32 (slice payload 0 (0 + 4))) with
    | none => exact Plain.within rfl
    | some pos =>
      obtain ⟨hpos, hposle⟩ := checkedPayloadEnd_some hevent
      dsimp only
      split_ifs with hroom
      · exact Plain.within rfl
      · rw [word32_eq (by omega), Scan.pure_bind, word32_ok, ok_bind]
        cases hdata : checkedPayloadEnd payload (pos + 4)
            (uint32 (slice payload pos (pos + 4))) with
        | none => exact Plain.within rfl
        | some stop =>
          obtain ⟨hstop, hstople⟩ := checkedPayloadEnd_some hdata
          dsimp only
          rw [slice_eq hstople le_rfl, Scan.pure_bind, slice_ok, ok_bind]
          refine ((decodeTransferFields_counted _).bind fun fields => ?_).within
          rw [slice_eq (by omega) hposle, Scan.pure_bind, slice_eq (by omega) hstople,
            Scan.pure_bind]
          rfl

theorem decodeTransferBegin_within (payload : Bytes) :
    Within (decodeTransferBegin payload) (decodeTransferBegin payload) := by
  rw [decodeTransferBegin, decodeTransferBegin]
  split_ifs with hlen
  · exact Plain.within rfl
  · rw [word32_eq (by omega), Scan.pure_bind, word32_ok, ok_bind]
    cases hname : checkedPayloadEnd payload 60 (uint32 (slice payload 56 (56 + 4))) with
    | none => exact Plain.within rfl
    | some pos₁ =>
      obtain ⟨hpos₁, hle₁⟩ := checkedPayloadEnd_some hname
      dsimp only
      rw [slice_eq (by omega) (by omega), Scan.pure_bind, slice_ok, ok_bind]
      refine (readString_plain _ _).within_bind fun event _ => ?_
      refine (readString_plain _ _).within_bind fun fieldName _ => ?_
      refine (readUint32_plain _ _).within_bind fun index hindex => ?_
      obtain ⟨-, hle₄, -⟩ := readUint32_inv hindex
      rw [slice_eq hle₄ le_rfl, Scan.pure_bind, slice_ok, ok_bind]
      refine decodeTransferParts_bind _ fun parts hparts => ?_
      -- the parts end within the payload, so the rest of it is a slice
      obtain ⟨-, -, hsize, -⟩ := decodeTransferParts_inv hparts
      rw [length_slice le_rfl] at hsize
      rw [slice_eq (by omega) le_rfl, Scan.pure_bind, slice_ok, ok_bind]
      refine (decodeTransferFields_counted _).bind fun fields => ?_
      simp (disch := omega) only [Plain, word32_eq, word64_eq, Scan.pure_bind]
      rw [slice_eq (by omega) hle₁, Scan.pure_bind]
      rfl

theorem decodeMessage_within (t : FrameType) (payload : Bytes) :
    Within (Message.decode t payload) (Message.decode t payload) := by
  cases t with
  | request | response => exact (decodeEventMessage_within payload).map _
  | transferBegin => exact (decodeTransferBegin_within payload).map _
  -- a string at the end, with and without a check of what is before it
  | hello | helloAck | error | goAway =>
    refine (Plain.tailed (by omega) fun hlen tail => ?_).within.map _
    simp (disch := omega) [Plain, Scan.pure_bind]
    split_ifs <;> rfl
  | transferResume | auth | authReject =>
    refine (Plain.tailed (by omega) fun hlen tail => ?_).within.map _
    simp (disch := omega) [Plain, Scan.pure_bind]
    rfl
  | authAccept => exact (Plain.tailed le_rfl fun _ _ => rfl).within.map _
  -- a fixed length, likewise
  | close | closeAck | window | nack | cancel | cancelAck =>
    refine (Plain.sized fun hlen => ?_).within.map _
    simp (disch := omega) [Plain, Scan.pure_bind]
    split_ifs <;> rfl
  | transferState | ack =>
    refine (Plain.sized fun hlen => ?_).within.map _
    simp (disch := omega) [Plain, Scan.pure_bind]
    rfl
  | data | ping | pong | transferEnd | unknown _ => exact Plain.within rfl

theorem decode_within (f : Format) (payload : Bytes) :
    Within (f.decode payload) (f.decode payload) := by
  cases f with
  | text => exact (Plain.tailed le_rfl fun _ _ => rfl).within.map _
  | frame t => exact (decodeMessage_within t payload).map _

/-- Each loop takes few turns, each further on than the one before. -/
theorem Within.positions {x : M α} {r : Except Err α} (h : Within x r) (l : Loop) :
    (Scan.positions l x.turns).length ≤ 1024 ∧
      (Scan.positions l x.turns).Pairwise (· < ·) := by
  obtain ⟨-, ts, us, hturns, hparts, hfields⟩ := h
  rw [hturns, Scan.positions_append]
  cases l with
  | parts =>
    rw [hfields.positions_ne (by decide), append_nil]
    exact hparts.positions_same
  | fields =>
    rw [hparts.positions_ne (by decide), nil_append]
    exact hfields.positions_same

end Checked

/-! ## What a begin looks like -/

/-- The payload of the begin of a transfer: words and checksum, three strings, the index, the block
    of parts, and nothing or a block of fields up to the end. -/
def BeginLayout (payload : Bytes) : Prop :=
  ∃ (front name event field : Bytes) (index : UInt32) (parts : List TransferPart) (block : Bytes),
    payload = front ++ (stringBytes name ++ (stringBytes event ++ (stringBytes field ++
      (be32 index ++ (partsBytes parts ++ block))))) ∧
    front.length = 56 ∧
    (name.length < 2 ^ 32 ∧ event.length < 2 ^ 32 ∧ field.length < 2 ^ 32) ∧
    (parts.length ≤ 1024 ∧ ∀ part ∈ parts, part.Spelt) ∧
    (block = [] ∨ ∃ fields : List TransferField, fields.length ≤ 1024 ∧
      (∀ field ∈ fields, field.Spelt) ∧
      block = be32 (.ofNat fields.length) ++ fields.flatMap TransferField.bytes)

/-- Any 56 bytes are the words and the checksum of some begin. -/
theorem exists_front {front : Bytes} (h : front.length = 56) : ∃ v : TransferBegin,
    v.front = front := by
  refine ⟨{ totalSize := uint64 (slice front 0 8), chunkSize := uint32 (slice front 8 12),
            chunkCount := uint32 (slice front 12 16), contentType := uint32 (slice front 16 20),
            flags := uint32 (slice front 20 24), checksum := Digest.copy (slice front 24 56)
            name := [], event := [], field := [], index := 0, parts := [], fields := [] }, ?_⟩
  have hdigest : (Digest.copy (slice front 24 56)).val = slice front 24 56 :=
    Digest.val_copy (length_slice (by omega))
  simp (disch := omega) only [TransferBegin.front,
    be64_slice, be32_slice, hdigest, slice_append_slice]
  rw [slice, drop_zero, ← h, take_length]

theorem decodeTransferBegin_accepts (payload : Bytes) :
    (∃ v, decodeTransferBegin payload = .ok v) ↔ BeginLayout payload := by
  constructor
  · rintro ⟨v, hv⟩
    obtain ⟨hspelt, block, rfl, hfields⟩ := decodeTransferBegin_inv hv
    refine ⟨v.front, v.name, v.event, v.field, v.index, v.parts, block, ?_, v.length_front,
      ⟨hspelt.name, hspelt.event, hspelt.field⟩, ⟨hspelt.count, hspelt.parts⟩, ?_⟩
    · simp only [TransferBegin.head, append_assoc]
    · obtain ⟨hcount, hall, ⟨rfl, -⟩ | hblock⟩ := decodeTransferFields_inv hfields
      · exact .inl rfl
      · exact .inr ⟨v.fields, hcount, hall, hblock⟩
  · rintro ⟨front, name, event, field, index, parts, block, rfl, hfront, ⟨hname, hevent, hfield⟩,
      ⟨hcount, hparts⟩, hblock⟩
    obtain ⟨w, rfl⟩ := exists_front hfront
    have hspelt : TransferBegin.Spelt { w with name, event, field, index, parts } :=
      ⟨hname, hevent, hfield, hparts, hcount⟩
    obtain ⟨fields, hfields⟩ : ∃ fields, decodeTransferFields block = .ok fields := by
      rcases hblock with rfl | ⟨fields, hcount', hall, rfl⟩
      · exact ⟨[], rfl⟩
      · exact ⟨fields, decodeTransferFields_block hcount' hall⟩
    refine ⟨{ w with name, event, field, index, parts, fields }, ?_⟩
    have hdecode := decodeTransferBegin_eq hspelt block
    rw [hfields] at hdecode
    simp only [TransferBegin.head, append_assoc] at hdecode
    exact hdecode

/-- The decoders stay within their payload: every slice is in range, so the outcome is that of the
    decoder, the loops take at most 1024 turns at increasing positions; and the begins that are
    accepted are those of the layout. -/
theorem decode_in_bounds :
    (∀ (f : Format) (payload : Bytes),
      (f.decode payload : Checked.M Payload).outcome = some (f.decode payload) ∧
      ∀ l : Loop,
        (Scan.positions l (f.decode payload : Checked.M Payload).turns).length ≤ 1024 ∧
        (Scan.positions l (f.decode payload : Checked.M Payload).turns).Pairwise (· < ·)) ∧
    ∀ payload : Bytes, (∃ v, decodeTransferBegin payload = .ok v) ↔ BeginLayout payload := by
  refine ⟨fun f payload => ?_, decodeTransferBegin_accepts⟩
  have hwithin := Checked.decode_within f payload
  exact ⟨hwithin.1, hwithin.positions⟩

end Etp.Wire
