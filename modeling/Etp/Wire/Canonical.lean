import Etp.Wire.Message

/-!
# Canonical payloads

What a decoder accepts, for each of the seventeen payload formats: the bytes it
was given are spelt by the message it returns.

* A format of fixed length is a row of words; each word spells its own slice and
  adjacent slices join, the reserved bytes being zero.
* A format that ends in a string has the string's length in its last word (`decodeTailed_inv`).
* The loops over parts and fields pass over exactly the bytes of what they
  collect (`decodeLoop_inv`).

The block of fields of an event or of the begin of a transfer has two spellings
when there are no fields: it is absent, or it is the count zero
(`decodeTransferFields_inv`). Only the first is what the encoder writes.
-/

namespace Etp.Wire

open Octets List

/-- Bytes that are zero. -/
theorem eq_zeros_of_zeroBytes {data : Bytes} {n : ℕ} (h : zeroBytes data = true)
    (hlen : data.length = n) : zeros n = data := by
  rw [zeroBytes, all_eq_true] at h
  rw [zeros, ← hlen]
  exact (eq_replicate_iff.mpr ⟨rfl, fun b hb => beq_iff_eq.mp (h b hb)⟩).symm

/-! ## Formats with a string at the end -/

section Tailed

variable {fixed : ℕ} {payload : Bytes}

theorem checkedPayloadEnd_some {start stop : ℕ} {length : UInt32}
    (h : checkedPayloadEnd payload start length = some stop) :
    stop = start + length.toNat ∧ stop ≤ payload.length := by
  rw [checkedPayloadEnd] at h
  split_ifs at h with hfit
  cases h
  exact ⟨rfl, by omega⟩

/-- The string that `decodeTailed` hands on is the rest of the payload, and its length is the word
    before it. -/
theorem decodeTailed_inv {α : Type} {tooSmall invalid : Err} {message : Bytes → Except Err α}
    {v : α} (h : decodeTailed fixed tooSmall invalid payload message = .ok v) (h4 : 4 ≤ fixed) :
    fixed ≤ payload.length ∧ message (slice payload fixed payload.length) = .ok v ∧
      be32 (.ofNat (slice payload fixed payload.length).length) =
        slice payload (fixed - 4) fixed := by
  have hfixed : fixed - 4 + 4 = fixed := by omega
  rw [decodeTailed] at h
  split_ifs at h with hlen
  rw [word32_ok, ok_bind, hfixed] at h
  cases hstop : checkedPayloadEnd payload fixed (uint32 (slice payload (fixed - 4) fixed)) with
  | none => simp [hstop] at h
  | some stop =>
    obtain ⟨hsum, -⟩ := checkedPayloadEnd_some hstop
    simp only [hstop] at h
    split_ifs at h with hall
    push Not at hall
    rw [hall] at h hsum
    refine ⟨by omega, h, ?_⟩
    have hnat : (slice payload fixed payload.length).length =
        (uint32 (slice payload (fixed - 4) fixed)).toNat := by
      rw [length_slice le_rfl]
      omega
    rw [hnat, UInt32.ofNat_toNat, be32_slice (by omega) (by omega)]

/-- The words and the string that were read are encoded as the payload. -/
theorem encodeTailed_slices {ws : List (ℕ × Bytes)} (tooLarge : Err) (dst : Bytes)
    (hws : Gapless 0 (ws ++ [(fixed - 4, be32 (.ofNat (slice payload fixed payload.length).length)),
      (fixed, slice payload fixed payload.length)]))
    (hwords : ws.flatMap Prod.snd = slice payload 0 (fixed - 4)) (h4 : 4 ≤ fixed)
    (hlen : fixed ≤ payload.length) (hword : be32 (.ofNat (slice payload fixed
      payload.length).length) = slice payload (fixed - 4) fixed)
    (hfits : payload.length ≤ maxPayload) :
    encodeTailed fixed tooLarge dst ws (slice payload fixed payload.length) = .ok payload := by
  have htail : (slice payload fixed payload.length).length = payload.length - fixed :=
    length_slice le_rfl
  have hfront : (slice payload 0 (fixed - 4)).length = fixed - 4 := by
    rw [length_slice (by omega)]
    omega
  rw [encodeTailed_ok tooLarge dst hws (by rw [hwords, hfront]; omega) (by omega), hwords, hword,
    slice_append_slice (by omega) hlen, slice_append_slice (by omega) (by omega), slice_all]

end Tailed

section Words

variable {payload dst : Bytes}

/-! ## Formats with a string -/

section Fits

variable (hfits : payload.length ≤ maxPayload)
include hfits

theorem encodeHelloMessage_decoded {v : Hello} (h : decodeHelloMessage payload = .ok v) :
    encodeHelloMessage v = payload := by
  obtain ⟨hlen, hmessage, hword⟩ := decodeTailed_inv h (by omega)
  rw [slice_ok, ok_bind] at hmessage
  split_ifs at hmessage with hzero
  cases hmessage
  have hreserved : zeros 4 = slice payload 32 36 :=
    eq_zeros_of_zeroBytes (by simpa using hzero) (length_slice (by omega))
  rw [encodeHelloMessage_bytes]
  · simp (disch := omega) [hword, hreserved]
  · dsimp only
    rw [length_slice le_rfl]
    omega

theorem encodeTextMessageInto_decoded {text : Bytes} (h : decodeTextMessage payload = .ok text) :
    encodeTextMessageInto dst text = payload := by
  obtain ⟨hlen, hmessage, hword⟩ := decodeTailed_inv h le_rfl
  cases hmessage
  rw [encodeTextMessageInto_bytes (by rw [length_slice le_rfl]; omega), hword,
    slice_append_slice (by omega) hlen, slice_all]

theorem encodeErrorMessageInto_decoded {v : ErrorMessage}
    (h : decodeErrorMessage payload = .ok v) :
    encodeErrorMessageInto dst v = .ok payload := by
  obtain ⟨hlen, hmessage, hword⟩ := decodeTailed_inv h (by omega)
  rw [slice_ok, ok_bind] at hmessage
  split_ifs at hmessage with hzero
  cases hmessage
  have hreserved : zeros 3 = slice payload 5 8 :=
    eq_zeros_of_zeroBytes (by simpa using hzero) (length_slice (by omega))
  refine encodeTailed_slices _ _ (by simp [Gapless]) ?_ (by omega) hlen hword hfits
  simp (disch := omega) [hreserved]

theorem encodeGoAwayInto_decoded {v : GoAway} (h : decodeGoAway payload = .ok v) :
    encodeGoAwayInto dst v = .ok payload := by
  obtain ⟨hlen, hmessage, hword⟩ := decodeTailed_inv h (by omega)
  rw [word16_ok, ok_bind, slice_ok, ok_bind] at hmessage
  split_ifs at hmessage with hbad
  cases hmessage
  rw [Bool.not_eq_true, Bool.or_eq_false_iff, Bool.not_eq_false', Bool.not_eq_false'] at hbad
  have hreserved : zeros 2 = slice payload 6 8 :=
    eq_zeros_of_zeroBytes hbad.2 (length_slice (by omega))
  refine encodeTailed_slices _ _ (by simp [Gapless]) ?_ (by omega) hlen hword hfits
  simp (disch := omega) [hreserved]

end Fits

/-! ## Formats of fixed length -/

theorem encodeCloseMessage_decoded {v : CloseMessage} (h : decodeCloseMessage payload = .ok v) :
    encodeCloseMessage v = payload := by
  simp only [decodeCloseMessage, word16_ok, slice_ok, ok_bind] at h
  split_ifs at h with hlen hbad
  cases h
  push Not at hlen
  rw [Bool.not_eq_true, Bool.or_eq_false_iff, Bool.not_eq_false', Bool.not_eq_false'] at hbad
  have hreserved : zeros 2 = slice payload 6 8 :=
    eq_zeros_of_zeroBytes hbad.2 (length_slice (by omega))
  rw [encodeCloseMessage_bytes]
  simp (disch := omega) [hreserved]

theorem encodeWindowInto_decoded {v : Window} (h : decodeWindow payload = .ok v) :
    encodeWindowInto dst v = payload := by
  simp only [decodeWindow, word16_ok, slice_ok, ok_bind] at h
  split_ifs at h with hlen hbad
  cases h
  push Not at hlen
  rw [Bool.not_eq_true, Bool.or_eq_false_iff, Bool.not_eq_false', Bool.not_eq_false'] at hbad
  have hreserved : zeros 2 = slice payload 22 24 :=
    eq_zeros_of_zeroBytes hbad.2 (length_slice (by omega))
  rw [encodeWindowInto_bytes]
  simp (disch := omega) [hreserved]

theorem encodeTransferStateMessageInto_decoded {v : TransferStateMessage}
    (h : decodeTransferStateMessage payload = .ok v) :
    encodeTransferStateMessageInto dst v = payload := by
  rw [decodeTransferStateMessage] at h
  split_ifs at h with hlen
  cases h
  push Not at hlen
  rw [encodeTransferStateMessageInto_bytes]
  simp (disch := omega)

theorem encodeAck_decoded {v : Ack} (h : decodeAck payload = .ok v) : encodeAck v = payload := by
  rw [decodeAck] at h
  split_ifs at h with hlen
  cases h
  push Not at hlen
  rw [encodeAck_bytes]
  simp (disch := omega)

theorem encodeNack_decoded {v : Nack} (h : decodeNack payload = .ok v) :
    encodeNack v = payload := by
  simp only [decodeNack, word16_ok, ok_bind] at h
  split_ifs at h with hlen hbad
  cases h
  push Not at hlen hbad
  -- the flags are not returned, since they are zero
  have hflags : be16 0 = slice payload 18 20 := by
    rw [← hbad.2.2, be16_slice (by omega) rfl]
  rw [encodeNack_bytes]
  simp (disch := omega) [hflags]

theorem encodeCancel_decoded {v : Cancel} (h : decodeCancel payload = .ok v) :
    encodeCancel v = payload := by
  simp only [decodeCancel, word16_ok, ok_bind] at h
  split_ifs at h with hlen hbad
  cases h
  push Not at hlen
  rw [encodeCancel_bytes]
  simp (disch := omega)

theorem encodeCancelAck_decoded {v : CancelAck} (h : decodeCancelAck payload = .ok v) :
    encodeCancelAck v = payload := by
  simp only [decodeCancelAck, word8_ok, slice_ok, ok_bind] at h
  split_ifs at h with hlen hbad
  cases h
  push Not at hlen hbad
  have hreserved : zeros 7 = slice payload 9 16 :=
    eq_zeros_of_zeroBytes (by simpa using hbad.2.2) (length_slice (by omega))
  rw [encodeCancelAck_bytes]
  simp (disch := omega) [hreserved]

end Words

/-! ## Strings and lists -/

variable {v : TransferBegin}

section Lists

variable {payload : Bytes} {pos stop : ℕ}

/-- The string from the word at `pos` on, as long as the word says. -/
theorem slice_of_checkedPayloadEnd (hpos : pos + 4 ≤ payload.length)
    (h : checkedPayloadEnd payload (pos + 4) (uint32 (slice payload pos (pos + 4))) = some stop) :
    (slice payload (pos + 4) stop).length < UInt32.size ∧ pos + 4 ≤ stop ∧ stop ≤ payload.length ∧
      slice payload pos stop = stringBytes (slice payload (pos + 4) stop) := by
  obtain ⟨hsum, hle⟩ := checkedPayloadEnd_some h
  have hnat : (slice payload (pos + 4) stop).length =
      (uint32 (slice payload pos (pos + 4))).toNat := by
    rw [length_slice hle]
    omega
  refine ⟨hnat ▸ UInt32.toNat_lt _, by omega, hle, ?_⟩
  rw [stringBytes, hnat, UInt32.ofNat_toNat, be32_slice hpos rfl,
    slice_append_slice (by omega) (by omega)]

/-- What `readString` returns stands at the position. -/
theorem readString_inv {x : Bytes} {invalid : Err}
    (h : readString payload pos invalid = .ok (x, stop)) :
    x.length < UInt32.size ∧ pos + 4 ≤ stop ∧ stop ≤ payload.length ∧
      slice payload pos stop = stringBytes x := by
  rw [readString] at h
  split_ifs at h with hlen
  rw [word32_ok, ok_bind] at h
  cases hstop : checkedPayloadEnd payload (pos + 4) (uint32 (slice payload pos (pos + 4))) with
  | none => simp [hstop] at h
  | some stop' =>
    simp only [hstop, slice_ok, ok_bind] at h
    cases h
    exact slice_of_checkedPayloadEnd (by omega) hstop

theorem readUint32_inv {v : UInt32} {invalid : Err}
    (h : readUint32 payload pos invalid = .ok (v, stop)) :
    pos < stop ∧ stop ≤ payload.length ∧ slice payload pos stop = be32 v := by
  rw [readUint32] at h
  split_ifs at h with hlen
  cases h
  exact ⟨by omega, by omega, (be32_slice (by omega) rfl).symm⟩

/-- The loop passes over exactly the entries that it collects. -/
theorem decodeLoop_inv {α : Type} {l : Loop} {entry : ℕ → Except Err (α × ℕ)} {bytes : α → Bytes}
    {Spelt : α → Prop}
    (hentry : ∀ {pos a stop}, entry pos = .ok (a, stop) →
      Spelt a ∧ pos < stop ∧ stop ≤ payload.length ∧ slice payload pos stop = bytes a)
    {count : ℕ} {read items : List α} (h : decodeLoop l entry count pos read = .ok (items, stop))
    (hpos : pos ≤ payload.length) :
    pos ≤ stop ∧ stop ≤ payload.length ∧ ∃ new, items = read ++ new ∧ new.length = count ∧
      (∀ a ∈ new, Spelt a) ∧ slice payload pos stop = new.flatMap bytes := by
  induction count generalizing pos read with
  | zero =>
    cases h
    refine ⟨le_rfl, hpos, [], by simp, rfl, by simp, ?_⟩
    exact drop_of_length_le (by rw [length_take]; omega)
  | succ count ih =>
    obtain ⟨-, -, h⟩ := bind_ok h
    obtain ⟨⟨item, pos₁⟩, hitem, h⟩ := bind_ok h
    obtain ⟨hitemSpelt, hlt, hle₁, hslice₁⟩ := hentry hitem
    obtain ⟨hle, hstop, new, rfl, hcount, hspelt, hslice⟩ := ih h hle₁
    refine ⟨by omega, hstop, item :: new, by simp, by simp [hcount], ?_, ?_⟩
    · exact forall_mem_cons.mpr ⟨hitemSpelt, hspelt⟩
    · rw [flatMap_cons, ← hslice, ← hslice₁, slice_append_slice (by omega) hle]

theorem decodeTransferField_inv {field : TransferField}
    (h : decodeTransferField payload pos = .ok (field, stop)) :
    field.Spelt ∧ pos < stop ∧ stop ≤ payload.length ∧
      slice payload pos stop = field.bytes := by
  obtain ⟨⟨key, pos₁⟩, hkey, h⟩ := bind_ok h
  obtain ⟨⟨value, pos₂⟩, hvalue, h⟩ := bind_ok h
  cases h
  obtain ⟨hkeySpelt, hlt₁, hle₁, hslice₁⟩ := readString_inv hkey
  obtain ⟨hvalueSpelt, hlt₂, hle₂, hslice₂⟩ := readString_inv hvalue
  refine ⟨⟨hkeySpelt, hvalueSpelt⟩, by omega, hle₂, ?_⟩
  rw [TransferField.bytes, ← hslice₁, ← hslice₂, slice_append_slice (by omega) (by omega)]

/-- A block of fields that is accepted is absent or is spelt by its count and its fields. -/
theorem decodeTransferFields_inv {block : Bytes} {fields : List TransferField}
    (h : decodeTransferFields block = .ok fields) :
    fields.length ≤ maxTransferFields ∧ (∀ field ∈ fields, field.Spelt) ∧
      (block = [] ∧ fields = [] ∨
        block = be32 (.ofNat fields.length) ++ fields.flatMap TransferField.bytes) := by
  simp only [decodeTransferFields, word32_ok, ok_bind] at h
  split_ifs at h with hnil hlen hcount
  · cases h
    exact ⟨Nat.zero_le _, by simp, .inl ⟨length_eq_zero_iff.mp hnil, rfl⟩⟩
  · obtain ⟨⟨collected, pos⟩, hloop, h⟩ := bind_ok h
    split_ifs at h with hend
    cases h
    push Not at hend hcount
    obtain ⟨-, -, new, rfl, hnew, hspelt, hslice⟩ :=
      decodeLoop_inv decodeTransferField_inv hloop (by omega)
    dsimp only at hend ⊢
    refine ⟨hnew ▸ hcount.1, hspelt, .inr ?_⟩
    rw [hnew, UInt32.ofNat_toNat, be32_slice (by omega) rfl, ← hslice, hend,
      slice_append_slice (by omega) (by omega), slice_all]

theorem decodeTransferPart_inv {part : TransferPart}
    (h : decodeTransferPart payload pos = .ok (part, stop)) :
    part.Spelt ∧ pos < stop ∧ stop ≤ payload.length ∧ slice payload pos stop = part.bytes := by
  obtain ⟨⟨field, pos₁⟩, hfield, h⟩ := bind_ok h
  obtain ⟨⟨index, pos₂⟩, hindex, h⟩ := bind_ok h
  obtain ⟨⟨name, pos₃⟩, hname, h⟩ := bind_ok h
  dsimp only at h
  split_ifs at h with hroom
  cases h
  obtain ⟨hfieldSpelt, hlt₁, hle₁, hslice₁⟩ := readString_inv hfield
  obtain ⟨hlt₂, hle₂, hslice₂⟩ := readUint32_inv hindex
  obtain ⟨hnameSpelt, hlt₃, hle₃, hslice₃⟩ := readString_inv hname
  refine ⟨⟨hfieldSpelt, hnameSpelt⟩, by omega, by omega, ?_⟩
  simp (disch := omega) [TransferPart.bytes, ← hslice₁, ← hslice₂, ← hslice₃]

/-- The list of parts that is accepted stands at the front. -/
theorem decodeTransferParts_inv {parts : List TransferPart} {size : ℕ}
    (h : decodeTransferParts payload = .ok (parts, size)) :
    parts.length ≤ maxTransferParts ∧ (∀ part ∈ parts, part.Spelt) ∧ size ≤ payload.length ∧
      slice payload 0 size = partsBytes parts := by
  simp only [decodeTransferParts, word32_ok, ok_bind] at h
  split_ifs at h with hlen hcount
  push Not at hcount
  obtain ⟨hle, hsize, new, rfl, hnew, hspelt, hslice⟩ :=
    decodeLoop_inv decodeTransferPart_inv h (by omega)
  refine ⟨hnew ▸ hcount.1, hspelt, hsize, ?_⟩
  rw [partsBytes, hnew, UInt32.ofNat_toNat, be32_slice (by omega) rfl, ← hslice,
    slice_append_slice (by omega) hle]

theorem slice_drop (l : Bytes) (a n : ℕ) : slice (l.drop a) 0 n = slice l a (a + n) := by
  rw [slice, slice, drop_zero, drop_take, Nat.add_sub_cancel_left]

/-- An event that is accepted is spelt by its event and its data, up to the block of fields. -/
theorem decodeEventMessage_inv {v : EventMessage} (h : decodeEventMessage payload = .ok v) :
    ∃ block, payload = stringBytes v.event ++ (stringBytes v.data ++ block) ∧
      decodeTransferFields block = .ok v.fields := by
  rw [decodeEventMessage] at h
  split_ifs at h with hlen
  rw [word32_ok, ok_bind] at h
  cases hevent : checkedPayloadEnd payload 4 (uint32 (slice payload 0 (0 + 4))) with
  | none => simp [hevent] at h
  | some pos =>
    obtain ⟨-, -, hpos, hslice₁⟩ := @slice_of_checkedPayloadEnd payload 0 pos (by omega) hevent
    simp only [hevent, word32_ok, ok_bind] at h
    split_ifs at h with hroom
    cases hdata : checkedPayloadEnd payload (pos + 4) (uint32 (slice payload pos (pos + 4))) with
    | none => simp [hdata] at h
    | some stop =>
      obtain ⟨-, hle, hstop, hslice₂⟩ := slice_of_checkedPayloadEnd (by omega) hdata
      simp only [hdata, slice_ok, ok_bind] at h
      obtain ⟨fields, hfields, h⟩ := bind_ok h
      cases h
      refine ⟨_, ?_, hfields⟩
      rw [← append_assoc, ← hslice₂]
      dsimp only
      rw [← hslice₁, slice_append_slice (by omega) (by omega),
        slice_append_slice (by omega) hstop, slice_all]

theorem Digest.val_copy {data : Bytes} (h : data.length = 32) : (Digest.copy data).val = data :=
  take_left' h

/-- The begin of a transfer that is accepted is spelt by what the decoder returns, up to the block
    of fields. -/
theorem decodeTransferBegin_inv (h : decodeTransferBegin payload = .ok v) :
    v.Spelt ∧ ∃ block, payload = v.head ++ block ∧
      decodeTransferFields block = .ok v.fields := by
  rw [decodeTransferBegin] at h
  split_ifs at h with hlen
  rw [word32_ok, ok_bind] at h
  cases hname : checkedPayloadEnd payload 60 (uint32 (slice payload 56 (56 + 4))) with
  | none => simp [hname] at h
  | some pos₁ =>
    simp only [hname, slice_ok, ok_bind] at h
    obtain ⟨⟨event, pos₂⟩, hevent, h⟩ := bind_ok h
    obtain ⟨⟨fieldName, pos₃⟩, hfield, h⟩ := bind_ok h
    obtain ⟨⟨index, pos₄⟩, hindex, h⟩ := bind_ok h
    obtain ⟨⟨parts, size⟩, hparts, h⟩ := bind_ok h
    obtain ⟨fields, hfields, h⟩ := bind_ok h
    obtain ⟨hnameSpelt, hlt₁, hle₁, hslice₁⟩ :=
      @slice_of_checkedPayloadEnd payload 56 pos₁ (by omega) hname
    obtain ⟨heventSpelt, hlt₂, hle₂, hslice₂⟩ := readString_inv hevent
    obtain ⟨hfieldSpelt, hlt₃, hle₃, hslice₃⟩ := readString_inv hfield
    obtain ⟨hlt₄, hle₄, hslice₄⟩ := readUint32_inv hindex
    obtain ⟨hcount, hspelt, hsize, hslice⟩ := decodeTransferParts_inv hparts
    rw [length_slice le_rfl] at hsize
    rw [slice_to_end, slice_drop] at hslice
    cases h
    refine ⟨⟨hnameSpelt, heventSpelt, hfieldSpelt, hspelt, hcount⟩, _, ?_, hfields⟩
    -- the words before the strings spell the slices they were read from
    have hdigest : (Digest.copy (slice payload 24 56)).val = slice payload 24 56 :=
      Digest.val_copy (length_slice (by omega))
    simp (disch := omega) only [TransferBegin.head,
      TransferBegin.front, hdigest, ← hslice, ← hslice₁, ← hslice₂, ← hslice₃, ← hslice₄,
      be32_slice, be64_slice, slice_append_slice, slice_all]

end Lists

/-! ## All formats -/

/-- The payload formats: a text, which frames of data carry, and the formats of the frames that have
    one of their own. -/
inductive Format
  | text
  | frame (t : FrameType)
  deriving DecidableEq, Repr

/-- What a decoder returns. -/
inductive Payload
  | text (x : Bytes)
  | message (m : Message)
  deriving DecidableEq, Repr

/-- Reads a payload of the format. -/
def Format.decode {m : Type → Type} [Reads m] : Format → Bytes → m Payload
  | text, payload => .text <$> decodeTextMessage payload
  | frame t, payload => .message <$> Message.decode t payload

/-- Writes what a decoder returns. -/
def Payload.encode (dst : Bytes) : Payload → Except Err Bytes
  | text x => .ok (encodeTextMessageInto dst x)
  | message m => m.encode dst

/-- The payload of what was decoded ends in a block of fields with the count zero. -/
def Payload.EmptyBlock : Payload → Bytes → Prop
  | message (.event v), payload =>
    payload = stringBytes v.event ++ (stringBytes v.data ++ be32 0)
  | message (.transferBegin v), payload => payload = v.head ++ be32 0
  | _, _ => False

section Formats

variable {payload dst : Bytes}

/-- What was decoded is encoded as the payload, unless that ends in a block of no fields. -/
def Payload.Canonical (dst payload : Bytes) (v : Payload) : Prop :=
  ¬ v.EmptyBlock payload → v.encode dst = .ok payload

/-- A payload that one of the decoders accepts. -/
theorem canonical_of_map {α β : Type} {x : Except Err α} {f : α → β} {g : β → Payload} {b : β}
    (h : f <$> x = .ok b) (hx : ∀ a, x = .ok a → (g (f a)).Canonical dst payload) :
    (g b).Canonical dst payload := by
  cases x with
  | error err => cases h
  | ok a => exact Except.ok.inj h ▸ hx a rfl

/-- A block of fields other than the count zero is what the encoder writes. -/
theorem fieldsBytes_decoded {block : Bytes} {fields : List TransferField}
    (h : decodeTransferFields block = .ok fields) (hne : block ≠ be32 0) :
    block = fieldsBytes fields := by
  obtain ⟨-, -, ⟨rfl, rfl⟩ | hblock⟩ := decodeTransferFields_inv h
  · rfl
  · cases fields with
    | nil => exact absurd hblock hne
    | cons field fields => rw [fieldsBytes, if_neg (by simp), hblock]

theorem encodeEventMessageInto_decoded {v : EventMessage} (h : decodeEventMessage payload = .ok v)
    (hfits : payload.length ≤ maxPayload)
    (hblock : payload ≠ stringBytes v.event ++ (stringBytes v.data ++ be32 0)) :
    encodeEventMessageInto dst v = .ok payload := by
  obtain ⟨block, heq, hfields⟩ := decodeEventMessage_inv h
  have hne : block ≠ be32 0 := by
    rintro rfl
    exact hblock heq
  have hbytes : payload = v.bytes := by
    rw [heq, fieldsBytes_decoded hfields hne, EventMessage.bytes]
  rw [hbytes, v.length_bytes] at hfits
  rw [encodeEventMessageInto_ok hfits, hbytes]

theorem encodeTransferBeginInto_decoded (h : decodeTransferBegin payload = .ok v)
    (hfits : payload.length ≤ maxPayload) (hblock : payload ≠ v.head ++ be32 0) :
    encodeTransferBeginInto dst v = payload := by
  obtain ⟨-, block, heq, hfields⟩ := decodeTransferBegin_inv h
  have hne : block ≠ be32 0 := by
    rintro rfl
    exact hblock heq
  have hbytes : payload = v.bytes := by
    rw [heq, fieldsBytes_decoded hfields hne, v.bytes_eq]
  rw [hbytes, v.length_bytes] at hfits
  rw [encodeTransferBeginInto_bytes hfits, hbytes]

/-- A payload that is accepted is what the encoder makes of the message. -/
theorem Message.encode_decoded {t : FrameType} {m : Message}
    (h : Message.decode t payload = .ok m) (hfits : payload.length ≤ maxPayload) :
    (Payload.message m).Canonical dst payload := by
  cases t with
  | hello | helloAck =>
    exact canonical_of_map h fun v hv _ => congrArg Except.ok (encodeHelloMessage_decoded hfits hv)
  | request | response =>
    exact canonical_of_map h fun v hv => encodeEventMessageInto_decoded hv hfits
  | error => exact canonical_of_map h fun v hv _ => encodeErrorMessageInto_decoded hfits hv
  | goAway => exact canonical_of_map h fun v hv _ => encodeGoAwayInto_decoded hfits hv
  | close | closeAck =>
    exact canonical_of_map h fun v hv _ => congrArg Except.ok (encodeCloseMessage_decoded hv)
  | window =>
    exact canonical_of_map h fun v hv _ => congrArg Except.ok (encodeWindowInto_decoded hv)
  | transferResume | auth | authReject =>
    refine canonical_of_map h fun v hv _ => ?_
    obtain ⟨hlen, hmessage, hword⟩ := decodeTailed_inv hv (by omega)
    cases hmessage
    refine encodeTailed_slices _ _ (by simp [Gapless]) ?_ (by omega) hlen hword hfits
    simp (disch := omega)
  | authAccept =>
    refine canonical_of_map h fun v hv _ => ?_
    obtain ⟨hlen, hmessage, hword⟩ := decodeTailed_inv hv le_rfl
    cases hmessage
    exact encodeTailed_slices _ _ (by simp [Gapless]) rfl le_rfl hlen hword hfits
  | transferState =>
    exact canonical_of_map h fun v hv _ =>
      congrArg Except.ok (encodeTransferStateMessageInto_decoded hv)
  | transferBegin =>
    exact canonical_of_map h fun v hv hblock =>
      congrArg Except.ok (encodeTransferBeginInto_decoded hv hfits hblock)
  | ack => exact canonical_of_map h fun v hv _ => congrArg Except.ok (encodeAck_decoded hv)
  | nack => exact canonical_of_map h fun v hv _ => congrArg Except.ok (encodeNack_decoded hv)
  | cancel => exact canonical_of_map h fun v hv _ => congrArg Except.ok (encodeCancel_decoded hv)
  | cancelAck =>
    exact canonical_of_map h fun v hv _ => congrArg Except.ok (encodeCancelAck_decoded hv)
  | data | ping | pong | transferEnd | unknown _ => cases h

theorem Payload.encode_decoded {f : Format} {v : Payload} (h : f.decode payload = .ok v)
    (hfits : payload.length ≤ maxPayload) : v.Canonical dst payload := by
  cases f with
  | text =>
    exact canonical_of_map (g := id) h fun x hx _ =>
      congrArg Except.ok (encodeTextMessageInto_decoded hfits hx)
  | frame t => exact canonical_of_map (g := id) h fun m hm => Message.encode_decoded hm hfits

/-! ## What the encoders do not make -/

theorem length_of_encodeTailed {fixed : ℕ} {tooLarge : Err} {ws : List (ℕ × Bytes)} {tail : Bytes}
    (h : encodeTailed fixed tooLarge dst ws tail = .ok payload) (hfixed : 4 ≤ fixed)
    (hmax : fixed ≤ maxPayload) (hws : ∀ w ∈ ws, w.1 + w.2.length ≤ fixed) :
    payload.length ≤ maxPayload := by
  rw [encodeTailed] at h
  split_ifs at h with hlarge
  rw [← Except.ok.inj h]
  refine length_fill_le (by rw [length_buffer]; omega) fun w hw => ?_
  rcases mem_append.mp hw with hw | hw
  · exact (hws w hw).trans hmax
  · simp only [mem_cons, not_mem_nil, or_false] at hw
    rcases hw with rfl | rfl
    · rw [length_be32]
      omega
    · dsimp only
      omega

theorem encodeEventMessageInto_inv {v : EventMessage}
    (h : encodeEventMessageInto dst v = .ok payload) : v.size ≤ maxPayload ∧ payload = v.bytes := by
  by_cases hsize : v.size ≤ maxPayload
  · exact ⟨hsize, Except.ok.inj (h.symm.trans (encodeEventMessageInto_ok hsize dst))⟩
  · exact absurd ((if_pos (Nat.not_le.mp hsize)).symm.trans h) nofun

theorem encodeTransferBeginInto_inv (h : encodeTransferBeginInto dst v = payload) :
    payload = [] ∨ v.size ≤ maxPayload ∧ payload = v.bytes := by
  by_cases hsize : v.size ≤ maxPayload
  · exact .inr ⟨hsize, h.symm.trans (encodeTransferBeginInto_bytes hsize dst)⟩
  · exact .inl (h.symm.trans (if_pos (Nat.not_le.mp hsize)))

/-- No encoder makes a payload that is too long for a frame. -/
theorem Message.length_of_encode {m : Message} (h : m.encode dst = .ok payload) :
    payload.length ≤ maxPayload := by
  have hmax : maxPayload = 8388568 := by decide
  have hfixed : ∀ {buf : Bytes} {ws : List (ℕ × Bytes)}, buf.length ≤ maxPayload →
      (∀ w ∈ ws, w.1 + w.2.length ≤ maxPayload) → fill buf ws = payload →
      payload.length ≤ maxPayload := fun hbuf hws heq => heq ▸ length_fill_le hbuf hws
  cases m with
  | hello v =>
    rw [← Except.ok.inj h, encodeHelloMessage]
    split_ifs with hlarge
    · exact Nat.zero_le _
    · exact length_fill_le (by rw [length_zeros]; omega) (by simp; omega)
  | event v =>
    obtain ⟨hsize, rfl⟩ := encodeEventMessageInto_inv h
    rwa [v.length_bytes]
  | transferBegin v =>
    obtain rfl | ⟨hsize, rfl⟩ := encodeTransferBeginInto_inv (Except.ok.inj h)
    · exact Nat.zero_le _
    · rwa [v.length_bytes]
  | error | goAway | transferResume | authRequest | authAccept | authReject =>
    exact length_of_encodeTailed h (by omega) (by omega) (by simp)
  | close | window | transferState | ack | nack | cancel | cancelAck =>
    exact hfixed (by simp; omega) (by simp; omega) (Except.ok.inj h)

theorem Payload.length_of_encode {v : Payload} (h : v.encode dst = .ok payload) :
    payload.length ≤ maxPayload := by
  cases v with
  | message m => exact Message.length_of_encode h
  | text x =>
    rw [← Except.ok.inj h, encodeTextMessageInto]
    split_ifs with hlarge
    · exact Nat.zero_le _
    · have hmax : maxPayload = 8388568 := by decide
      exact length_fill_le (by rw [length_buffer]; omega) (by simp; omega)

theorem fieldsBytes_ne (fields : List TransferField) : fieldsBytes fields ≠ be32 0 := by
  intro heq
  have hlen := congrArg List.length heq
  cases fields with
  | nil => cases hlen
  | cons field fields =>
    rw [fieldsBytes, if_neg (by simp)] at hlen
    simp [TransferField.bytes] at hlen

/-- No encoder writes a block of fields with the count zero. -/
theorem Payload.not_emptyBlock_of_encode {v : Payload} (h : v.encode dst = .ok payload) :
    ¬ v.EmptyBlock payload := by
  intro hblock
  rcases v with x | m
  · exact hblock
  cases m with
  | event v =>
    obtain ⟨-, rfl⟩ := encodeEventMessageInto_inv h
    rw [Payload.EmptyBlock, EventMessage.bytes] at hblock
    exact fieldsBytes_ne v.fields
      (append_cancel_left (append_cancel_left hblock))
  | transferBegin v =>
    rw [Payload.EmptyBlock] at hblock
    obtain rfl | ⟨-, rfl⟩ := encodeTransferBeginInto_inv (Except.ok.inj h)
    · exact absurd (congrArg List.length hblock) (by simp)
    · rw [v.bytes_eq] at hblock
      exact fieldsBytes_ne v.fields (append_cancel_left hblock)
  | _ => exact hblock

end Formats

/-- Payloads are canonical. What a decoder accepts is what the encoder makes of the message it
    returns, exactly if it fits in a frame and spells the absence of fields by no block at all;
    and no other such payload is decoded to that message. -/
theorem payload_canonical {f : Format} {payload : Bytes} {v : Payload}
    (h : f.decode payload = .ok v) :
    ((∀ dst, v.encode dst = .ok payload) ↔
      payload.length ≤ maxPayload ∧ ¬ v.EmptyBlock payload) ∧
    ∀ other : Bytes, f.decode other = .ok v →
      payload.length ≤ maxPayload ∧ ¬ v.EmptyBlock payload →
      other.length ≤ maxPayload ∧ ¬ v.EmptyBlock other → other = payload := by
  refine ⟨⟨fun hencode => ⟨Payload.length_of_encode (hencode []),
      Payload.not_emptyBlock_of_encode (hencode [])⟩,
    fun hcond dst => Payload.encode_decoded h hcond.1 hcond.2⟩, ?_⟩
  intro other hother hcond hcond'
  have hboth : (Except.ok other : Except Err Bytes) = .ok payload :=
    (@Payload.encode_decoded other [] f v hother hcond'.1 hcond'.2).symm.trans
      (Payload.encode_decoded h hcond.1 hcond.2)
  exact Except.ok.inj hboth

theorem payload_canonical_event :
    Format.decode (.frame .request) [0, 0, 0, 1, 101, 0, 0, 0, 0] =
        .ok (.message (.event { event := [101] })) ∧
      ∀ dst, Payload.encode dst (.message (.event { event := [101] })) =
        .ok [0, 0, 0, 1, 101, 0, 0, 0, 0] :=
  -- a block would make the payload longer
  ⟨rfl, (payload_canonical (f := .frame .request) rfl).1.mpr
    ⟨by decide, fun heq => absurd (congrArg List.length heq) (by decide)⟩⟩

/-- An event without fields, in its two spellings. -/
theorem empty_block_accepted :
    ∃ v : Payload,
      Format.decode (.frame .request) [0, 0, 0, 1, 101, 0, 0, 0, 0, 0, 0, 0, 0] = .ok v ∧
      Format.decode (.frame .request) [0, 0, 0, 1, 101, 0, 0, 0, 0] = .ok v ∧
      v.encode [] = .ok [0, 0, 0, 1, 101, 0, 0, 0, 0] :=
  ⟨.message (.event { event := [101] }), rfl, rfl, rfl⟩

end Etp.Wire
