import Etp.Wire.Payload

/-!
# Events, transfers and the payload language

The two payloads that hold lists. An event is its name, its data and a block of
fields; the begin of a transfer is its metadata, a list of parts and the same
block of fields. The lists are counted, their entries made of strings after
their lengths, and the block of fields is absent when there are none, which the
decoder sees from the end of the payload.

The decoders are loops over positions (`decodeLoop`). Reading a string that
stands at a position gives the string and the position after it
(`readString_at`), so a loop over as many entries as the list has passes over
exactly the bytes of the list (`decodeLoop_bytes`).
-/

namespace Etp.Wire

open Octets List

/-- The most fields a message may have. -/
def maxTransferFields : ℕ := 1024
/-- The most parts a transfer may have. -/
def maxTransferParts : ℕ := 1024

variable {m : Type → Type} [Reads m]

/-! ## Strings after their length -/

/-- A string after its length. -/
def stringBytes (x : Bytes) : Bytes :=
  be32 (.ofNat x.length) ++ x

@[simp] theorem length_stringBytes (x : Bytes) : (stringBytes x).length = 4 + x.length := by
  simp [stringBytes]

/-- The string at the position `pos` and the position after it. -/
def readString (payload : Bytes) (pos : ℕ) (invalid : Err) : m (Bytes × ℕ) :=
  if pos + 4 > payload.length then
    Reads.fail invalid
  else do
    match checkedPayloadEnd payload (pos + 4) (← word32 payload pos) with
    | none => Reads.fail invalid
    | some stop => return (← Reads.slice payload (pos + 4) stop, stop)

/-- The word at the position `pos` and the position after it. -/
def readUint32 (payload : Bytes) (pos : ℕ) (invalid : Err) : m (UInt32 × ℕ) :=
  if pos + 4 > payload.length then Reads.fail invalid
  else return (← word32 payload pos, pos + 4)

section At

variable {payload x : Bytes} {pos : ℕ}

theorem word32_at {v : UInt32} (h : At payload pos (be32 v)) :
    word32 payload pos = .ok v := by
  rw [word32_ok, h.slice_eq (by rw [length_be32]), uint32_be32]

theorem word64_at {v : UInt64} (h : At payload pos (be64 v)) :
    word64 payload pos = .ok v := by
  rw [word64_ok, h.slice_eq (by rw [length_be64]), uint64_be64]

theorem checkedPayloadEnd_at (h : At payload pos x) (hpos : pos ≤ payload.length)
    (hx : x.length < UInt32.size) :
    checkedPayloadEnd payload pos (.ofNat x.length) = some (pos + x.length) := by
  have hle := h.length_le
  exact checkedPayloadEnd_ofNat hx (by omega)

theorem readString_at (h : At payload pos (stringBytes x)) (hx : x.length < UInt32.size)
    (invalid : Err) :
    readString payload pos invalid = .ok (x, pos + (stringBytes x).length) := by
  have hle := h.length_le
  rw [length_stringBytes] at hle ⊢
  obtain ⟨hword, hstring⟩ := at_append.mp h
  rw [length_be32] at hstring
  rw [readString, if_neg (by omega), word32_at hword, ok_bind,
    checkedPayloadEnd_at hstring (by omega) hx, ← Nat.add_assoc]
  simp only [slice_ok, hstring.slice_eq, ok_bind, pure_ok]

theorem readUint32_at {v : UInt32} (h : At payload pos (be32 v)) (invalid : Err) :
    readUint32 payload pos invalid = .ok (v, pos + (be32 v).length) := by
  have hle := h.length_le
  rw [length_be32] at hle ⊢
  rw [readUint32, if_neg (by omega), word32_at h, ok_bind, pure_ok]

end At

/-! ## Lists of entries -/

variable {payload : Bytes}

section Entries

variable {α : Type}

/-- What the loop of an encoder writes from the position `pos` on: `write` writes an entry, which
    has `size` bytes. -/
def entryWrites (write : ℕ → α → List (ℕ × Bytes)) (size : α → ℕ) :
    ℕ → List α → List (ℕ × Bytes)
  | _, [] => []
  | pos, item :: items => write pos item ++ entryWrites write size (pos + size item) items

/-- The loop of a decoder over as many entries as are counted, each of which `entry` reads at the
    position after the one before. -/
def decodeLoop (l : Loop) (entry : ℕ → m (α × ℕ)) : ℕ → ℕ → List α → m (List α × ℕ)
  | 0, pos, items => pure (items, pos)
  | count + 1, pos, items => do
    Reads.turn l pos
    let (item, pos) ← entry pos
    decodeLoop l entry count pos (items ++ [item])

variable {write : ℕ → α → List (ℕ × Bytes)} {size : α → ℕ} {bytes : α → Bytes} {Spelt : α → Prop}

/-- Writes from the position `pos` on that leave no gap spell the bytes `b`. -/
def Spell (pos : ℕ) (ws : List (ℕ × Bytes)) (b : Bytes) : Prop :=
  Gapless pos ws ∧ ws.flatMap Prod.snd = b

theorem entryWrites_spell (hwrite : ∀ pos a, Spell pos (write pos a) (bytes a))
    (hsize : ∀ a, size a = (bytes a).length) (pos : ℕ) (items : List α) :
    Spell pos (entryWrites write size pos items) (items.flatMap bytes) := by
  induction items generalizing pos with
  | nil => exact ⟨trivial, rfl⟩
  | cons item items ih =>
    obtain ⟨hgapless, hbytes⟩ := hwrite pos item
    obtain ⟨hrest, hitems⟩ := ih (pos + size item)
    rw [Spell, entryWrites, gapless_append, flatMap_append, hbytes, ← hsize, hitems,
      flatMap_cons]
    exact ⟨⟨hgapless, hrest⟩, rfl⟩

theorem foldl_size (hsize : ∀ a, size a = (bytes a).length) (items : List α) (n : ℕ) :
    items.foldl (fun n a => n + size a) n = n + (items.flatMap bytes).length := by
  induction items generalizing n with
  | nil => rfl
  | cons item items ih =>
    rw [foldl_cons, ih, flatMap_cons, length_append, hsize, Nat.add_assoc]

theorem length_entries_ge {k : ℕ} (hsize : ∀ a, k ≤ (bytes a).length) (items : List α) :
    items.length * k ≤ (items.flatMap bytes).length := by
  induction items with
  | nil => simp
  | cons item items ih =>
    have hitem := hsize item
    rw [flatMap_cons, length_append, length_cons, Nat.add_mul]
    omega

theorem length_entry_le {items : List α} {a : α} (hmem : a ∈ items) :
    (bytes a).length ≤ (items.flatMap bytes).length :=
  (sublist_flatten_of_mem (mem_map_of_mem hmem)).length_le

/-- The loop over as many entries as there are reads them all and stops behind them. -/
theorem decodeLoop_bytes {l : Loop} {entry : ℕ → Except Err (α × ℕ)}
    (hentry : ∀ {pos a}, At payload pos (bytes a) → Spelt a →
      entry pos = .ok (a, pos + (bytes a).length)) {items : List α} {pos : ℕ}
    (h : At payload pos (items.flatMap bytes)) (read : List α) (hspelt : ∀ a ∈ items, Spelt a) :
    decodeLoop l entry items.length pos read =
      .ok (read ++ items, pos + (items.flatMap bytes).length) := by
  induction items generalizing read pos with
  | nil => simp [decodeLoop]
  | cons item items ih =>
    obtain ⟨hitem, hitems⟩ := forall_mem_cons.mp hspelt
    obtain ⟨hfirst, hrest⟩ := at_append.mp (flatMap_cons ▸ h)
    simp only [length_cons, decodeLoop, turn_ok, ok_bind, hentry hfirst hitem,
      ih hrest _ hitems]
    rw [flatMap_cons, append_assoc, singleton_append, length_append,
      Nat.add_assoc]

end Entries

/-! ## Fields -/

/-- A key and its value. -/
structure TransferField where
  key : Bytes
  value : Bytes
  deriving DecidableEq, Repr

/-- No field takes no byte, not even for the count. -/
def transferFieldsPayloadSize64 (fields : List TransferField) : ℕ :=
  if fields.length = 0 then 0
  else fields.foldl (fun size field => size + (8 + field.key.length + field.value.length)) 4

/-- What the loop of the encoder writes from the position `pos` on. -/
def transferFieldWrites : ℕ → List TransferField → List (ℕ × Bytes) :=
  entryWrites
    (fun pos field =>
      let valuePos := pos + 4 + field.key.length
      [(pos, be32 (.ofNat field.key.length)), (pos + 4, field.key),
        (valuePos, be32 (.ofNat field.value.length)), (valuePos + 4, field.value)])
    fun field => 8 + field.key.length + field.value.length

/-- What `encodeTransferFieldsInto` writes over the part of a buffer from `start` on. -/
def encodeTransferFieldsInto (start : ℕ) (fields : List TransferField) : List (ℕ × Bytes) :=
  if fields.length = 0 then []
  else (start, be32 (.ofNat fields.length)) :: transferFieldWrites (start + 4) fields

/-- A turn of the loop of `decodeTransferFields`. -/
def decodeTransferField (payload : Bytes) (pos : ℕ) : m (TransferField × ℕ) := do
  let (key, pos) ← readString payload pos "invalid transfer field key length"
  let (value, pos) ← readString payload pos "invalid transfer field value length"
  return ({ key := key, value := value }, pos)

/-- Reads the count, which the bytes have to have room for, and the fields. -/
def decodeTransferFields (payload : Bytes) : m (List TransferField) :=
  if payload.length = 0 then
    pure []
  else if payload.length < 4 then
    Reads.fail "invalid transfer fields length"
  else do
    let fieldCount := (← word32 payload 0).toNat
    if fieldCount > maxTransferFields ∨ fieldCount * 8 > payload.length - 4 then
      Reads.fail "invalid transfer field count"
    else
      let (fields, pos) ← decodeLoop .fields (decodeTransferField payload) fieldCount 4 []
      if pos ≠ payload.length then Reads.fail "invalid transfer fields trailing data"
      else return fields

/-- The bytes of a field. -/
def TransferField.bytes (field : TransferField) : Bytes :=
  stringBytes field.key ++ stringBytes field.value

theorem TransferField.size_eq (field : TransferField) :
    8 + field.key.length + field.value.length = field.bytes.length := by
  rw [TransferField.bytes, length_append, length_stringBytes, length_stringBytes]
  omega

/-- The bytes of a block of fields. -/
def fieldsBytes (fields : List TransferField) : Bytes :=
  if fields.length = 0 then []
  else be32 (.ofNat fields.length) ++ fields.flatMap TransferField.bytes

theorem encodeTransferFieldsInto_spell (start : ℕ) (fields : List TransferField) :
    Spell start (encodeTransferFieldsInto start fields) (fieldsBytes fields) := by
  obtain ⟨hgapless, hbytes⟩ : Spell (start + 4) (transferFieldWrites (start + 4) fields)
      (fields.flatMap TransferField.bytes) := by
    refine entryWrites_spell (fun pos field => ?_) TransferField.size_eq _ _
    simp [Spell, Gapless, TransferField.bytes, stringBytes]
  rw [Spell, encodeTransferFieldsInto, fieldsBytes]
  split
  · exact ⟨trivial, rfl⟩
  · exact ⟨⟨rfl, by rwa [length_be32]⟩, by rw [flatMap_cons, hbytes]⟩

@[simp] theorem length_fieldsBytes (fields : List TransferField) :
    (fieldsBytes fields).length = transferFieldsPayloadSize64 fields := by
  rw [fieldsBytes, transferFieldsPayloadSize64]
  split
  · rfl
  · rw [foldl_size TransferField.size_eq, length_append, length_be32]

/-- The lengths of the field's strings are spelt by words. -/
structure TransferField.Spelt (field : TransferField) : Prop where
  key : field.key.length < UInt32.size
  value : field.value.length < UInt32.size

variable {fields : List TransferField}

theorem spelt_of_fieldsSize (hfit : transferFieldsPayloadSize64 fields ≤ maxPayload) :
    ∀ field ∈ fields, field.Spelt := by
  intro field hmem
  have hle : field.bytes.length ≤ _ := length_entry_le hmem
  rw [← field.size_eq] at hle
  rw [← length_fieldsBytes, fieldsBytes, if_neg (by simp [ne_nil_of_mem hmem]),
    length_append] at hfit
  exact ⟨lt_size_of_le (by omega), lt_size_of_le (by omega)⟩

theorem decodeTransferField_bytes {field : TransferField} {pos : ℕ} (h : At payload pos field.bytes)
    (hspelt : field.Spelt) :
    decodeTransferField payload pos = .ok (field, pos + field.bytes.length) := by
  obtain ⟨hkey, hvalue⟩ := at_append.mp h
  simp only [decodeTransferField, readString_at hkey hspelt.key, readString_at hvalue hspelt.value,
    ok_bind, pure_ok, TransferField.bytes, length_append, Nat.add_assoc]

/-- The number of entries that a list may have is spelt by a word. -/
theorem toNat_count {n : ℕ} (h : n ≤ 1024) : (UInt32.ofNat n).toNat = n :=
  UInt32.toNat_ofNat_of_lt' (by rw [UInt32.size]; omega)

/-- A block with its count, which may be zero, is read back. -/
theorem decodeTransferFields_block (hcount : fields.length ≤ maxTransferFields)
    (hspelt : ∀ field ∈ fields, field.Spelt) :
    decodeTransferFields (be32 (.ofNat fields.length) ++ fields.flatMap TransferField.bytes) =
      .ok fields := by
  obtain ⟨hword, hfields⟩ := at_append.mp
    (at_self (be32 (.ofNat fields.length) ++ fields.flatMap TransferField.bytes))
  rw [length_be32, Nat.zero_add] at hfields
  have hroom := length_entries_ge (k := 8)
    (fun a : TransferField => by rw [← a.size_eq]; omega) fields
  rw [decodeTransferFields, length_append, length_be32, if_neg (by omega),
    if_neg (by omega), word32_at hword, ok_bind]
  simp only [toNat_count hcount]
  rw [if_neg (by omega), decodeLoop_bytes decodeTransferField_bytes hfields [] hspelt, ok_bind]
  exact if_neg (by simp)

theorem decodeTransferFields_bytes (hcount : fields.length ≤ maxTransferFields)
    (hspelt : ∀ field ∈ fields, field.Spelt) :
    decodeTransferFields (fieldsBytes fields) = .ok fields := by
  rw [fieldsBytes]
  split
  · next h => simp [decodeTransferFields, length_eq_zero_iff.mp h]
  · exact decodeTransferFields_block hcount hspelt

/-- More fields than the decoder admits are an error, whatever they are. -/
theorem decodeTransferFields_tooMany (hcount : maxTransferFields < fields.length)
    (hword : fields.length < UInt32.size) :
    decodeTransferFields (fieldsBytes fields) = .error "invalid transfer field count" := by
  have hne : ¬ fields.length = 0 := by omega
  have hread : slice (fieldsBytes fields) 0 4 = be32 (.ofNat fields.length) := by
    rw [fieldsBytes, if_neg hne]
    exact slice_append_left (by rw [length_be32])
  have hlen : 4 ≤ (fieldsBytes fields).length := by
    rw [fieldsBytes, if_neg hne, length_append, length_be32]
    omega
  rw [decodeTransferFields, if_neg (by omega), if_neg (by omega), word32_ok, ok_bind, hread,
    uint32_be32]
  simp only [UInt32.toNat_ofNat_of_lt' hword]
  exact if_pos (.inl hcount)

/-! ## Parts -/

/-- A file of a transfer. -/
structure TransferPart where
  field : Bytes
  index : UInt32
  name : Bytes
  totalSize : UInt64
  contentType : UInt32
  deriving DecidableEq, Repr

/-- The count is there even if there is no part. -/
def transferPartsPayloadSize64 (parts : List TransferPart) : ℕ :=
  parts.foldl (fun size part => size + (24 + part.field.length + part.name.length)) 4

/-- What the loop of the encoder writes from the position `pos` on. -/
def transferPartWrites : ℕ → List TransferPart → List (ℕ × Bytes) :=
  entryWrites
    (fun pos part =>
      let indexPos := pos + 4 + part.field.length
      let sizePos := indexPos + 8 + part.name.length
      [(pos, be32 (.ofNat part.field.length)), (pos + 4, part.field),
        (indexPos, be32 part.index), (indexPos + 4, be32 (.ofNat part.name.length)),
        (indexPos + 8, part.name), (sizePos, be64 part.totalSize),
        (sizePos + 8, be32 part.contentType)])
    fun part => 24 + part.field.length + part.name.length

/-- What `encodeTransferPartsInto` writes over the part of a buffer from `start` on. -/
def encodeTransferPartsInto (start : ℕ) (parts : List TransferPart) : List (ℕ × Bytes) :=
  (start, be32 (.ofNat parts.length)) :: transferPartWrites (start + 4) parts

/-- A turn of the loop of `decodeTransferParts`. -/
def decodeTransferPart (payload : Bytes) (pos : ℕ) : m (TransferPart × ℕ) := do
  let (field, pos) ← readString payload pos "invalid transfer part field length"
  let (index, pos) ← readUint32 payload pos "invalid transfer part index"
  let (name, pos) ← readString payload pos "invalid transfer part name length"
  if pos + 12 > payload.length then
    Reads.fail "invalid transfer part metadata"
  else
    let totalSize ← word64 payload pos
    let contentType ← word32 payload (pos + 8)
    return ({ field := field, index := index, name := name, totalSize := totalSize,
              contentType := contentType }, pos + 12)

/-- Reads parts; returns the position after them too. -/
def decodeTransferParts (payload : Bytes) : m (List TransferPart × ℕ) :=
  if payload.length < 4 then
    Reads.fail "invalid transfer parts length"
  else do
    let partCount := (← word32 payload 0).toNat
    if partCount > maxTransferParts ∨ partCount * 24 > payload.length - 4 then
      Reads.fail "invalid transfer part count"
    else
      decodeLoop .parts (decodeTransferPart payload) partCount 4 []

/-- The bytes of a part. -/
def TransferPart.bytes (part : TransferPart) : Bytes :=
  stringBytes part.field ++ (be32 part.index ++ (stringBytes part.name ++
    (be64 part.totalSize ++ be32 part.contentType)))

theorem TransferPart.size_eq (part : TransferPart) :
    24 + part.field.length + part.name.length = part.bytes.length := by
  simp only [TransferPart.bytes, length_append, length_stringBytes, length_be32, length_be64]
  omega

/-- The bytes of a list of parts. -/
def partsBytes (parts : List TransferPart) : Bytes :=
  be32 (.ofNat parts.length) ++ parts.flatMap TransferPart.bytes

theorem encodeTransferPartsInto_spell (start : ℕ) (parts : List TransferPart) :
    Spell start (encodeTransferPartsInto start parts) (partsBytes parts) := by
  obtain ⟨hgapless, hbytes⟩ : Spell (start + 4) (transferPartWrites (start + 4) parts)
      (parts.flatMap TransferPart.bytes) := by
    refine entryWrites_spell (fun pos part => ?_) TransferPart.size_eq _ _
    simp [Spell, Gapless, TransferPart.bytes, stringBytes]
  exact ⟨⟨rfl, by rwa [length_be32]⟩, by
    rw [encodeTransferPartsInto, flatMap_cons, hbytes, partsBytes]⟩

@[simp] theorem length_partsBytes (parts : List TransferPart) :
    (partsBytes parts).length = transferPartsPayloadSize64 parts := by
  rw [partsBytes, transferPartsPayloadSize64, foldl_size TransferPart.size_eq, length_append,
    length_be32]

/-- The lengths of the part's strings are spelt by words. -/
structure TransferPart.Spelt (part : TransferPart) : Prop where
  field : part.field.length < UInt32.size
  name : part.name.length < UInt32.size

theorem spelt_of_partsSize {parts : List TransferPart}
    (hfit : transferPartsPayloadSize64 parts ≤ maxPayload) : ∀ part ∈ parts, part.Spelt := by
  intro part hmem
  have hle : part.bytes.length ≤ _ := length_entry_le hmem
  rw [← part.size_eq] at hle
  rw [← length_partsBytes, partsBytes, length_append] at hfit
  exact ⟨lt_size_of_le (by omega), lt_size_of_le (by omega)⟩

theorem decodeTransferPart_bytes {part : TransferPart} {pos : ℕ} (h : At payload pos part.bytes)
    (hspelt : part.Spelt) :
    decodeTransferPart payload pos = .ok (part, pos + part.bytes.length) := by
  have hle := h.length_le
  rw [← part.size_eq] at hle ⊢
  rw [TransferPart.bytes, at_append, at_append, at_append, at_append] at h
  obtain ⟨hfield, hindex, hname, hsize, htype⟩ := h
  rw [length_be64] at htype
  simp only [decodeTransferPart, ok_bind, pure_ok, readString_at hfield hspelt.field,
    readUint32_at hindex, readString_at hname hspelt.name, word64_at hsize, word32_at htype]
  simp only [length_stringBytes, length_be32]
  rw [if_neg (by omega)]
  congr 2
  omega

/-- The list of parts is read up to the block of fields, whatever that is. -/
theorem decodeTransferParts_bytes {parts : List TransferPart}
    (hcount : parts.length ≤ maxTransferParts)
    (hspelt : ∀ part ∈ parts, part.Spelt) (post : Bytes) :
    decodeTransferParts (partsBytes parts ++ post) =
      .ok (parts, transferPartsPayloadSize64 parts) := by
  have hlen := length_partsBytes parts
  rw [partsBytes, length_append, length_be32] at hlen
  obtain ⟨hword, hparts⟩ := at_append.mp (at_zero (partsBytes parts) post)
  have hroom := length_entries_ge (k := 24)
    (fun a : TransferPart => by rw [← a.size_eq]; omega) parts
  rw [decodeTransferParts, length_append, length_partsBytes, ← hlen, if_neg (by omega),
    word32_at hword, ok_bind]
  simp only [toNat_count hcount]
  rw [if_neg (by omega)]
  exact decodeLoop_bytes decodeTransferPart_bytes hparts [] hspelt

/-! ## Events -/

/-- An event with its data. -/
structure EventMessage where
  event : Bytes
  data : Bytes := []
  fields : List TransferField := []
  deriving DecidableEq, Repr

/-- The size of the payload. -/
def eventMessagePayloadSize64 (eventBytes dataBytes : ℕ) (fields : List TransferField) : ℕ :=
  8 + eventBytes + dataBytes + transferFieldsPayloadSize64 fields

/-- This size as an `int`. -/
def eventMessagePayloadSize (event data : Bytes) (fields : List TransferField) : ℕ :=
  saturatedInt (eventMessagePayloadSize64 event.length data.length fields)

/-- The name, the data and the fields, one after the other. -/
def encodeEventMessageSizedInto (dst : Bytes) (v : EventMessage) (size : ℕ) : Bytes :=
  let dataOffset := 4 + v.event.length
  let fieldsOffset := dataOffset + 4 + v.data.length
  fill (buffer dst size)
    ([(0, be32 (.ofNat v.event.length)), (4, v.event), (dataOffset, be32 (.ofNat v.data.length)),
        (dataOffset + 4, v.data)] ++ encodeTransferFieldsInto fieldsOffset v.fields)

/-- An event too large for a frame is refused. -/
def encodeEventMessageInto (dst : Bytes) (v : EventMessage) : Except Err Bytes :=
  let size := eventMessagePayloadSize64 v.event.length v.data.length v.fields
  if size > maxPayload then
    .error "event payload exceeds max frame size"
  else
    .ok (encodeEventMessageSizedInto dst v size)

/-- Reads an event. -/
def decodeEventMessage (payload : Bytes) : m EventMessage :=
  if payload.length < 8 then
    Reads.fail "event payload too small"
  else do
    match checkedPayloadEnd payload 4 (← word32 payload 0) with
    | none => Reads.fail "invalid event name length"
    | some dataLenOffset =>
      if payload.length - dataLenOffset < 4 then
        Reads.fail "invalid event name length"
      else
        match checkedPayloadEnd payload (dataLenOffset + 4) (← word32 payload dataLenOffset) with
        | none => Reads.fail "invalid event data length"
        | some stop =>
          let fields ← decodeTransferFields (← Reads.slice payload stop payload.length)
          return {
            event := ← Reads.slice payload 4 dataLenOffset
            data := ← Reads.slice payload (dataLenOffset + 4) stop
            fields := fields }

/-- The bytes of an event. -/
def EventMessage.bytes (v : EventMessage) : Bytes :=
  stringBytes v.event ++ (stringBytes v.data ++ fieldsBytes v.fields)

/-- The size of an event's payload. -/
def EventMessage.size (v : EventMessage) : ℕ :=
  eventMessagePayloadSize64 v.event.length v.data.length v.fields

@[simp] theorem EventMessage.length_bytes (v : EventMessage) : v.bytes.length = v.size := by
  simp only [EventMessage.bytes, EventMessage.size, eventMessagePayloadSize64, length_append,
    length_stringBytes, length_fieldsBytes]
  omega

theorem encodeEventMessageSizedInto_bytes (dst : Bytes) (v : EventMessage) :
    encodeEventMessageSizedInto dst v v.size = v.bytes := by
  have hbytes : ([(0, be32 (.ofNat v.event.length)), (4, v.event),
      (4 + v.event.length, be32 (.ofNat v.data.length)), (4 + v.event.length + 4, v.data)] ++
        encodeTransferFieldsInto (4 + v.event.length + 4 + v.data.length) v.fields).flatMap
          Prod.snd = v.bytes := by
    rw [flatMap_append, (encodeTransferFieldsInto_spell _ _).2]
    simp [EventMessage.bytes, stringBytes]
  rw [encodeEventMessageSizedInto, fill_gapless]
  · exact hbytes
  · rw [gapless_append]
    refine ⟨by simp [Gapless], ?_⟩
    apply (encodeTransferFieldsInto_spell _ v.fields).1.of_eq
    simp
    omega
  · rw [hbytes, length_buffer, EventMessage.length_bytes]

theorem encodeEventMessageInto_ok {v : EventMessage} (h : v.size ≤ maxPayload) (dst : Bytes) :
    encodeEventMessageInto dst v = .ok v.bytes := by
  rw [encodeEventMessageInto]
  show (if v.size > maxPayload then _ else _) = _
  rw [if_neg (Nat.not_lt.mpr h)]
  exact congrArg _ (encodeEventMessageSizedInto_bytes dst v)

/-- The event and the data are read back, and the rest is left to the decoder of the fields. -/
theorem decodeEventMessage_eq {v : EventMessage} (h : v.size ≤ maxPayload) :
    decodeEventMessage v.bytes =
      (decodeTransferFields (fieldsBytes v.fields)).map
        fun fields => { v with fields := fields } := by
  have hlen : v.bytes.length = 8 + v.event.length + v.data.length +
      transferFieldsPayloadSize64 v.fields := v.length_bytes
  rw [← v.length_bytes, hlen] at h
  have hat : At v.bytes 0 (be32 (.ofNat v.event.length) ++ (v.event ++
      (be32 (.ofNat v.data.length) ++ (v.data ++ fieldsBytes v.fields)))) := by
    simpa only [EventMessage.bytes, stringBytes, append_assoc] using at_self v.bytes
  simp only [at_append, length_be32, Nat.zero_add] at hat
  obtain ⟨hname, hevent, hword, hdata, hfields⟩ := hat
  rw [decodeEventMessage, if_neg (by omega), word32_at hname, ok_bind,
    checkedPayloadEnd_at hevent (by omega) (lt_size_of_le (by omega))]
  simp only [word32_at hword, ok_bind]
  rw [if_neg (by omega),
    checkedPayloadEnd_at hdata (by omega) (lt_size_of_le (by omega))]
  simp only [slice_ok, ok_bind, pure_ok, hevent.slice_eq, hdata.slice_eq]
  rw [hfields.slice_eq (by rw [length_fieldsBytes]; omega)]
  cases decodeTransferFields (fieldsBytes v.fields) <;> rfl

theorem decodeEventMessage_bytes {v : EventMessage} (hcount : v.fields.length ≤ maxTransferFields)
    (h : v.size ≤ maxPayload) : decodeEventMessage v.bytes = .ok v := by
  have hfields : transferFieldsPayloadSize64 v.fields ≤ maxPayload := by
    rw [EventMessage.size, eventMessagePayloadSize64] at h
    omega
  rw [decodeEventMessage_eq h, decodeTransferFields_bytes hcount (spelt_of_fieldsSize hfields)]
  rfl

theorem decodeEventMessage_encode {v : EventMessage} (hcount : v.fields.length ≤ maxTransferFields)
    (h : v.size ≤ maxPayload) (dst : Bytes) :
    RoundTrip (encodeEventMessageInto dst v) (eventMessagePayloadSize v.event v.data v.fields)
      decodeEventMessage v :=
  ⟨_, encodeEventMessageInto_ok h dst, v.length_bytes.trans (saturatedInt_of_le h).symm,
    decodeEventMessage_bytes hcount h⟩

/-! ## The begin of a transfer -/

/-- A checksum: thirty-two bytes. -/
abbrev Digest := { d : Bytes // d.length = 32 }

/-- `copy` into the array of a checksum. -/
def Digest.copy (data : Bytes) : Digest :=
  ⟨(data ++ zeros 32).take 32, by simp [length_take]⟩

@[simp] theorem Digest.copy_val (d : Digest) : Digest.copy d.val = d := by
  apply Subtype.ext
  exact take_left' d.property

/-- What a transfer is announced with. -/
structure TransferBegin where
  totalSize : UInt64
  chunkSize : UInt32
  chunkCount : UInt32
  contentType : UInt32
  flags : UInt32
  checksum : Digest
  name : Bytes
  event : Bytes
  field : Bytes
  index : UInt32
  parts : List TransferPart
  fields : List TransferField
  deriving DecidableEq, Repr

/-- The size of the payload. -/
def transferBeginPayloadSize64 (name event field : Bytes) (parts : List TransferPart)
    (fields : List TransferField) : ℕ :=
  72 + name.length + event.length + field.length + transferPartsPayloadSize64 parts +
    transferFieldsPayloadSize64 fields

/-- The size of the payload. -/
def TransferBegin.size (v : TransferBegin) : ℕ :=
  transferBeginPayloadSize64 v.name v.event v.field v.parts v.fields

/-- An announcement too large for a frame leaves an empty payload. -/
def encodeTransferBeginInto (dst : Bytes) (v : TransferBegin) : Bytes :=
  let size := transferBeginPayloadSize64 v.name v.event v.field v.parts v.fields
  if size > maxPayload then
    []
  else
    let eventPos := 60 + v.name.length
    let fieldPos := eventPos + 4 + v.event.length
    let indexPos := fieldPos + 4 + v.field.length
    let partsPos := indexPos + 4
    fill (buffer dst size)
      ([(0, be64 v.totalSize), (8, be32 v.chunkSize), (12, be32 v.chunkCount),
          (16, be32 v.contentType), (20, be32 v.flags), (24, v.checksum.val),
          (56, be32 (.ofNat v.name.length)), (60, v.name),
          (eventPos, be32 (.ofNat v.event.length)), (eventPos + 4, v.event),
          (fieldPos, be32 (.ofNat v.field.length)), (fieldPos + 4, v.field),
          (indexPos, be32 v.index)] ++
        (encodeTransferPartsInto partsPos v.parts ++
          encodeTransferFieldsInto (partsPos + transferPartsPayloadSize64 v.parts) v.fields))

/-- Reads an announcement. -/
def decodeTransferBegin (payload : Bytes) : m TransferBegin :=
  if payload.length < 72 then
    Reads.fail "transfer begin payload too small"
  else do
    -- that there is room for the length of the name follows from the test above
    match checkedPayloadEnd payload 60 (← word32 payload 56) with
    | none => Reads.fail "invalid transfer name length"
    | some nameEnd =>
      let checksum ← Reads.slice payload 24 56
      let (event, pos) ← readString payload nameEnd "invalid transfer event length"
      let (fieldName, pos) ← readString payload pos "invalid transfer field name length"
      let (index, pos) ← readUint32 payload pos "invalid transfer field index"
      let (parts, partsBytes) ←
        decodeTransferParts (← Reads.slice payload pos payload.length)
      let fields ←
        decodeTransferFields (← Reads.slice payload (pos + partsBytes) payload.length)
      return {
        totalSize := ← word64 payload 0
        chunkSize := ← word32 payload 8
        chunkCount := ← word32 payload 12
        contentType := ← word32 payload 16
        flags := ← word32 payload 20
        checksum := Digest.copy checksum
        name := ← Reads.slice payload 60 nameEnd
        event := event
        field := fieldName
        index := index
        parts := parts
        fields := fields }

/-- The words before the strings. -/
def TransferBegin.front (v : TransferBegin) : Bytes :=
  be64 v.totalSize ++ (be32 v.chunkSize ++ (be32 v.chunkCount ++ (be32 v.contentType ++
    (be32 v.flags ++ v.checksum.val))))

@[simp] theorem TransferBegin.length_front (v : TransferBegin) : v.front.length = 56 := by
  simp [TransferBegin.front, v.checksum.property]

/-- The bytes of the begin of a transfer. -/
def TransferBegin.bytes (v : TransferBegin) : Bytes :=
  v.front ++ (stringBytes v.name ++ (stringBytes v.event ++ (stringBytes v.field ++
    (be32 v.index ++ (partsBytes v.parts ++ fieldsBytes v.fields)))))

@[simp] theorem TransferBegin.length_bytes (v : TransferBegin) : v.bytes.length = v.size := by
  simp only [TransferBegin.bytes, TransferBegin.size, transferBeginPayloadSize64,
    length_append, length_stringBytes, length_fieldsBytes, length_partsBytes, length_be32,
    TransferBegin.length_front]
  omega

variable {v : TransferBegin}

theorem encodeTransferBeginInto_bytes (h : v.size ≤ maxPayload) (dst : Bytes) :
    encodeTransferBeginInto dst v = v.bytes := by
  rw [encodeTransferBeginInto]
  show (if v.size > maxPayload then _ else _) = _
  rw [if_neg (Nat.not_lt.mpr h)]
  have hchecksum := v.checksum.property
  rw [fill_gapless]
  · rw [flatMap_append, flatMap_append, (encodeTransferPartsInto_spell _ _).2,
      (encodeTransferFieldsInto_spell _ _).2]
    simp [TransferBegin.bytes, TransferBegin.front, stringBytes]
  · rw [gapless_append, gapless_append]
    refine ⟨by simp [Gapless, hchecksum], ?_, ?_⟩
    · apply (encodeTransferPartsInto_spell _ v.parts).1.of_eq
      simp [hchecksum]
      omega
    · apply (encodeTransferFieldsInto_spell _ v.fields).1.of_eq
      rw [(encodeTransferPartsInto_spell _ _).2, length_partsBytes]
      simp [hchecksum]
      omega
  · rw [length_buffer, flatMap_append, flatMap_append,
      (encodeTransferPartsInto_spell _ _).2, (encodeTransferFieldsInto_spell _ _).2,
      length_append, length_append, length_partsBytes, length_fieldsBytes]
    simp [transferBeginPayloadSize64, hchecksum]
    omega

/-- The bytes before the block of fields. -/
def TransferBegin.head (v : TransferBegin) : Bytes :=
  v.front ++ (stringBytes v.name ++ (stringBytes v.event ++ (stringBytes v.field ++
    (be32 v.index ++ partsBytes v.parts))))

theorem TransferBegin.bytes_eq (v : TransferBegin) : v.bytes = v.head ++ fieldsBytes v.fields := by
  simp only [TransferBegin.bytes, TransferBegin.head, append_assoc]

/-- The lengths of the strings before the block of fields are spelt by words, and the parts are not
    too many. -/
structure TransferBegin.Spelt (v : TransferBegin) : Prop where
  name : v.name.length < UInt32.size
  event : v.event.length < UInt32.size
  field : v.field.length < UInt32.size
  parts : ∀ part ∈ v.parts, part.Spelt
  count : v.parts.length ≤ maxTransferParts

/-- What stands before the block of fields is read back, and the rest is left to the decoder of the
    fields. -/
theorem decodeTransferBegin_eq (h : v.Spelt) (block : Bytes) :
    decodeTransferBegin (v.head ++ block) =
      (decodeTransferFields block).map fun fields => { v with fields := fields } := by
  have hsum := v.checksum.property
  have hwords : v.head ++ block = be64 v.totalSize ++ (be32 v.chunkSize ++ (be32 v.chunkCount ++
      (be32 v.contentType ++ (be32 v.flags ++ (v.checksum.val ++ (be32 (.ofNat v.name.length) ++
        (v.name ++ (stringBytes v.event ++ (stringBytes v.field ++ (be32 v.index ++
          (partsBytes v.parts ++ block))))))))))) := by
    simp only [TransferBegin.head, TransferBegin.front, stringBytes.eq_def v.name,
      append_assoc]
  generalize v.head ++ block = payload at hwords ⊢
  have hat : At payload 0 payload := at_self payload
  have hlen := congrArg List.length hwords
  nth_rewrite 2 [hwords] at hat
  simp only [length_append, length_be64, length_be32, length_stringBytes, length_partsBytes,
    hsum] at hlen
  simp only [at_append, length_be64, length_be32, hsum, Nat.zero_add, Nat.reduceAdd] at hat
  obtain ⟨hsize, hchunk, hchunks, htype, hflags, hdigest, hlength, hname, hevent, hfield, hindex,
    hparts, hblock⟩ := hat
  rw [decodeTransferBegin, if_neg (by omega), word32_at hlength, ok_bind,
    checkedPayloadEnd_at hname (by omega) h.name]
  simp only [slice_ok, ok_bind, readString_at hevent h.event, readString_at hfield h.field,
    readUint32_at hindex, length_be32]
  rw [(at_append.mpr ⟨hparts, hblock⟩).slice_eq (by simp; omega),
    decodeTransferParts_bytes h.count h.parts, ok_bind, ← length_partsBytes]
  dsimp only
  rw [hblock.slice_eq (by simp; omega), hdigest.slice_eq (by rw [hsum]), Digest.copy_val]
  simp only [word64_at hsize, word32_at hchunk, word32_at hchunks, word32_at htype,
    word32_at hflags, hname.slice_eq, ok_bind, pure_ok]
  cases decodeTransferFields block <;> rfl

theorem TransferBegin.spelt_of_size (hparts : v.parts.length ≤ maxTransferParts)
    (h : v.size ≤ maxPayload) : v.Spelt := by
  rw [TransferBegin.size, transferBeginPayloadSize64] at h
  exact ⟨lt_size_of_le (by omega), lt_size_of_le (by omega), lt_size_of_le (by omega),
    spelt_of_partsSize (by omega), hparts⟩

theorem decodeTransferBegin_bytes (hparts : v.parts.length ≤ maxTransferParts)
    (hfields : v.fields.length ≤ maxTransferFields) (h : v.size ≤ maxPayload) :
    decodeTransferBegin v.bytes = .ok v := by
  have hblock : transferFieldsPayloadSize64 v.fields ≤ maxPayload := by
    rw [TransferBegin.size, transferBeginPayloadSize64] at h
    omega
  rw [v.bytes_eq, decodeTransferBegin_eq (v.spelt_of_size hparts h),
    decodeTransferFields_bytes hfields (spelt_of_fieldsSize hblock)]
  rfl

theorem decodeTransferBegin_encode (hparts : v.parts.length ≤ maxTransferParts)
    (hfields : v.fields.length ≤ maxTransferFields) (h : v.size ≤ maxPayload) (dst : Bytes) :
    RoundTrip (.ok (encodeTransferBeginInto dst v)) v.size decodeTransferBegin v := by
  refine ⟨_, rfl, ?_, ?_⟩ <;> rw [encodeTransferBeginInto_bytes h dst]
  · exact v.length_bytes
  · exact decodeTransferBegin_bytes hparts hfields h

/-! ## The payload language -/

/-- A message with a payload format of its own. -/
inductive Message
  | hello (v : Hello)
  | event (v : EventMessage)
  | error (v : ErrorMessage)
  | goAway (v : GoAway)
  | close (v : CloseMessage)
  | window (v : Window)
  | transferResume (v : TransferResume)
  | transferState (v : TransferStateMessage)
  | authRequest (v : AuthRequest)
  | authAccept (v : AuthAccept)
  | authReject (v : AuthReject)
  | transferBegin (v : TransferBegin)
  | ack (v : Ack)
  | nack (v : Nack)
  | cancel (v : Cancel)
  | cancelAck (v : CancelAck)
  deriving DecidableEq, Repr

namespace Message

/-- The encoder of each message, over the memory `dst` where it takes one. -/
def encode (dst : Bytes) : Message → Except Err Bytes
  | hello v => .ok (encodeHelloMessage v)
  | event v => encodeEventMessageInto dst v
  | error v => encodeErrorMessageInto dst v
  | goAway v => encodeGoAwayInto dst v
  | close v => .ok (encodeCloseMessage v)
  | window v => .ok (encodeWindowInto dst v)
  | transferResume v => encodeTransferResumeInto dst v
  | transferState v => .ok (encodeTransferStateMessageInto dst v)
  | authRequest v => encodeAuthRequestInto dst v
  | authAccept v => encodeAuthAcceptInto dst v
  | authReject v => encodeAuthRejectInto dst v
  | transferBegin v => .ok (encodeTransferBeginInto dst v)
  | ack v => .ok (encodeAck v)
  | nack v => .ok (encodeNack v)
  | cancel v => .ok (encodeCancel v)
  | cancelAck v => .ok (encodeCancelAck v)

/-- The length of the payload: what the message's size function says, or its fixed length. -/
def payloadSize : Message → ℕ
  | hello v => 40 + v.role.length
  | event v => eventMessagePayloadSize v.event v.data v.fields
  | error v => errorMessagePayloadSize v.message
  | goAway v => goAwayPayloadSize v.message
  | close _ => 12
  | window _ => 24
  | transferResume v => transferResumePayloadSize v.token
  | transferState _ => 24
  | authRequest v => authRequestPayloadSize v
  | authAccept v => authAcceptPayloadSize v.userID
  | authReject v => authRejectPayloadSize v.message
  | transferBegin v => transferBeginPayloadSize64 v.name v.event v.field v.parts v.fields
  | ack _ => 24
  | nack _ => 20
  | cancel _ => 12
  | cancelAck _ => 16

/-- A type of the frames that carry the message. -/
def frameType : Message → FrameType
  | hello _ => .hello
  | event _ => .request
  | error _ => .error
  | goAway _ => .goAway
  | close _ => .close
  | window _ => .window
  | transferResume _ => .transferResume
  | transferState _ => .transferState
  | authRequest _ => .auth
  | authAccept _ => .authAccept
  | authReject _ => .authReject
  | transferBegin _ => .transferBegin
  | ack _ => .ack
  | nack _ => .nack
  | cancel _ => .cancel
  | cancelAck _ => .cancelAck

/-- The decoder for the payload of each type of frame; the other types carry plain bytes. -/
def decode : FrameType → Bytes → m Message
  | .hello, payload | .helloAck, payload => hello <$> decodeHelloMessage payload
  | .request, payload | .response, payload => event <$> decodeEventMessage payload
  | .error, payload => error <$> decodeErrorMessage payload
  | .goAway, payload => goAway <$> decodeGoAway payload
  | .close, payload | .closeAck, payload => close <$> decodeCloseMessage payload
  | .window, payload => window <$> decodeWindow payload
  | .transferResume, payload => transferResume <$> decodeTransferResume payload
  | .transferState, payload => transferState <$> decodeTransferStateMessage payload
  | .auth, payload => authRequest <$> decodeAuthRequest payload
  | .authAccept, payload => authAccept <$> decodeAuthAccept payload
  | .authReject, payload => authReject <$> decodeAuthReject payload
  | .transferBegin, payload => transferBegin <$> decodeTransferBegin payload
  | .ack, payload => ack <$> decodeAck payload
  | .nack, payload => nack <$> decodeNack payload
  | .cancel, payload => cancel <$> decodeCancel payload
  | .cancelAck, payload => cancelAck <$> decodeCancelAck payload
  | .data, _ | .ping, _ | .pong, _ | .transferEnd, _ | .unknown _, _ =>
    Reads.fail "no message"

/-- The flags, reasons and counts of the message are of those its decoder admits. -/
def Admitted : Message → Prop
  | goAway v => closeFlagsAdmitted v.flags
  | close v => closeFlagsAdmitted v.flags
  | window v => windowFlagsAdmitted v.flags
  | event v => v.fields.length ≤ maxTransferFields ∧ v.size ≤ maxPayload
  | transferBegin v => v.parts.length ≤ maxTransferParts ∧ v.fields.length ≤ maxTransferFields ∧
      v.size ≤ maxPayload
  | nack v => nackMissingChunk ≤ v.reasonCode ∧ v.reasonCode ≤ nackFlowControl ∧ v.flags = 0
  | cancel v => cancelUser ≤ v.reasonCode ∧ v.reasonCode ≤ cancelProtocol ∧
      v.flags &&& ~~~(cancelDeletePartial ||| cancelSilent) = 0
  | cancelAck v => cancelAckOK ≤ v.status ∧ v.status ≤ cancelAckCompleted
  | _ => True

/-- The string at the end of the message leaves it room in a frame. -/
def Fits : Message → Prop
  | hello v => 40 + v.role.length ≤ maxPayload
  | error v => 32 + v.message.length ≤ maxPayload
  | goAway v => 32 + v.message.length ≤ maxPayload
  | transferResume v => 24 + v.token.length ≤ maxPayload
  | authRequest v => 12 + v.payload.length ≤ maxPayload
  | authAccept v => 4 + v.userID.length ≤ maxPayload
  | authReject v => 8 + v.message.length ≤ maxPayload
  | _ => True

end Message

theorem RoundTrip.map {α β : Type} {encoded : Except Err Bytes} {size : ℕ}
    {decode : Bytes → Except Err α} {v : α} (h : RoundTrip encoded size decode v) (f : α → β) :
    RoundTrip encoded size (fun payload => f <$> decode payload) (f v) := by
  obtain ⟨payload, he, hsize, hd⟩ := h
  exact ⟨payload, he, hsize, congrArg (f <$> ·) hd⟩

/-- Decoding undoes encoding for every admitted message that fits in a frame, whatever memory the
    encoder uses, and the payload has the length announced. -/
theorem message_round_trip (m : Message) (hadmitted : m.Admitted) (hfits : m.Fits) (dst : Bytes) :
    RoundTrip (m.encode dst) m.payloadSize (Message.decode m.frameType) m := by
  cases m with
  | hello v => exact (decodeHelloMessage_encode hfits).map _
  | event v => exact (decodeEventMessage_encode hadmitted.1 hadmitted.2 dst).map _
  | error v => exact (decodeErrorMessage_encode hfits dst).map _
  | goAway v => exact (decodeGoAway_encode hadmitted hfits dst).map _
  | close v => exact (decodeCloseMessage_encode hadmitted).map _
  | window v => exact (decodeWindow_encode hadmitted dst).map _
  | transferResume v => exact (decodeTransferResume_encode hfits dst).map _
  | transferState v => exact (decodeTransferStateMessage_encode v dst).map _
  | authRequest v => exact (decodeAuthRequest_encode hfits dst).map _
  | authAccept v => exact (decodeAuthAccept_encode hfits dst).map _
  | authReject v => exact (decodeAuthReject_encode hfits dst).map _
  | transferBegin v =>
    exact (decodeTransferBegin_encode hadmitted.1 hadmitted.2.1 hadmitted.2.2 dst).map _
  | ack v => exact (decodeAck_encode v).map _
  | nack v => exact (decodeNack_encode hadmitted.1 hadmitted.2.1 hadmitted.2.2).map _
  | cancel v => exact (decodeCancel_encode hadmitted.1 hadmitted.2.1 hadmitted.2.2).map _
  | cancelAck v => exact (decodeCancelAck_encode hadmitted.1 hadmitted.2).map _

/-- A request with a field goes through the codec. -/
theorem message_round_trip_event :
    RoundTrip ((Message.event { event := [1], data := [2], fields := [⟨[3], []⟩] }).encode []) 23
      (Message.decode .request)
      (.event { event := [1], data := [2], fields := [⟨[3], []⟩] }) :=
  message_round_trip (.event { event := [1], data := [2], fields := [⟨[3], []⟩] })
    ⟨by decide, by decide⟩ trivial []

/-- A role that does not fit in a frame is encoded as no payload at all. -/
theorem message_too_large :
    ∃ m : Message, m.Admitted ∧
      ¬ RoundTrip (m.encode []) m.payloadSize (Message.decode m.frameType) m := by
  let v : Hello := ⟨List.replicate maxFrameBytes 0, 0, 0, 0, 0, 0, 0⟩
  have hlen : v.role.length = maxFrameBytes := length_replicate
  have hnil : encodeHelloMessage v = [] := by
    rw [encodeHelloMessage, hlen, if_pos (by decide)]
  refine ⟨.hello v, trivial, ?_⟩
  rintro ⟨payload, he, hsize, -⟩
  rw [Message.encode, hnil, Except.ok.injEq] at he
  subst he
  simp only [Message.payloadSize, length_nil] at hsize
  omega

end Etp.Wire
