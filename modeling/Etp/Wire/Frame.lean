import Etp.Frame
import Etp.Lib.Octets

/-!
# The frame format

A frame on the wire is a header of forty bytes and the payload. The encoder
fills a buffer at fixed positions and sets the four header fields that only
describe the encoding; the decoder reads the same positions and then checks
what it read.

What the encoder leaves in the buffer is the concatenation of the header's
words and the payload, whatever the buffer held before (`encodeFrameInto_ok`),
and reading the words of that concatenation gives the header back
(`readHeader_bytes`). In the other direction the words read from a header of
forty bytes spell these bytes (`bytes_readHeader`). Together they make encoder
and decoder inverse to each other on valid frames.
-/

namespace Etp.Wire

open Octets List

/-- The version of the format. -/
def wireVersion : UInt8 := 1

/-! Flags that are known and not implemented. -/

def flagEncrypted : ℕ := 1 <<< 3
def flagCompressed : ℕ := 1 <<< 4

/-- The flags a header may have. -/
def knownFrameFlags : UInt16 :=
  .ofNat (flagFirst ||| flagLast ||| flagAckRequest ||| flagEncrypted ||| flagCompressed |||
    flagControl)

/-- The header of a frame with the width of each field. -/
structure Header where
  version : UInt8 := 0
  frameType : UInt8
  flags : UInt16 := 0
  priority : UInt8 := 0
  headerLength : UInt8 := 0
  channelID : UInt16 := 0
  payloadOffset : UInt16 := 0
  headerFlags : UInt16 := 0
  payloadLength : UInt32 := 0
  schemaID : UInt32 := 0
  requestID : UInt64 := 0
  transferID : UInt64 := 0
  chunkID : UInt32 := 0
  deriving DecidableEq, Repr

/-- A frame: its header and its payload. -/
structure Frame where
  header : Header
  payload : Bytes := []
  deriving DecidableEq, Repr

/-- `%#x` of a number. -/
def hex (n : ℕ) : String :=
  "0x" ++ String.ofList (Nat.toDigits 16 n)

/-- The fields of a header in the order in which they are checked. -/
def validateHeaderValues (h : Header) : Option Err :=
  if h.frameType.toNat < FrameType.data.code ∨
      h.frameType.toNat > FrameType.transferResume.code then
    some ("unknown frame type: " ++ toString h.frameType)
  else if h.priority > 4 then
    some ("invalid frame priority: " ++ toString h.priority)
  else if h.channelID > 4 then
    some ("invalid frame channel: " ++ toString h.channelID)
  else if h.headerFlags ≠ 0 then
    some ("unsupported header flags: " ++ hex h.headerFlags.toNat)
  else if h.flags &&& ~~~knownFrameFlags ≠ 0 then
    some ("unsupported frame flags: " ++ hex h.flags.toNat)
  else if h.flags &&& .ofNat (flagEncrypted ||| flagCompressed) ≠ 0 then
    some "encrypted and compressed frame flags are not implemented"
  else
    none

/-! ## Encoding -/

/-- The size of a frame's encoding. -/
def encodedFrameSize (frame : Frame) : ℕ :=
  if frame.payload.length > maxFrameBytes - headerSize then maxFrameBytes + 1
  else headerSize + frame.payload.length

/-- The frame with the header fields that describe its encoding. -/
def Frame.canonical (frame : Frame) : Frame :=
  { frame with
    header := { frame.header with
      version := wireVersion
      headerLength := .ofNat headerSize
      payloadOffset := .ofNat headerSize
      payloadLength := .ofNat frame.payload.length } }

/-- `NewFrame`. -/
def newFrame (frameType : UInt8) (schemaID : UInt32) (payload : Bytes) : Frame where
  header := {
    version := wireVersion
    frameType := frameType
    headerLength := .ofNat headerSize
    payloadOffset := .ofNat headerSize
    payloadLength := .ofNat payload.length
    schemaID := schemaID }
  payload := payload

/-- Where the encoder writes the fields of the header. -/
def headerWrites (h : Header) : List (ℕ × Bytes) :=
  [(0, be8 h.version), (1, be8 h.frameType), (2, be16 h.flags), (4, be8 h.priority),
    (5, be8 h.headerLength), (6, be16 h.channelID), (8, be16 h.payloadOffset),
    (10, be16 h.headerFlags), (12, be32 h.payloadLength), (16, be32 h.schemaID),
    (20, be64 h.requestID), (28, be64 h.transferID), (36, be32 h.chunkID)]

/-- Writes a frame over the buffer `dst`, if it is large enough. -/
def encodeFrameInto (dst : Bytes) (frame : Frame) : Except Err Bytes :=
  if frame.payload.length > maxFrameBytes - headerSize then
    .error "frame exceeds max size"
  else
    let frame := frame.canonical
    let size := encodedFrameSize frame
    if size > maxFrameBytes then
      .error "frame exceeds max size"
    else match validateHeaderValues frame.header with
      | some err => .error err
      | none =>
        .ok (fill (buffer dst size) (headerWrites frame.header ++ [(headerSize, frame.payload)]))

/-- Writes a frame to a buffer of its own. -/
def encodeFrame (frame : Frame) : Except Err Bytes :=
  encodeFrameInto [] frame

/-! ## Decoding -/

/-- The fields of a header where the decoder reads them. -/
def readHeader (data : Bytes) : Header where
  version := uint8 (slice data 0 1)
  frameType := uint8 (slice data 1 2)
  flags := uint16 (slice data 2 4)
  priority := uint8 (slice data 4 5)
  headerLength := uint8 (slice data 5 6)
  channelID := uint16 (slice data 6 8)
  payloadOffset := uint16 (slice data 8 10)
  headerFlags := uint16 (slice data 10 12)
  payloadLength := uint32 (slice data 12 16)
  schemaID := uint32 (slice data 16 20)
  requestID := uint64 (slice data 20 28)
  transferID := uint64 (slice data 28 36)
  chunkID := uint32 (slice data 36 40)

/-- Reads a header; the encoding of the frame has to be the one we write. -/
def decodeHeader (data : Bytes) : Except Err Header :=
  if data.length < headerSize then
    .error ("frame header too small: " ++ toString data.length)
  else
    let h := readHeader data
    if h.version ≠ wireVersion then
      .error ("unsupported wire version: " ++ toString h.version)
    else if h.headerLength ≠ .ofNat headerSize ∨ h.payloadOffset ≠ .ofNat headerSize then
      .error "invalid fixed header length or payload offset"
    else match validateHeaderValues h with
      | some err => .error err
      | none => .ok h

/-- Reads a frame that shares the bytes of `data`. -/
def decodeFrameView (data : Bytes) : Except Err Frame :=
  if data.length > maxFrameBytes then
    .error "frame exceeds max size"
  else match decodeHeader data with
    | .error err => .error err
    | .ok h =>
      let payloadOffset := h.payloadOffset.toNat
      if h.payloadLength.toNat > data.length - payloadOffset then
        .error "payload exceeds frame length"
      else
        let stop := payloadOffset + h.payloadLength.toNat
        if stop ≠ data.length then
          .error "frame has trailing bytes"
        else
          .ok { header := h, payload := slice data payloadOffset stop }

/-! ## The bytes of a header -/

/-- The forty bytes of a header. -/
def Header.bytes (h : Header) : Bytes :=
  be8 h.version ++ (be8 h.frameType ++ (be16 h.flags ++ (be8 h.priority ++
    (be8 h.headerLength ++ (be16 h.channelID ++ (be16 h.payloadOffset ++ (be16 h.headerFlags ++
      (be32 h.payloadLength ++ (be32 h.schemaID ++ (be64 h.requestID ++ (be64 h.transferID ++
        be32 h.chunkID)))))))))))

@[simp] theorem Header.length_bytes (h : Header) : h.bytes.length = headerSize := by
  simp [Header.bytes, headerSize]

theorem gapless_headerWrites (h : Header) : Gapless 0 (headerWrites h) := by
  simp [headerWrites, Gapless]

theorem headerWrites_flatMap (h : Header) : (headerWrites h).flatMap Prod.snd = h.bytes := by
  simp [headerWrites, Header.bytes]

theorem fill_headerWrites (h : Header) {buf : Bytes} (hlen : buf.length = headerSize) :
    fill buf (headerWrites h) = h.bytes := by
  rw [fill_gapless (gapless_headerWrites h), headerWrites_flatMap]
  rw [headerWrites_flatMap, Header.length_bytes, hlen]

theorem fill_header (h : Header) (payload buf : Bytes)
    (hlen : buf.length = headerSize + payload.length) :
    fill buf (headerWrites h ++ [(headerSize, payload)]) = h.bytes ++ payload := by
  have hws : Gapless 0 (headerWrites h ++ [(headerSize, payload)]) := by
    rw [gapless_append, headerWrites_flatMap, Header.length_bytes]
    exact ⟨gapless_headerWrites h, by simp [Gapless]⟩
  have hjoined : (headerWrites h ++ [(headerSize, payload)]).flatMap Prod.snd =
      h.bytes ++ payload := by
    rw [flatMap_append, headerWrites_flatMap]
    simp
  rw [fill_gapless hws, hjoined]
  rw [hjoined, length_append, Header.length_bytes, hlen]

theorem readHeader_bytes (h : Header) (payload : Bytes) :
    readHeader (h.bytes ++ payload) = h := by
  simp (disch := simp) [readHeader, Header.bytes, append_assoc, slice_append_right,
    slice_append_left]

variable {data : Bytes}

theorem bytes_readHeader (hlen : headerSize ≤ data.length) :
    (readHeader data).bytes = slice data 0 headerSize := by
  rw [headerSize] at hlen
  -- each word spells its own slice, and adjacent slices join
  simp (disch := omega) only [Header.bytes, readHeader,
    be8_slice, be16_slice, be32_slice, be64_slice, slice_append_slice]
  rfl

/-! ## Encoder and decoder -/

theorem validateHeaderValues_canonical (frame : Frame) :
    validateHeaderValues frame.canonical.header = validateHeaderValues frame.header :=
  rfl

variable {frame : Frame}

/-- A valid frame is encoded as its header followed by its payload, whatever the buffer held. -/
theorem encodeFrameInto_ok (hvalid : validateHeaderValues frame.header = none)
    (hlen : frame.payload.length ≤ maxFrameBytes - headerSize) (dst : Bytes) :
    encodeFrameInto dst frame = .ok (frame.canonical.header.bytes ++ frame.payload) := by
  have hsize : encodedFrameSize frame.canonical = headerSize + frame.payload.length :=
    if_neg (Nat.not_lt.mpr hlen)
  have hfits : ¬ headerSize + frame.payload.length > maxFrameBytes := by
    rw [headerSize, maxFrameBytes] at *
    omega
  have hfill := fill_header frame.canonical.header frame.payload
    (buffer dst (headerSize + frame.payload.length)) (length_buffer dst _)
  rw [encodeFrameInto, if_neg (Nat.not_lt.mpr hlen)]
  simp only [hsize, if_neg hfits, validateHeaderValues_canonical, hvalid]
  exact congrArg _ hfill

/-- The encoder refuses every other frame. -/
theorem encodeFrameInto_error (h : ¬ (validateHeaderValues frame.header = none ∧
      frame.payload.length ≤ maxFrameBytes - headerSize)) (dst : Bytes) :
    ∃ err, encodeFrameInto dst frame = .error err := by
  rw [encodeFrameInto]
  split_ifs with hlen
  · exact ⟨_, rfl⟩
  · simp only [validateHeaderValues_canonical]
    split
    · exact ⟨_, rfl⟩
    · cases hv : validateHeaderValues frame.header with
      | none => exact absurd ⟨hv, Nat.not_lt.mp hlen⟩ h
      | some err => exact ⟨err, rfl⟩

theorem decodeHeader_ok {h : Header} (hd : decodeHeader data = .ok h) :
    headerSize ≤ data.length ∧ h = readHeader data ∧ h.version = wireVersion ∧
      h.headerLength = .ofNat headerSize ∧ h.payloadOffset = .ofNat headerSize ∧
      validateHeaderValues h = none := by
  simp only [decodeHeader] at hd
  split_ifs at hd with hlen hver hfix
  cases hv : validateHeaderValues (readHeader data) with
  | some err => simp [hv] at hd
  | none =>
    simp only [hv, Except.ok.injEq] at hd
    push Not at hver hfix
    subst hd
    exact ⟨Nat.not_lt.mp hlen, rfl, hver, hfix.1, hfix.2, hv⟩

theorem decodeHeader_bytes (hvalid : validateHeaderValues frame.header = none) (rest : Bytes) :
    decodeHeader (frame.canonical.header.bytes ++ rest) = .ok frame.canonical.header := by
  have hlen : ¬ (frame.canonical.header.bytes ++ rest).length < headerSize := by
    rw [length_append, Header.length_bytes]
    omega
  rw [decodeHeader, if_neg hlen, readHeader_bytes]
  simp only [validateHeaderValues_canonical, hvalid]
  rfl

/-- What the decoder makes of the bytes of a valid header and a payload of the length that the
    header announces. -/
theorem decodeFrameView_bytes {frame : Frame} (hvalid : validateHeaderValues frame.header = none)
    (hlen : frame.payload.length ≤ maxFrameBytes - headerSize) :
    decodeFrameView (frame.canonical.header.bytes ++ frame.payload) = .ok frame.canonical := by
  have hdata : (frame.canonical.header.bytes ++ frame.payload).length =
      headerSize + frame.payload.length := by
    rw [length_append, Header.length_bytes]
  have hmax : ¬ headerSize + frame.payload.length > maxFrameBytes := by
    rw [headerSize, maxFrameBytes] at *
    omega
  have hword : frame.canonical.header.payloadLength.toNat = frame.payload.length := by
    apply UInt32.toNat_ofNat_of_lt'
    rw [headerSize, maxFrameBytes] at hlen
    simp only [UInt32.size]
    omega
  have hheader := decodeHeader_bytes hvalid frame.payload
  have hslice : slice (frame.canonical.header.bytes ++ frame.payload) headerSize
      (headerSize + frame.payload.length) = frame.payload := by
    rw [slice_append_right (Header.length_bytes _).le, Header.length_bytes, Nat.sub_self,
      Nat.add_sub_cancel_left, slice_all]
  have hoff : frame.canonical.header.payloadOffset.toNat = headerSize := rfl
  rw [decodeFrameView, hdata, if_neg hmax, hheader]
  simp only [hoff, hword, Nat.add_sub_cancel_left, gt_iff_lt, Nat.lt_irrefl, if_false, ne_eq,
    not_true_eq_false, hslice]
  rfl

/-- A string of bytes that the decoder accepts is the canonical encoding of what it returns. -/
theorem decodeFrameView_ok (hd : decodeFrameView data = .ok frame) :
    validateHeaderValues frame.header = none ∧
      frame.payload.length ≤ maxFrameBytes - headerSize ∧ frame.canonical = frame ∧
      frame.header.bytes ++ frame.payload = data := by
  rw [decodeFrameView] at hd
  split_ifs at hd with hmax
  cases hh : decodeHeader data with
  | error err => simp [hh] at hd
  | ok h =>
    obtain ⟨hlen, rfl, hver, hhl, hoff, hvalid⟩ := decodeHeader_ok hh
    have hoffset : (readHeader data).payloadOffset.toNat = headerSize := by rw [hoff]; rfl
    simp only [hh, hoffset] at hd
    split_ifs at hd with hfit hend
    simp only [Except.ok.injEq] at hd
    push Not at hend
    subst hd
    have hpay : (slice data headerSize data.length).length = data.length - headerSize :=
      length_slice le_rfl
    have hword : UInt32.ofNat (slice data headerSize data.length).length =
        (readHeader data).payloadLength := by
      rw [hpay, ← hend, Nat.add_sub_cancel_left, UInt32.ofNat_toNat]
    rw [hend]
    refine ⟨hvalid, ?_, ?_, ?_⟩
    · rw [hpay]
      omega
    · simp only [Frame.canonical, hword, ← hver, ← hhl, ← hoff]
    · show (readHeader data).bytes ++ slice data headerSize data.length = data
      rw [bytes_readHeader hlen, slice_append_slice (Nat.zero_le _) hlen, slice_all]

/-- Encoder and decoder are inverse: a valid frame is encoded and decodes to itself, up to the four
    fields that the encoder sets; any other frame is refused; and what the decoder accepts is
    encoded again as the bytes it was read from. -/
theorem frame_codec_bijective :
    (∀ frame : Frame, validateHeaderValues frame.header = none →
      frame.payload.length ≤ maxFrameBytes - headerSize →
      ∃ data, encodeFrame frame = .ok data ∧ decodeFrameView data = .ok frame.canonical) ∧
    (∀ frame : Frame, ¬ (validateHeaderValues frame.header = none ∧
      frame.payload.length ≤ maxFrameBytes - headerSize) →
      ∃ err, encodeFrame frame = .error err) ∧
    (∀ (data : Bytes) (frame : Frame), decodeFrameView data = .ok frame →
      encodeFrame frame = .ok data) := by
  refine ⟨?_, ?_, ?_⟩
  · intro frame hvalid hlen
    exact ⟨_, encodeFrameInto_ok hvalid hlen [], decodeFrameView_bytes hvalid hlen⟩
  · intro frame h
    exact encodeFrameInto_error h []
  · intro data frame hd
    obtain ⟨hvalid, hlen, hcanon, hbytes⟩ := decodeFrameView_ok hd
    rw [encodeFrame, encodeFrameInto_ok hvalid hlen, hcanon, hbytes]

/-- A chunk of data goes over the wire and back. -/
theorem frame_codec_data :
    ∃ data, encodeFrame { header := { frameType := 1, flags := 7, chunkID := 5 }, payload := [1] } =
        .ok data ∧
      decodeFrameView data = .ok (Frame.canonical
        { header := { frameType := 1, flags := 7, chunkID := 5 }, payload := [1] }) :=
  frame_codec_bijective.1 _ (by decide) (by decide)

end Etp.Wire
