import Etp.Lib.Reader
import Etp.Transfer.Admission

/-!
# The body of a transfer

`sendTransferBody` reads the source chunk by chunk, sends each chunk and at last
the end of the transfer. It starts at the first chunk, or at the one at which the
receiver resumes, with the number of bytes before it.

The function is a loop over the number of bytes read and the number of chunks
sent; what stops it (its context, a send that fails) comes from an environment,
and the source is a reader that returns its bytes in pieces of its own choice, or
a byte string. Each turn of the loop reads and sends one chunk of the size that
the receiver asks for (`nextReadSize_eq`), so that the turns send the frames of
the chunks in order, and the end behind them (`bodyLoop_spec`).
-/

namespace Etp.Transfer

open Wire Octets List

/-! ## The loop -/

/-- The errors of a source. -/
inductive ReadErr
  | eof
  | unexpectedEOF
  | other (e : Err)
  deriving DecidableEq, Repr

/-- The options that the body reads; the size of a chunk is positive. -/
structure BodyOptions where
  totalSize : UInt64
  chunkSize : ℕ
  requestID : UInt64 := 0

/-- Where the bytes come from: the data of a message, or a reader. -/
inductive Input
  | data (bytes : Bytes)
  | reader (r : Reader.Source UInt8 ReadErr)

/-- The next `size` bytes, where `written` were read before; a slice of the data that is out of
    range is a panic. -/
def Input.next : Input → ℕ → ℕ → Option (Bytes × Option ReadErr × Input)
  | data bytes, written, size =>
    if written + size ≤ bytes.length then
      some (slice bytes written (written + size), none, data bytes)
    else none
  | reader r, _, size =>
    let (payload, err, r') := Reader.readFull r size
    some (payload, err, reader r')

/-- What may stop a turn of the loop: its context, asked for at the beginning, before the chunk is
    sent and while it waits after that, and the result of `sendReliableChunk`. A send that fails may
    have `sent` the frame. -/
structure Turn where
  top : Option Err := none
  before : Option Err := none
  send : Option Err := none
  sent : Bool := false
  delay : Option Err := none
  deriving DecidableEq

/-- The environment: that of each turn, and the results of sending the end and of waiting for the
    commit. -/
structure Env where
  turn : ℕ → Turn
  endErr : Option Err
  endSent : Bool
  waitErr : Option Err

/-- Nothing stops the loop. -/
structure Env.Quiet (env : Env) : Prop where
  turn : ∀ i, env.turn i = {}
  endErr : env.endErr = none
  waitErr : env.waitErr = none

/-- The frames that were sent and the error that is returned. -/
structure Outcome where
  frames : List Wire.Frame
  err : Option Err
  deriving DecidableEq

section Frames

variable (opts : BodyOptions) (transferID : UInt64)

/-- The frame of a chunk. -/
def dataFrame (chunkID : UInt32) (last : Bool) (payload : Bytes) : Wire.Frame :=
  let f := newFrame (.ofNat FrameType.data.code) 0 payload
  { f with header := { f.header with
      priority := 3
      channelID := 2
      requestID := opts.requestID
      transferID := transferID
      chunkID := chunkID
      flags := .ofNat (flagAckRequest ||| (if chunkID = 0 then flagFirst else 0) |||
        (if last then flagLast else 0)) } }

def endFrame : Wire.Frame :=
  let f := newFrame (.ofNat FrameType.transferEnd.code) 0 []
  { f with header := { f.header with
      priority := 3
      channelID := 2
      requestID := opts.requestID
      transferID := transferID
      flags := .ofNat flagLast } }

end Frames

/-- The size of the next read. -/
def nextReadSize (opts : BodyOptions) (written : UInt64) : ℕ :=
  let remaining := opts.totalSize - written
  if 0 < opts.totalSize ∧ remaining < .ofNat opts.chunkSize then remaining.toNat
  else opts.chunkSize

/-- The error for a source that ends or fails. -/
def readFailure (opts : BodyOptions) (read : ℕ) : ReadErr → Err
  | .eof | .unexpectedEOF =>
    "transfer reader ended early: read=" ++ toString read ++ " expected=" ++
      toString opts.totalSize ++ ": unexpected EOF"
  | .other e => e

/-- The end of `sendTransferBody`. -/
def finishBody (opts : BodyOptions) (transferID : UInt64) (env : Env) (sent : List Wire.Frame) :
    Outcome :=
  match env.endErr with
  | some e => ⟨if env.endSent then sent ++ [endFrame opts transferID] else sent, some e⟩
  | none => ⟨sent ++ [endFrame opts transferID], env.waitErr⟩

/-- The loop of `sendTransferBody` from its turn `i` on, with `fuel` turns at most. -/
def bodyLoop (opts : BodyOptions) (transferID : UInt64) (env : Env) :
    ℕ → ℕ → Input → UInt64 → UInt32 → List Wire.Frame → Option Outcome
  | 0, _, _, _, _, _ => none
  | fuel + 1, i, input, written, chunkID, sent =>
    match (env.turn i).top with
    | some e => some ⟨sent, some e⟩
    | none =>
      if opts.totalSize ≤ written then some (finishBody opts transferID env sent)
      else
        match input.next written.toNat (nextReadSize opts written) with
        | none => none
        | some (payload, some e, _) =>
          some ⟨sent, some (readFailure opts (written.toNat + payload.length) e)⟩
        | some (payload, none, input') =>
          if 0 < payload.length then
            let written' := written + .ofNat payload.length
            let frame := dataFrame opts transferID chunkID
              (0 < opts.totalSize ∧ opts.totalSize ≤ written') payload
            match (env.turn i).before, (env.turn i).send, (env.turn i).delay with
            | some e, _, _ => some ⟨sent, some e⟩
            | none, some e, _ =>
              some ⟨if (env.turn i).sent then sent ++ [frame] else sent, some e⟩
            | none, none, some e => some ⟨sent ++ [frame], some e⟩
            | none, none, none =>
              bodyLoop opts transferID env fuel (i + 1) input' written' (chunkID + 1)
                (sent ++ [frame])
          else bodyLoop opts transferID env fuel (i + 1) input' written chunkID sent

/-- `sendTransferBody`, with `fuel` turns at most. -/
def sendTransferBody (opts : BodyOptions) (transferID : UInt64) (env : Env) (fuel : ℕ)
    (input : Input) (written : UInt64) (chunkID : UInt32) : Option Outcome :=
  bodyLoop opts transferID env fuel 0 input written chunkID []

/-! ## What a turn reads -/

/-- The geometry of the transfer. -/
def BodyOptions.geometry (opts : BodyOptions) : TransferBegin where
  totalSize := opts.totalSize.toNat
  chunkSize := opts.chunkSize
  chunkCount := chunkCountFor opts.totalSize.toNat opts.chunkSize

/-- The input is about to deliver the bytes of `S` from `o` on; data has all the bytes of the
    transfer. -/
def Input.Delivers (S : Bytes) (total o : ℕ) : Input → Prop
  | data bytes => bytes = S ∧ total ≤ S.length
  | reader r => r.rest = S.drop o

namespace Input

variable {S : Bytes} {total o n : ℕ} {input : Input}

theorem next_ok (h : input.Delivers S total o) (hsize : o + n ≤ S.length) :
    ∃ input', input.next o n = some (slice S o (o + n), none, input') ∧
      input'.Delivers S total (o + n) := by
  cases input with
  | data bytes =>
    obtain ⟨rfl, htotal⟩ := h
    exact ⟨data bytes, if_pos hsize, rfl, htotal⟩
  | reader r =>
    have hrest : r.rest = S.drop o := h
    obtain ⟨r', hread, hr'⟩ := @Reader.readFull_ok _ _ r n (by
      rw [hrest, length_drop]
      omega)
    refine ⟨reader r', ?_, ?_⟩
    · rw [next, hread, hrest]
      simp only [slice, drop_take, Nat.add_sub_cancel_left]
    · show r'.rest = S.drop (o + n)
      rw [hr', hrest, drop_drop]

theorem next_short (h : input.Delivers S total o) (htotal : o + n ≤ total) (ho : o ≤ S.length)
    (hsize : S.length < o + n) :
    ∃ payload e input', input.next o n = some (payload, some e, input') := by
  cases input with
  | data bytes =>
    obtain ⟨rfl, hall⟩ := h
    omega
  | reader r =>
    have hrest : r.rest = S.drop o := h
    obtain ⟨r', hread⟩ := @Reader.readFull_error _ _ r n (by
      rw [hrest, length_drop]
      omega)
    exact ⟨_, _, reader r', by rw [next, hread]⟩

end Input

/-- A transfer that `validateOutgoingTransfer` admits is exact. -/
theorem exact_of_sendable {m : TransferBegin} (hword : m.chunkSize < 2 ^ 32)
    (hcount : m.chunkCount = chunkCountFor m.totalSize m.chunkSize) (h : m.sendable = true) :
    m.Exact ∧ m.chunkCount < maxUint32 := by
  simp only [TransferBegin.sendable, Bool.and_eq_true, decide_eq_true_eq, Bool.not_eq_true',
    Bool.and_eq_false_iff, decide_eq_false_iff_not, beq_eq_false_iff_ne] at h
  obtain ⟨hpos, hzero | hne⟩ := h
  · have htotal : m.totalSize = 0 := by omega
    refine ⟨TransferBegin.exact_of_chunkCountFor hword hpos hcount (by omega), ?_⟩
    rw [hcount, chunkCountFor, if_pos htotal]
    decide
  · have hlt : chunkCountFor m.totalSize m.chunkSize < maxUint32 :=
      Nat.lt_of_le_of_ne (chunkCountFor_le _ _) hne
    refine ⟨TransferBegin.exact_of_chunkCountFor hword hpos hcount ?_, hcount ▸ hlt⟩
    -- the number of chunks is below the bound, so they hold less than its chunks
    by_contra hlarge
    rw [chunkCountFor, if_neg (by omega)] at hlt
    have hdiv : maxUint32 ≤ (m.totalSize - 1) / m.chunkSize := by
      rw [Nat.le_div_iff_mul_le hpos]
      omega
    simp only at hlt
    rw [if_pos (by omega)] at hlt
    exact Nat.lt_irrefl _ hlt

section Geometry

variable {opts : BodyOptions} {S : Bytes} {k : ℕ} {written : UInt64}

/-- Where the loop stands before the chunk `k`, it reads what the receiver asks of this chunk. -/
theorem nextReadSize_eq (hm : opts.geometry.Exact) (hk : k < opts.geometry.chunkCount)
    (hwritten : written.toNat = opts.geometry.offset k) :
    nextReadSize opts written = opts.geometry.demand k := by
  have hneeded : k * opts.chunkSize < opts.totalSize.toNat := hm.needed k hk
  have hword : opts.chunkSize < 2 ^ 32 := hm.word
  have hoffset : opts.geometry.offset k = k * opts.chunkSize := Nat.min_eq_left hneeded.le
  have hremaining : (opts.totalSize - written).toNat =
      opts.totalSize.toNat - k * opts.chunkSize := by
    rw [UInt64.toNat_sub_of_le _ _ (by rw [UInt64.le_iff_toNat_le]; omega), hwritten, hoffset]
  have hchunk : (UInt64.ofNat opts.chunkSize).toNat = opts.chunkSize :=
    UInt64.toNat_ofNat_of_lt' (by
      rw [UInt64.size]
      omega)
  have hpos : 0 < opts.totalSize := by
    rw [UInt64.lt_iff_toNat_lt]
    exact Nat.zero_lt_of_lt hneeded
  rw [nextReadSize, hm.demand_eq hk]
  simp only [hpos, true_and, UInt64.lt_iff_toNat_lt, hchunk, hremaining]
  show _ = min opts.chunkSize (opts.totalSize.toNat - k * opts.chunkSize)
  split_ifs <;> omega

/-- These bytes are the chunk. -/
theorem slice_eq_chunk (hm : opts.geometry.Exact) (hk : k < opts.geometry.chunkCount) :
    slice S (opts.geometry.offset k) (opts.geometry.offset k + opts.geometry.demand k) =
      opts.geometry.chunk (S.take opts.totalSize.toNat) k := by
  have hneeded : k * opts.chunkSize < opts.totalSize.toNat := hm.needed k hk
  have hoffset : opts.geometry.offset k = k * opts.chunkSize := Nat.min_eq_left hneeded.le
  rw [hoffset, hm.demand_eq hk, slice, drop_take, Nat.add_sub_cancel_left,
    TransferBegin.chunk, Piece.piece, drop_take, take_take]
  rfl

end Geometry

/-! ## What the loop sends -/

/-- The frame of the chunk `k` of the source `S`. -/
def chunkFrame (opts : BodyOptions) (transferID : UInt64) (S : Bytes) (k : ℕ) : Wire.Frame :=
  dataFrame opts transferID (.ofNat k) (k + 1 = opts.geometry.chunkCount)
    (opts.geometry.chunk (S.take opts.totalSize.toNat) k)

/-- The frames of `n` chunks from the chunk `k` on. -/
def chunkFrames (opts : BodyOptions) (transferID : UInt64) (S : Bytes) (k n : ℕ) :
    List Wire.Frame :=
  (List.range' k n).map (chunkFrame opts transferID S)

section Loop

variable {opts : BodyOptions} {transferID : UInt64} {env : Env} {S : Bytes}

theorem chunkFrames_succ (k n : ℕ) : chunkFrames opts transferID S k (n + 1) =
    chunkFrame opts transferID S k :: chunkFrames opts transferID S (k + 1) n := by
  rw [chunkFrames, List.range'_succ, map_cons, chunkFrames]

/-- What becomes of a loop that has `n` chunks to send, from the chunk `k` on, and has `sent` some
    frames before: it sends them in order and the end behind them. It is only stopped by its
    environment, or by a source that is too short, which is an error before the end. -/
structure Sends (opts : BodyOptions) (transferID : UInt64) (env : Env) (S : Bytes) (k n : ℕ)
    (sent : List Wire.Frame) (out : Outcome) : Prop where
  frames : ∃ l, out.frames = sent ++ l ∧
    l <+: chunkFrames opts transferID S k n ++ [endFrame opts transferID] ∧
    (S.length < opts.totalSize.toNat → l <+: chunkFrames opts transferID S k n)
  short : S.length < opts.totalSize.toNat → out.err ≠ none
  all : env.Quiet → opts.totalSize.toNat ≤ S.length →
    out = ⟨sent ++ (chunkFrames opts transferID S k n ++ [endFrame opts transferID]), none⟩

variable {k n : ℕ} {sent : List Wire.Frame} {out : Outcome}

/-- The chunk before them was sent, too. -/
theorem Sends.cons
    (h : Sends opts transferID env S (k + 1) n (sent ++ [chunkFrame opts transferID S k]) out) :
    Sends opts transferID env S k (n + 1) sent out := by
  obtain ⟨l, hframes, hall, hshort⟩ := h.frames
  refine ⟨⟨chunkFrame opts transferID S k :: l, ?_, ?_, ?_⟩, h.short, ?_⟩
  · rw [hframes, append_assoc, singleton_append]
  · rw [chunkFrames_succ, cons_append]
    exact cons_prefix_cons.mpr ⟨rfl, hall⟩
  · intro hlen
    rw [chunkFrames_succ]
    exact cons_prefix_cons.mpr ⟨rfl, hshort hlen⟩
  · intro hquiet hlen
    rw [h.all hquiet hlen, chunkFrames_succ, append_assoc, singleton_append,
      cons_append]

/-- The loop is stopped with an error. -/
theorem sends_stopped (e : Err) (h : env.Quiet → S.length < opts.totalSize.toNat) :
    Sends opts transferID env S k n sent ⟨sent, some e⟩ where
  frames := ⟨[], (append_nil sent).symm, ⟨_, rfl⟩, fun _ => ⟨_, rfl⟩⟩
  short _ := Option.some_ne_none e
  all hquiet hlen := absurd (h hquiet) (Nat.not_lt.mpr hlen)

/-- The end is sent behind the last chunk. -/
theorem sends_finishBody (hlen : opts.totalSize.toNat ≤ S.length) :
    Sends opts transferID env S k 0 sent (finishBody opts transferID env sent) := by
  rw [finishBody]
  cases herr : env.endErr with
  | some e =>
    refine ⟨⟨if env.endSent then [endFrame opts transferID] else [], ?_, ?_, ?_⟩, ?_, ?_⟩
    · dsimp only
      split_ifs
      · rfl
      · exact (append_nil sent).symm
    · split_ifs
      · exact ⟨[], rfl⟩
      · exact ⟨_, rfl⟩
    · intro hshort
      omega
    · intro _
      exact Option.some_ne_none e
    · intro hquiet
      rw [hquiet.endErr] at herr
      cases herr
  | none =>
    refine ⟨⟨[endFrame opts transferID], rfl, ⟨[], rfl⟩, ?_⟩, ?_, ?_⟩
    · intro hshort
      omega
    · intro hshort
      omega
    · intro hquiet _
      rw [hquiet.waitErr]
      rfl

/-- A turn that nothing stops adds the frame of its chunk. -/
theorem bodyLoop_turn (hm : opts.geometry.Exact) (hk : k < opts.geometry.chunkCount)
    {i : ℕ} {input : Input} {written : UInt64}
    (hwritten : written.toNat = opts.geometry.offset k)
    (hinput : input.Delivers S opts.totalSize.toNat (opts.geometry.offset k))
    (hlen : opts.geometry.offset k + opts.geometry.demand k ≤ S.length) :
    ∃ input' written', written'.toNat = opts.geometry.offset (k + 1) ∧
      input'.Delivers S opts.totalSize.toNat (opts.geometry.offset (k + 1)) ∧
      ∀ fuel, bodyLoop opts transferID env (fuel + 1) i input written (.ofNat k) sent =
        match (env.turn i).top, (env.turn i).before, (env.turn i).send, (env.turn i).delay with
        | some e, _, _, _ | none, some e, _, _ => some ⟨sent, some e⟩
        | none, none, some e, _ =>
          some ⟨if (env.turn i).sent then sent ++ [chunkFrame opts transferID S k] else sent,
            some e⟩
        | none, none, none, some e =>
          some ⟨sent ++ [chunkFrame opts transferID S k], some e⟩
        | none, none, none, none =>
          bodyLoop opts transferID env fuel (i + 1) input' written' (.ofNat (k + 1))
            (sent ++ [chunkFrame opts transferID S k]) := by
  have hoffset := hm.offset_succ hk
  have hnextle : opts.geometry.offset (k + 1) ≤ opts.totalSize.toNat := Piece.offset_le
  have htotal := opts.totalSize.toNat_lt
  have hpos := hm.demand_pos hk
  obtain ⟨input', hnext, hinput'⟩ := Input.next_ok hinput hlen
  rw [slice_eq_chunk hm hk] at hnext
  have hlength : (opts.geometry.chunk (S.take opts.totalSize.toNat) k).length =
      opts.geometry.demand k := by
    rw [← slice_eq_chunk hm hk, length_slice hlen, Nat.add_sub_cancel_left]
  have hwritten' : (written + .ofNat (opts.geometry.demand k)).toNat =
      opts.geometry.offset (k + 1) := by
    rw [UInt64.toNat_add, UInt64.toNat_ofNat_of_lt' (by rw [UInt64.size]; omega), hwritten,
      ← hoffset, Nat.mod_eq_of_lt (by omega)]
  refine ⟨input', _, hwritten', hoffset ▸ hinput', fun fuel => ?_⟩
  -- the flag of the last chunk
  have hlast : decide (0 < opts.totalSize ∧
      opts.totalSize ≤ written + .ofNat (opts.geometry.demand k)) =
        decide (k + 1 = opts.geometry.chunkCount) := by
    rw [decide_eq_decide, UInt64.lt_iff_toNat_lt, UInt64.le_iff_toNat_le, hwritten']
    constructor
    · intro hall
      by_contra hne
      have hneeded : (k + 1) * opts.chunkSize < opts.totalSize.toNat :=
        hm.needed (k + 1) (by omega)
      have : opts.geometry.offset (k + 1) = (k + 1) * opts.chunkSize :=
        Nat.min_eq_left hneeded.le
      omega
    · intro heq
      rw [heq, hm.offset_count]
      exact ⟨by show 0 < opts.totalSize.toNat; omega, le_rfl⟩
  have hgoes : ¬ opts.totalSize ≤ written := by
    rw [UInt64.le_iff_toNat_le]
    omega
  have hid : UInt32.ofNat k + 1 = .ofNat (k + 1) := (UInt32.ofNat_add k 1).symm
  rw [bodyLoop, if_neg hgoes, hwritten, nextReadSize_eq hm hk hwritten, hnext]
  simp only [hlength, hpos, if_true, hlast, hid]
  cases (env.turn i).top <;> cases (env.turn i).before <;> cases (env.turn i).send <;>
    cases (env.turn i).delay <;> rfl

/-- The loop from the chunk `k` on, with `n` chunks to send, ends after as many turns. -/
theorem bodyLoop_spec (hm : opts.geometry.Exact) (hk : k + n = opts.geometry.chunkCount)
    {i : ℕ} {input : Input} {written : UInt64}
    (hwritten : written.toNat = opts.geometry.offset k)
    (hinput : input.Delivers S opts.totalSize.toNat (opts.geometry.offset k))
    (hlen : opts.geometry.offset k ≤ S.length) :
    ∃ out, (∀ fuel, n < fuel →
        bodyLoop opts transferID env fuel i input written (.ofNat k) sent = some out) ∧
      Sends opts transferID env S k n sent out := by
  have hfuel : ∀ fuel, n < fuel → ∃ f, fuel = f + 1 ∧ n ≤ f := by
    intro fuel hlt
    exact ⟨fuel - 1, by omega, by omega⟩
  induction n generalizing k i input written sent with
  | zero =>
    have hend : opts.geometry.offset k = opts.totalSize.toNat := by
      rw [show k = opts.geometry.chunkCount from hk]
      exact hm.offset_count
    cases htop : (env.turn i).top with
    | some e =>
      refine ⟨⟨sent, some e⟩, ?_, sends_stopped e ?_⟩
      · intro fuel hlt
        obtain ⟨f, rfl, -⟩ := hfuel fuel hlt
        rw [bodyLoop, htop]
      · intro hquiet
        rw [hquiet.turn i] at htop
        cases htop
    | none =>
      refine ⟨_, ?_, sends_finishBody (by omega)⟩
      intro fuel hlt
      obtain ⟨f, rfl, -⟩ := hfuel fuel hlt
      rw [bodyLoop, htop, if_pos (by rw [UInt64.le_iff_toNat_le, hwritten, hend])]
  | succ n ih =>
    have hlt : k < opts.geometry.chunkCount := by omega
    have hoffset := hm.offset_succ hlt
    have hnextle : opts.geometry.offset (k + 1) ≤ opts.totalSize.toNat := Piece.offset_le
    by_cases henough : opts.geometry.offset k + opts.geometry.demand k ≤ S.length
    · obtain ⟨input', written', hwritten', hinput', hturn⟩ :=
        @bodyLoop_turn opts transferID env S k sent hm hlt i input written hwritten hinput henough
      obtain ⟨out, hout, hsends⟩ := @ih (k + 1) (sent ++ [chunkFrame opts transferID S k])
        (by omega) (i + 1) input' written' hwritten' hinput' (by omega) fun fuel hf =>
          ⟨fuel - 1, by omega, by omega⟩
      -- what may stop the turn, in the order in which it is asked for
      cases htop : (env.turn i).top with
      | some e =>
        refine ⟨⟨sent, some e⟩, fun fuel hf => ?_, sends_stopped e fun hquiet => ?_⟩
        · obtain ⟨f, rfl, -⟩ := hfuel fuel hf
          rw [hturn, htop]
        · simp [hquiet.turn i] at htop
      | none =>
        cases hbefore : (env.turn i).before with
        | some e =>
          refine ⟨⟨sent, some e⟩, fun fuel hf => ?_, sends_stopped e fun hquiet => ?_⟩
          · obtain ⟨f, rfl, -⟩ := hfuel fuel hf
            rw [hturn, htop, hbefore]
          · simp [hquiet.turn i] at hbefore
        | none =>
          cases hsend : (env.turn i).send with
          | some e =>
            have hnoisy : env.Quiet → S.length < opts.totalSize.toNat := by
              intro hquiet
              simp [hquiet.turn i] at hsend
            refine ⟨⟨if (env.turn i).sent then sent ++ [chunkFrame opts transferID S k] else sent,
              some e⟩, fun fuel hf => ?_, ?_⟩
            · obtain ⟨f, rfl, -⟩ := hfuel fuel hf
              rw [hturn, htop, hbefore, hsend]
            · split_ifs
              · exact (sends_stopped e hnoisy).cons
              · exact sends_stopped e hnoisy
          | none =>
            cases hdelay : (env.turn i).delay with
            | some e =>
              refine ⟨⟨sent ++ [chunkFrame opts transferID S k], some e⟩, fun fuel hf => ?_,
                (sends_stopped e fun hquiet => ?_).cons⟩
              · obtain ⟨f, rfl, -⟩ := hfuel fuel hf
                rw [hturn, htop, hbefore, hsend, hdelay]
              · simp [hquiet.turn i] at hdelay
            | none =>
              refine ⟨out, fun fuel hf => ?_, hsends.cons⟩
              obtain ⟨f, rfl, hle⟩ := hfuel fuel hf
              rw [hturn, htop, hbefore, hsend, hdelay]
              exact hout f hle
    · -- the source has less than the chunk
      push Not at henough
      obtain ⟨payload, e, input', hnext⟩ :=
        Input.next_short hinput (by omega) hlen henough
      have hshort : S.length < opts.totalSize.toNat := by omega
      have hgoes : ¬ opts.totalSize ≤ written := by
        rw [UInt64.le_iff_toNat_le]
        omega
      cases htop : (env.turn i).top with
      | some e =>
        refine ⟨⟨sent, some e⟩, fun fuel hf => ?_, sends_stopped e fun _ => hshort⟩
        obtain ⟨f, rfl, -⟩ := hfuel fuel hf
        rw [bodyLoop, htop]
      | none =>
        refine ⟨⟨sent, some (readFailure opts (written.toNat + payload.length) e)⟩,
          fun fuel hf => ?_, sends_stopped _ fun _ => hshort⟩
        obtain ⟨f, rfl, -⟩ := hfuel fuel hf
        rw [bodyLoop, htop, if_neg hgoes]
        simp only [hwritten, nextReadSize_eq hm hlt hwritten, hnext]

end Loop

/-! ## The frames of a body -/

section Frames

variable {opts : BodyOptions} {transferID : UInt64} {S : Bytes} {k n : ℕ}

theorem chunkFrame_ne_endFrame (k : ℕ) :
    chunkFrame opts transferID S k ≠ endFrame opts transferID := by
  intro heq
  have htype : (.ofNat FrameType.data.code : UInt8) = .ofNat FrameType.transferEnd.code :=
    congrArg (fun f => f.header.frameType) heq
  exact absurd htype (by decide)

theorem endFrame_not_mem {l : List Wire.Frame} (h : l <+: chunkFrames opts transferID S k n) :
    endFrame opts transferID ∉ l := by
  intro hmem
  obtain ⟨j, -, heq⟩ := mem_map.mp (h.subset hmem)
  exact chunkFrame_ne_endFrame j heq

theorem flags_bits (first last : Bool) :
    ((UInt16.ofNat (flagAckRequest ||| (if first then flagFirst else 0) |||
        (if last then flagLast else 0))).toNat &&& flagLast ≠ 0 ↔ last = true) ∧
    ((UInt16.ofNat (flagAckRequest ||| (if first then flagFirst else 0) |||
        (if last then flagLast else 0))).toNat &&& flagFirst ≠ 0 ↔ first = true) := by
  cases first <;> cases last <;> decide

/-- The flags of the frame of a chunk. -/
theorem chunkFrame_flags (hk : k < 2 ^ 32) :
    ((chunkFrame opts transferID S k).header.flags.toNat &&& flagLast ≠ 0 ↔
      k + 1 = opts.geometry.chunkCount) ∧
    ((chunkFrame opts transferID S k).header.flags.toNat &&& flagFirst ≠ 0 ↔ k = 0) := by
  have hfirst : (if UInt32.ofNat k = 0 then flagFirst else 0) =
      if decide (k = 0) then flagFirst else 0 := by
    have hzero : UInt32.ofNat k = 0 ↔ k = 0 := by
      rw [← UInt32.toNat_inj, UInt32.toNat_ofNat_of_lt' (by rw [UInt32.size]; exact hk)]
      rfl
    simp only [hzero, decide_eq_true_eq]
  have hbits := flags_bits (k = 0) (k + 1 = opts.geometry.chunkCount)
  rw [← hfirst] at hbits
  exact ⟨hbits.1.trans decide_eq_true_iff, hbits.2.trans decide_eq_true_iff⟩

/-- The payloads of the frames are the bytes of the source from the first of the chunks on. -/
theorem flatten_payload (hm : opts.geometry.Exact) (hk : k + n = opts.geometry.chunkCount)
    (hlen : opts.totalSize.toNat ≤ S.length) :
    ((chunkFrames opts transferID S k n).map fun f => f.payload).flatten =
      slice S (opts.geometry.offset k) opts.totalSize.toNat := by
  have hpayload : (chunkFrames opts transferID S k n).map (fun f => f.payload) =
      (List.range' k n).map (Piece.piece opts.chunkSize (S.take opts.totalSize.toNat)) := by
    rw [chunkFrames, map_map]
    rfl
  have hcovers : opts.totalSize.toNat ≤ (k + n) * opts.chunkSize := by
    rw [hk]
    exact hm.covers
  have htake : (S.take opts.totalSize.toNat).length = opts.totalSize.toNat := by
    rw [length_take]
    omega
  rw [hpayload, Piece.flatten_pieces_from, take_of_length_le (by omega), slice]
  show _ = (S.take opts.totalSize.toNat).drop (min (k * opts.chunkSize) opts.totalSize.toNat)
  by_cases hle : k * opts.chunkSize ≤ opts.totalSize.toNat
  · rw [Nat.min_eq_left hle]
  · rw [Nat.min_eq_right (by omega), drop_eq_nil_of_le (by omega),
      drop_eq_nil_of_le (by omega)]

/-- The frame of a chunk carries as many bytes as the receiver asks for. -/
theorem length_payload (hm : opts.geometry.Exact) (hk : k < opts.geometry.chunkCount)
    (hlen : opts.totalSize.toNat ≤ S.length) :
    (chunkFrame opts transferID S k).payload.length = opts.geometry.demand k := by
  have hle : opts.geometry.offset k + opts.geometry.demand k ≤ opts.totalSize.toNat := by
    rw [← hm.offset_succ hk]
    exact Piece.offset_le
  show (opts.geometry.chunk (S.take opts.totalSize.toNat) k).length = _
  rw [← slice_eq_chunk hm hk, length_slice (by omega), Nat.add_sub_cancel_left]

end Frames

/-- `sendTransferBody` from the chunk `k` at the offset `o` on. It returns; the frames it sends are
    those of the chunks from `k` on, in order, and then the end. Where nothing stops it these are
    all sent, and a source that ends early is an error before the end. The frames carry the sizes
    that the receiver asks for, the bytes of the source from `o` on and the flags of the first and
    the last chunk. -/
theorem transfer_body_chunks {opts : BodyOptions} {transferID : UInt64} {env : Env} {S : Bytes}
    {k o : ℕ} {input : Input} (hvalid : opts.geometry.sendable = true)
    (hword : opts.chunkSize < 2 ^ 32)
    (hoffset : Storage.transferOffsetForChunk opts.totalSize.toNat opts.chunkSize k = some o)
    (hinput : input.Delivers S opts.totalSize.toNat o) (hlen : o ≤ S.length) :
    let count := chunkCountFor opts.totalSize.toNat opts.chunkSize
    let chunks := chunkFrames opts transferID S k (count - k)
    (∃ out, (∀ fuel, count - k < fuel →
        sendTransferBody opts transferID env fuel input (.ofNat o) (.ofNat k) = some out) ∧
      out.frames <+: chunks ++ [endFrame opts transferID] ∧
      (env.Quiet → opts.totalSize.toNat ≤ S.length →
        out = ⟨chunks ++ [endFrame opts transferID], none⟩) ∧
      (S.length < opts.totalSize.toNat →
        out.err ≠ none ∧ endFrame opts transferID ∉ out.frames)) ∧
    (opts.totalSize.toNat ≤ S.length →
      (∀ j < count,
        (chunkFrame opts transferID S j).payload.length = opts.geometry.demand j) ∧
      (chunks.map fun f => f.payload).flatten = slice S o opts.totalSize.toNat) ∧
    ∀ j < count, (chunkFrame opts transferID S j).header.chunkID.toNat = j ∧
      ((chunkFrame opts transferID S j).header.flags.toNat &&& flagLast ≠ 0 ↔ j + 1 = count) ∧
      ((chunkFrame opts transferID S j).header.flags.toNat &&& flagFirst ≠ 0 ↔ j = 0) := by
  intro count chunks
  obtain ⟨hm, hcount⟩ := @exact_of_sendable opts.geometry hword rfl hvalid
  obtain ⟨hk, rfl⟩ := hm.offset_of_transferOffsetForChunk rfl hoffset
  have hrest : k + (count - k) = opts.geometry.chunkCount := Nat.add_sub_cancel' hk
  have hsmall : ∀ j < count, j < 2 ^ 32 := by
    intro j hj
    have : count < maxUint32 := hcount
    rw [maxUint32] at this
    omega
  refine ⟨?_, fun hall => ⟨fun j hj => length_payload hm hj hall, flatten_payload hm hrest hall⟩,
    fun j hj => ⟨?_, chunkFrame_flags (hsmall j hj)⟩⟩
  · have hwritten : (UInt64.ofNat (opts.geometry.offset k)).toNat = opts.geometry.offset k := by
      have hle : opts.geometry.offset k ≤ opts.totalSize.toNat := Piece.offset_le
      have htotal := opts.totalSize.toNat_lt
      exact UInt64.toNat_ofNat_of_lt' (by rw [UInt64.size]; omega)
    obtain ⟨out, hout, hsends⟩ := @bodyLoop_spec opts transferID env S k (count - k) [] hm hrest 0
      input _ hwritten hinput hlen
    obtain ⟨l, hframes, hpre, hshort⟩ := hsends.frames
    rw [nil_append] at hframes
    refine ⟨out, hout, hframes ▸ hpre, hsends.all, fun hlt => ⟨hsends.short hlt, ?_⟩⟩
    rw [hframes]
    exact endFrame_not_mem (hshort hlt)
  · exact UInt32.toNat_ofNat_of_lt' (by rw [UInt32.size]; exact hsmall j hj)

/-- Five bytes in chunks of two, resumed at the second chunk, from a reader that returns one byte at
    a time. -/
theorem transfer_body_resumed :
    ∃ out, sendTransferBody ⟨5, 2, 0⟩ 7 ⟨fun _ => {}, none, false, none⟩ 3
        (.reader { rest := [3, 4, 5], splits := [1, 1, 1], stop := .eof }) (.ofNat 2) (.ofNat 1) =
          some out ∧
      out = ⟨chunkFrames ⟨5, 2, 0⟩ 7 [1, 2, 3, 4, 5] 1 2 ++ [endFrame ⟨5, 2, 0⟩ 7], none⟩ := by
  obtain ⟨⟨out, hout, -, hall, -⟩, -⟩ := @transfer_body_chunks ⟨5, 2, 0⟩ 7
    ⟨fun _ => {}, none, false, none⟩ [1, 2, 3, 4, 5] 1 2
    (.reader { rest := [3, 4, 5], splits := [1, 1, 1], stop := .eof })
    (by decide) (by decide) (by decide) rfl (by decide)
  exact ⟨out, hout 3 (by decide), hall ⟨fun _ => rfl, rfl, rfl⟩ (by decide)⟩

end Etp.Transfer
