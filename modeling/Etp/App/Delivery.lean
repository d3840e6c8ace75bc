import Etp.App.Body
import Etp.Message.Inline
import Etp.Transfer.Integrity

/-!
# One frame or a transfer

`Request` and `Respond` send a message in one frame if it is short enough, and as
a transfer otherwise. The two ways share nothing between the sender's choice and
the call of the handler: in one frame the message goes through the codec of
events to `dispatchEvent`; as a transfer its event, fields and size go through
the codec of announcements to `handleTransfer`, its data in chunks to the writer
that `handleTransfer` returns, and closing the writer emits it.

What a handler sees of a message (`Seen`) does not depend on the way: the routed
handler is called once, with the event, the request ID, the fields and the data
of the sender, for all limits, chunk sizes and interleavings of the transfer.
-/

namespace Etp.Application

open Relation Wire Message Transfer List

/-! ## A message as a transfer -/

def contentFile : UInt32 := 1

/-- The options of a message without a reader. -/
structure MessageOptions where
  event : Bytes
  data : Bytes
  fields : List TransferField := []
  name : Bytes := []
  field : Bytes := []
  index : UInt32 := 0
  contentType : UInt32 := 0

/-- The message in one frame. -/
def MessageOptions.message (o : MessageOptions) : EventMessage where
  event := o.event
  data := o.data
  fields := o.fields

/-- The announcement that `startMessageTransfer` leads to, in chunks of `chunkSize`. -/
def MessageOptions.begin (o : MessageOptions) (chunkSize : UInt32) : Wire.TransferBegin where
  totalSize := .ofNat o.data.length
  chunkSize := chunkSize
  chunkCount := .ofNat (chunkCountFor o.data.length chunkSize.toNat)
  contentType := if o.contentType = 0 then contentFile else o.contentType
  flags := 0
  checksum := ⟨zeros 32, length_zeros 32⟩
  name := o.name
  event := o.event
  field := o.field
  index := o.index
  parts := []
  fields := o.fields

/-- The announcement, as the two ends of a transfer use it. -/
def announcement (v : Wire.TransferBegin) : Transfer.TransferBegin where
  totalSize := v.totalSize.toNat
  chunkSize := v.chunkSize.toNat
  chunkCount := v.chunkCount.toNat
  flags := v.flags.toNat
  checksum := v.checksum.val

variable {o : MessageOptions}

theorem announcement_begin (h : o.data.length < UInt64.size) (chunkSize : UInt32) :
    announcement (o.begin chunkSize) = announce o.data chunkSize.toNat 0 (zeros 32) := by
  have hcount : chunkCountFor o.data.length chunkSize.toNat < UInt32.size := by
    have := chunkCountFor_le o.data.length chunkSize.toNat
    rw [maxUint32] at this
    rw [UInt32.size]
    omega
  simp only [announcement, MessageOptions.begin, announce, UInt64.toNat_ofNat_of_lt' h,
    UInt32.toNat_ofNat_of_lt' hcount]
  rfl

/-! ## The calls of a writer -/

/-- The writer `w` was called as the list says, with these results, and the handlers were called as
    `calls` says. A writer without `Suspend` is aborted in its place, which calls no handler. -/
def Replays (a : App) : SpooledBodyWriter → List Transfer.Call → List Call → Prop
  | _, [], calls => calls = []
  | w, .write p n err :: rest, calls =>
    ∃ d w', w.write d p = (w', n, err) ∧ Replays a w' rest calls
  | w, .close err :: rest, calls =>
    ∃ d w' now later, w.close d a = (w', now, err) ∧ Replays a w' rest later ∧
      calls = now ++ later
  | _, .abort :: rest, calls | _, .suspend :: rest, calls =>
    Replays a SpooledBodyWriter.release rest calls

/-- What a handler sees of a message. -/
structure Seen where
  event : Bytes
  requestID : UInt64
  fields : List TransferField
  body : Bytes
  deriving DecidableEq, Repr

/-- What a handler sees of its context, with the body read through `Open`. -/
def Context.seen (ctx : Context) : Seen where
  event := ctx.event
  requestID := ctx.requestID
  fields := ctx.fields
  body := ctx.body.read

/-- What the handler of a route sees; the one for events without a route, which is called as well
    where that handler returns `ErrRouteNotFound`, and the one for errors are not meant. -/
def Call.seen : Call → Option Seen
  | .routed ctx => some ctx.seen
  | .notFound _ | .error _ _ => none

/-- The handler of a route is called once, whatever it returns. -/
theorem emit_seen {a : App} {ctx : Context} {handler : Context → Option Err}
    (h : a.compiled ctx.event = some handler) :
    (a.emit ctx).1.filterMap Call.seen = [ctx.seen] := by
  have hroute : a.route ctx = ([.routed ctx], handler ctx) := by rw [App.route, h]
  rw [App.emit, hroute]
  dsimp only
  split <;> split <;> rfl

/-- A writer that has taken all chunks and was closed without an error has emitted the message once,
    with the chunks as its body. -/
theorem replays_seen {a : App} {handler : Context → Option Err} {chunks : List Bytes}
    {w : SpooledBodyWriter} {x : Bytes} {calls : List Call} (hw : w.Holds x)
    (hroute : a.compiled w.event = some handler)
    (h : Replays a w ((chunks.map fun p => Transfer.Call.write p p.length none) ++ [.close none])
      calls) :
    calls.filterMap Call.seen = [{ w with body := x ++ chunks.flatten }] := by
  -- each chunk joins what the writer holds
  induction chunks generalizing w x with
  | cons p chunks ih =>
    obtain ⟨d, w', hwrite, hrest⟩ := h
    have hctx := SpooledBodyWriter.context_write (w := w) (d := d) (p := p) (.inline [])
    rw [hwrite] at hctx
    have hevent : w'.event = w.event := congrArg Context.event hctx
    have hid : w'.requestID = w.requestID := congrArg Context.requestID hctx
    have hfields : w'.fields = w.fields := congrArg Context.fields hctx
    have := ih (SpooledBodyWriter.holds_write hw hwrite) (hevent ▸ hroute) hrest
    rw [this, hevent, hid, hfields, flatten_cons, append_assoc]
  | nil =>
    obtain ⟨d, w', now, later, hclose, rfl, rfl⟩ := h
    obtain ⟨body, hread, -, rfl⟩ := SpooledBodyWriter.close_emits hw hclose
    rw [append_nil, emit_seen hroute, flatten_nil, append_nil, ← hread]
    rfl

/-! ## In one frame -/

/-- The calls of handlers that an effect of handling a frame comes to. -/
def effectCalls (a : App) : Effect → List Call
  | .call requestID m | .job requestID m => (a.dispatchEvent requestID m).1
  | .event _ | .sendError _ _ => []

/-- The calls of handlers that handling a frame of a kind of message comes to. -/
def inlineCalls (a : App) (p : Message.Peer) (kind : Kind) (frame : Wire.Frame) : List Call :=
  (handleIncoming p kind frame).effects.flatMap (effectCalls a)

variable {a : App} {p : Message.Peer} {kind : Kind} {frame : Wire.Frame}

theorem refuse_calls (twice : Bool) (code : UInt32) (message : String) (err : Err) :
    (refuse twice code message err).effects.flatMap (effectCalls a) = [] := by
  cases twice <;> rfl

/-- The handlers are called for the message of the frame, or not at all. -/
theorem inlineCalls_cases {m : EventMessage} (hm : decodeEventMessage frame.payload = .ok m) :
    inlineCalls a p kind frame = [] ∨
      inlineCalls a p kind frame = (a.dispatchEvent frame.header.requestID m).1 := by
  have hevent : (handleEvent p kind frame).effects.flatMap (effectCalls a) = [] ∨
      (handleEvent p kind frame).effects.flatMap (effectCalls a) =
        (a.dispatchEvent frame.header.requestID m).1 := by
    simp only [handleEvent, hm]
    split_ifs
    · exact .inl (refuse_calls _ _ _ _)
    · exact .inl (refuse_calls _ _ _ _)
    · exact .inl (refuse_calls _ _ _ _)
    · cases p.handler kind with
      | none => exact .inl rfl
      | some run =>
        simp only [invokeApplicationHandler]
        -- called at once, by a worker, or dropped for want of room
        split_ifs
        · exact .inr (append_nil _)
        · exact .inr (append_nil _)
        · exact .inl rfl
  cases kind with
  | request =>
    simp only [inlineCalls, handleIncoming, handleIncomingRequest]
    split_ifs
    · exact .inl (refuse_calls _ _ _ _)
    · exact hevent
  | response =>
    simp only [inlineCalls, handleIncoming, handleIncomingResponse]
    split_ifs
    · exact .inl (refuse_calls _ _ _ _)
    · exact hevent

/-! ## As a transfer -/

/-- The header of an announcement. -/
def beginHeader (requestID transferID : UInt64) : Wire.Header where
  frameType := .ofNat FrameType.transferBegin.code
  flags := .ofNat flagFirst
  priority := 3
  channelID := 2
  schemaID := .ofNat schemaTransferBegin
  requestID := requestID
  transferID := transferID

/-- The frame that announces a message, with its payload in the memory `dst`. -/
def MessageOptions.beginFrame (o : MessageOptions) (requestID transferID : UInt64)
    (chunkSize : UInt32) (dst : Bytes) : Wire.Frame where
  header := beginHeader requestID transferID
  payload := encodeTransferBeginInto dst (o.begin chunkSize)

theorem validate_beginHeader (requestID transferID : UInt64) :
    validateHeaderValues (beginHeader requestID transferID) = none := by
  have hid : validateHeaderValues (beginHeader requestID transferID) =
      validateHeaderValues (beginHeader 0 0) := rfl
  rw [hid]
  decide

/-- An announcement that is decoded is the one that was encoded: one that does not fit leaves no
    payload. -/
theorem decode_begin (hfields : o.fields.length ≤ maxTransferFields) {chunkSize : UInt32}
    {dst : Bytes} {v : Wire.TransferBegin}
    (h : decodeTransferBegin (encodeTransferBeginInto dst (o.begin chunkSize)) = .ok v) :
    v = o.begin chunkSize := by
  by_cases hsize : (o.begin chunkSize).size ≤ maxPayload
  · rw [encodeTransferBeginInto_bytes hsize,
      decodeTransferBegin_bytes (Nat.zero_le _) hfields hsize] at h
    exact (Except.ok.inj h).symm
  · have hnil : encodeTransferBeginInto dst (o.begin chunkSize) = [] :=
      if_pos (Nat.not_le.mp hsize)
    rw [hnil] at h
    cases h

/-- The frame of an announcement arrives as it was sent. -/
theorem decode_beginFrame {s : Endpoint} {requestID transferID : UInt64} {chunkSize : UInt32}
    {dst sent : Bytes}
    (hsent : sendContext s (o.beginFrame requestID transferID chunkSize dst) = .ok sent)
    (hframe : decodeFrameView sent = .ok frame) :
    frame = (o.beginFrame requestID transferID chunkSize dst).canonical := by
  have hvalid := validate_beginHeader requestID transferID
  have hlen : ¬ (o.beginFrame requestID transferID chunkSize dst).payload.length > maxPayload := by
    intro hlong
    rw [sendContext, if_pos hlong] at hsent
    cases hsent
  rw [sendContext_ok hvalid hsent, decodeFrameView_bytes hvalid (Nat.not_lt.mp hlen)] at hframe
  exact (Except.ok.inj hframe).symm

/-! ## The same for both -/

/-- A message that reaches the application in one frame, and one that reaches it as a completed
    transfer, is seen by the handler of its route exactly once, with the event, the request ID, the
    fields and the data that were sent. A slice is shorter than `2 ^ 63`. -/
theorem delivered_alike (a : App) (o : MessageOptions) (requestID : UInt64)
    (handler : Context → Option Err) (hroute : a.compiled o.event = some handler)
    (hevent : o.event ≠ []) (hfields : o.fields.length ≤ maxTransferFields)
    (hdata : o.data.length < 2 ^ 63) :
    (∀ (s : Endpoint) (p : Message.Peer) (c : SendCall) (kind : Kind) (sent : Bytes)
        (frame : Wire.Frame), c.emits s kind requestID o.message = some sent →
      decodeFrameView sent = .ok frame → inlineCalls a p kind frame ≠ [] →
        (inlineCalls a p kind frame).filterMap Call.seen =
          [⟨o.event, requestID, o.fields, o.data⟩]) ∧
    (∀ (s : Endpoint) (transferID : UInt64) (chunkSize : UInt32) (dst sent : Bytes)
        (frame : Wire.Frame) (v : Wire.TransferBegin) (H : Bytes → Bytes)
        (id retryLimit maxInFlight maxInFlightBytes : ℕ) (hasRemoteWindow : Bool) (l : Link)
        (r : Receiver) (calls : List Call),
      sendContext s (o.beginFrame requestID transferID chunkSize dst) = .ok sent →
      decodeFrameView sent = .ok frame → decodeTransferBegin frame.payload = .ok v →
      ReflTransGen (Link.Step H (announcement v) o.data)
        (Link.start (registerOutgoing id retryLimit maxInFlight maxInFlightBytes hasRemoteWindow
          (announcement v))) l →
      l.Finished (announcement v) o.data H → l.rcv = some r →
      Replays a (a.handleTransfer frame.header.requestID frame.header.transferID v) r.calls
        calls →
        calls.filterMap Call.seen = [⟨o.event, requestID, o.fields, o.data⟩]) := by
  constructor
  · intro s p c kind sent frame hsent hframe hcalls
    obtain ⟨-, hfits, hbytes⟩ := sendWithIDSize_ok (SendCall.emits_ok hsent)
    rw [hbytes, decode_eventFrame kind requestID hfits] at hframe
    obtain rfl := Except.ok.inj hframe
    have hm : decodeEventMessage (eventFrame kind requestID o.message).canonical.payload =
        .ok o.message := decodeEventMessage_bytes hfields hfits
    rcases inlineCalls_cases hm with hnone | hone
    · exact absurd hnone hcalls
    · rw [hone]
      exact emit_seen hroute
  · intro s transferID chunkSize dst sent frame v H id retryLimit maxInFlight maxInFlightBytes
      hasRemoteWindow l r calls hsent hframe hv hrun hfin hr hcalls
    obtain rfl := decode_beginFrame hsent hframe
    obtain rfl := decode_begin hfields hv
    rw [announcement_begin (by rw [UInt64.size]; omega)] at hrun hfin
    obtain ⟨r', chunks, hr', hwrites, hflat, -⟩ := hfin.delivered rfl rfl rfl hrun
    obtain rfl : r = r' := Option.some.inj (hr.symm.trans hr')
    rw [hwrites] at hcalls
    have hnamed : (a.handleTransfer requestID transferID (o.begin chunkSize)).event = o.event :=
      if_neg hevent
    have hseen := replays_seen
      (SpooledBodyWriter.holds_handleTransfer requestID transferID (o.begin chunkSize))
      (hnamed ▸ hroute) hcalls
    rw [hseen, hnamed, nil_append, hflat]
    rfl

/-- A message of one byte. -/
def byteMessage : MessageOptions where
  event := [1]
  data := [7]

theorem byte_delivered_alike :
    let a : App :=
      { compiled := fun _ => some fun _ => none, onNotFound := none, maxMemoryBody := 0 }
    (∃ sent frame, SendCall.fields.emits plainEndpoint .request 1 byteMessage.message = some sent ∧
      decodeFrameView sent = .ok frame ∧
      (inlineCalls a (plainPeer true) .request frame).filterMap Call.seen = [⟨[1], 1, [], [7]⟩]) ∧
    ∃ sent frame v l r calls,
      sendContext plainEndpoint (byteMessage.beginFrame 1 1 1 []) = .ok sent ∧
      decodeFrameView sent = .ok frame ∧ decodeTransferBegin frame.payload = .ok v ∧
      ReflTransGen (Link.Step id (announcement v) [7])
        (Link.start (registerOutgoing 1 1 1 1 false (announcement v))) l ∧
      l.Finished (announcement v) [7] id ∧ l.rcv = some r ∧
      Replays a (a.handleTransfer frame.header.requestID frame.header.transferID v) r.calls calls ∧
      calls.filterMap Call.seen = [⟨[1], 1, [], [7]⟩] := by
  intro a
  have hboth := delivered_alike a byteMessage 1 (fun _ => none) rfl (by decide) (by decide)
    (by decide)
  constructor
  · have hsent := @plainEndpoint_emits 1 byteMessage.message (by decide)
    have hframe := @decode_eventFrame byteMessage.message .request 1 (by decide)
    exact ⟨_, _, hsent, hframe, hboth.1 plainEndpoint (plainPeer true) .fields .request _ _ hsent
      hframe (by decide)⟩
  · have hsent : sendContext plainEndpoint (byteMessage.beginFrame 1 1 1 []) = .ok
        ((byteMessage.beginFrame 1 1 1 []).canonical.header.bytes ++
          (byteMessage.beginFrame 1 1 1 []).payload) := by decide +kernel
    have hframe := @decodeFrameView_bytes (byteMessage.beginFrame 1 1 1 [])
      (validate_beginHeader 1 1) (by decide +kernel)
    have hv : decodeTransferBegin (byteMessage.beginFrame 1 1 1 []).canonical.payload =
        .ok (byteMessage.begin 1) := by decide +kernel
    obtain ⟨l, r, hrun, hret, hr, hcalls⟩ := @Link.byte_run 0 (zeros 32) (.inl ⟨rfl, rfl⟩)
    have hreplay : Replays a (a.handleTransfer 1 1 (byteMessage.begin 1)) r.calls
        [.routed ⟨[1], 1, 1, [], .file [7] 1⟩] := by
      rw [hcalls]
      exact ⟨⟨none, (0, none), (1, none), none⟩, _, rfl, {}, _, _, _, rfl, rfl, rfl⟩
    refine ⟨_, _, _, l, r, _, hsent, hframe, hv, hrun, .inl hret, hr, hreplay, ?_⟩
    exact hboth.2 plainEndpoint 1 1 [] _ _ _ id 1 1 1 1 false l r _ hsent hframe hv hrun
      (.inl hret) hr hreplay

end Etp.Application
