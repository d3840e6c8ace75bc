import Etp.Writer
import Etp.Lib.Run

/-!
# Launching transfers

`StartTransfer`, `Request` and `SendTransfer` draw the id of the new transfer
from an atomic counter, register the transfer, and only then, for the first two
in a goroutine of their own, check the session and enqueue
`FrameTransferBegin`. The begin frames go out in the order in which they are
enqueued: all have the same priority, and the writer keeps the order within a
priority. The receiver insists on that order being the order of the ids: it
rejects a begin whose id is not above the last one (`admitBegin`), which ends
the session.

Nothing makes the order in which launches draw their ids the order in which
they enqueue their frames. The begins are in order in every run in which no
launch draws its id while another one is between its draw and its begin, and
two such launches are already enough to break the order
(`begins_increasing_iff`).
-/

namespace Etp.Launch

open Relation SessionWriter List

/-! ## The receiver -/

/-- Why `handleIncomingTransferBegin` rejects a valid begin frame. -/
inductive Reject
  | notIncreasing (id last : ℕ)
  | tooMany (limit : ℕ)
  | duplicate (id : ℕ)
  deriving DecidableEq, Repr

/-- The error of a rejection. -/
def Reject.err : Reject → Err
  | .notIncreasing id last =>
    "incoming transfer id is not increasing: " ++ toString id ++ " <= " ++ toString last
  | .tooMany limit => "too many incoming transfers: " ++ toString limit
  | .duplicate id => "duplicate incoming transfer id: " ++ toString id

/-- The receiver's books on incoming transfers; `handled` counts the frames it
    has handled, and a rejection ends the session. -/
structure Receiver where
  handled : ℕ := 0
  lastIncoming : ℕ := 0
  incoming : List ℕ := []
  opening : List ℕ := []
  rejected : Option Reject := none

/-- The part of `handleIncomingTransferBegin` under the lock of the session. -/
def admitBegin (maxConcurrent : ℕ) (r : Receiver) (id : ℕ) : Except Reject Receiver :=
  if id ≤ r.lastIncoming then .error (.notIncreasing id r.lastIncoming)
  else if maxConcurrent ≤ r.incoming.length + r.opening.length then .error (.tooMany maxConcurrent)
  else if id ∈ r.incoming then .error (.duplicate id)
  else if id ∈ r.opening then .error (.duplicate id)
  else .ok { r with lastIncoming := id, opening := id :: r.opening }

/-- The id a begin frame announces. -/
def beginID (f : Frame) : Option ℕ :=
  if f.header.frameType = .transferBegin then some f.header.transferID else none

/-- The receiver handles a frame. -/
def Receiver.handle (maxConcurrent : ℕ) (r : Receiver) (f : Frame) : Receiver :=
  match beginID f with
  | none => { r with handled := r.handled + 1 }
  | some id =>
    match admitBegin maxConcurrent r id with
    | .ok r' => { r' with handled := r.handled + 1 }
    | .error e => { r with handled := r.handled + 1, rejected := some e }

/-! ## The sender -/

/-- How far a launch is: `nextTransfer.Add(1)` has drawn its id,
    `registerOutgoing` has entered it, `sendTransfer` has made its checks. -/
inductive Stage
  | drawn
  | registered
  | checked
  deriving DecidableEq, Repr

/-- A launch between the draw of its id and its begin frame. -/
structure Attempt where
  id : ℕ
  stage : Stage

/-- The configurations of both ends: the limits on concurrent transfers and the send queue. -/
structure Config where
  maxConcurrent : ℕ
  remoteMaxConcurrent : ℕ
  sendQueue : SendQueueConfig := {}

/-- The session that launches transfers, with `sent`, the frames handed to its
    transport so far, and the receiver at the other end. -/
structure Session where
  nextTransfer : ℕ := 7000
  launching : List Attempt := []
  outgoing : List ℕ := []
  writer : SessionWriter Frame := {}
  sent : List Frame := []
  receiver : Receiver := {}

/-- The begin frame of a transfer. -/
def beginFrame (id requestID : ℕ) (payload : Bytes) : Frame where
  header :=
    { frameType := .transferBegin, flags := flagFirst, priority := .low, channelID := .bulk,
      schemaID := schemaTransferBegin, requestID, transferID := id }
  payload

/-- The next id: the counter is an unsigned 64-bit integer. -/
def nextID (n : ℕ) : ℕ := (n + 1) % 2 ^ 64

/-- One step of one goroutine. A launch may give up at any stage: its registration, one of the
    checks or its enqueueing fails. Any goroutine may send other frames, and the queue may be
    closing, closed, or fail to write. Without a send queue frames go to the transport directly. -/
inductive Step (cfg : Config) : Session → Session → Prop
  | draw (s : Session) :
      Step cfg s { s with nextTransfer := nextID s.nextTransfer,
                          launching := s.launching ++ [⟨nextID s.nextTransfer, .drawn⟩] }
  | register (s : Session) (pre post : List Attempt) (id : ℕ) :
      s.launching = pre ++ ⟨id, .drawn⟩ :: post → id ∉ s.outgoing →
      s.outgoing.length < cfg.maxConcurrent →
      Step cfg s { s with launching := pre ++ ⟨id, .registered⟩ :: post,
                          outgoing := id :: s.outgoing }
  | check (s : Session) (pre post : List Attempt) (id : ℕ) :
      s.launching = pre ++ ⟨id, .registered⟩ :: post →
      Step cfg s { s with launching := pre ++ ⟨id, .checked⟩ :: post }
  | giveUp (s : Session) (pre post : List Attempt) (l : Attempt) :
      s.launching = pre ++ l :: post →
      Step cfg s { s with launching := pre ++ post }
  | enqueueBegin (s : Session) (pre post : List Attempt) (id requestID : ℕ) (payload : Bytes)
      (w : SessionWriter Frame) :
      s.launching = pre ++ ⟨id, .checked⟩ :: post → cfg.sendQueue.enabled = true →
      s.writer.enqueue cfg.sendQueue (beginFrame id requestID payload).sendItem = .queued w →
      Step cfg s { s with launching := pre ++ post, writer := w }
  | sendBegin (s : Session) (pre post : List Attempt) (id requestID : ℕ) (payload : Bytes) :
      s.launching = pre ++ ⟨id, .checked⟩ :: post → cfg.sendQueue.enabled = false →
      Step cfg s { s with launching := pre ++ post,
                          sent := s.sent ++ [beginFrame id requestID payload] }
  | unregister (s : Session) (id : ℕ) :
      Step cfg s { s with outgoing := s.outgoing.erase id }
  | enqueueOther (s : Session) (f : Frame) (w : SessionWriter Frame) :
      f.header.frameType ≠ .transferBegin → cfg.sendQueue.enabled = true →
      s.writer.enqueue cfg.sendQueue f.sendItem = .queued w →
      Step cfg s { s with writer := w }
  | sendOther (s : Session) (f : Frame) :
      f.header.frameType ≠ .transferBegin → cfg.sendQueue.enabled = false →
      Step cfg s { s with sent := s.sent ++ [f] }
  | pop (s : Session) (item : SendItem Frame) (w : SessionWriter Frame) :
      s.writer.inFlight = none → s.writer.popLocked = (some item, w) →
      Step cfg s { s with writer := { w with inFlight := some item } }
  | write (s : Session) (item : SendItem Frame) : s.writer.inFlight = some item →
      Step cfg s { s with writer := { s.writer with inFlight := none },
                          sent := s.sent ++ [item.data] }
  | writeFails (s : Session) (item : SendItem Frame) (e : Err) (handed : Bool) :
      s.writer.inFlight = some item →
      Step cfg s { s with writer := s.writer.writeFailed e,
                          sent := s.sent ++ if handed then [item.data] else [] }
  | beginClosing (s : Session) : Step cfg s { s with writer := s.writer.beginClosing }
  | close (s : Session) : Step cfg s { s with writer := s.writer.close }
  | receive (s : Session) (f : Frame) :
      s.receiver.rejected = none → s.sent[s.receiver.handled]? = some f →
      Step cfg s { s with receiver := s.receiver.handle cfg.remoteMaxConcurrent f }
  | opened (s : Session) (id : ℕ) : id ∈ s.receiver.opening →
      Step cfg s { s with receiver := { s.receiver with
                            opening := s.receiver.opening.erase id
                            incoming := id :: s.receiver.incoming } }
  | openFails (s : Session) (id : ℕ) :
      Step cfg s { s with receiver := { s.receiver with
                            opening := s.receiver.opening.erase id } }
  | finish (s : Session) (id : ℕ) :
      Step cfg s { s with receiver := { s.receiver with
                            incoming := s.receiver.incoming.erase id } }

/-- The ids of the begins among some frames, in their order. -/
def begins (fs : List Frame) : List ℕ := fs.filterMap beginID

/-- The begins have been handed to the transport with increasing ids, and none
    was rejected for its id. -/
def Ordered (s : Session) : Prop :=
  (begins s.sent).Pairwise (· < ·) ∧ ∀ id last, s.receiver.rejected ≠ some (.notIncreasing id last)

/-- At most `w` launches are between their draw and their begin, and the counter does not wrap. -/
def Overlap (w : ℕ) (s s' : Session) : Prop :=
  s'.launching.length ≤ w ∧ s.nextTransfer ≤ s'.nextTransfer

/-! ## The pipeline -/

@[simp] theorem begins_append (fs gs : List Frame) : begins (fs ++ gs) = begins fs ++ begins gs :=
  filterMap_append

@[simp] theorem begins_nil : begins [] = [] := rfl

theorem beginID_other {f : Frame} (h : f.header.frameType ≠ .transferBegin) : beginID f = none :=
  if_neg h

@[simp] theorem begins_singleton (f : Frame) : begins [f] = (beginID f).toList := by
  cases h : beginID f <;> simp [begins, h]

@[simp] theorem beginID_beginFrame (id requestID : ℕ) (payload : Bytes) :
    beginID (beginFrame id requestID payload) = some id := rfl

/-- The ids that are on their way: those of the begins handed to the transport,
    those inside the writer, and those of the launches. -/
def pipeline (s : Session) : List ℕ :=
  begins s.sent ++ outflow beginID .low s.writer ++ s.launching.map (·.id)

/-- Begins are only queued with low priority, and nothing is queued without a send queue. -/
structure Tidy (cfg : Config) (w : SessionWriter Frame) : Prop where
  low : OnlyIn beginID .low w
  direct : cfg.sendQueue.enabled = false → w.inFlight = none ∧ ∀ p, w.queue p = []

variable {cfg : Config} {w w' : SessionWriter Frame} {f : Frame} {item : SendItem Frame}

theorem tidy_init : Tidy cfg {} := ⟨fun _ _ => rfl, fun _ => ⟨rfl, fun _ => rfl⟩⟩

theorem tidy_push (h : Tidy cfg w) (he : cfg.sendQueue.enabled = true)
    (hf : beginID f = none ∨ f.header.priority = .low) : Tidy cfg (w.push f.sendItem) :=
  ⟨onlyIn_push h.low hf, fun hd => absurd (hd.symm.trans he) Bool.false_ne_true⟩

theorem tidy_drop (h : Tidy cfg w) (hf : w'.inFlight = w.inFlight) (hq : ∀ p, w'.queue p = []) :
    Tidy cfg w' :=
  ⟨(outflow_drop hf hq).1, fun hd => ⟨hf.trans (h.direct hd).1, hq⟩⟩

theorem tidy_pop (h : Tidy cfg w) (hf : w.inFlight = none) (hp : w.popLocked = (some item, w')) :
    Tidy cfg { w' with inFlight := some item } := by
  refine ⟨(outflow_pop h.low hf hp).1, fun hd => ?_⟩
  obtain ⟨p, rest, hq, -⟩ := SessionWriter.popLocked_eq_some hp
  rw [(h.direct hd).2 p] at hq
  cases hq

/-! ## The invariant -/

/-- The ids on their way are increasing, up to the counter, and only one launch is between its draw
    and its begin. What the receiver last accepted was among the frames it has handled. -/
structure Inv (cfg : Config) (s : Session) : Prop where
  tidy : Tidy cfg s.writer
  sorted : (pipeline s).Pairwise (· < ·)
  bound : ∀ id ∈ pipeline s, 0 < id ∧ id ≤ s.nextTransfer
  single : s.launching.length ≤ 1
  last : s.receiver.lastIncoming = 0 ∨
    s.receiver.lastIncoming ∈ begins (s.sent.take s.receiver.handled)
  accepted : ∀ id last, s.receiver.rejected ≠ some (.notIncreasing id last)

theorem inv_init : Inv cfg {} := by
  constructor
  · exact tidy_init
  all_goals simp [pipeline, outflow, begins]

variable {s s' : Session}

theorem lt_nextID {n : ℕ} (h : n ≤ nextID n) : n < nextID n := by
  unfold nextID at *
  omega

/-- What one step does to the ids on their way: some of them may be lost, or the
    next one is added at the end. -/
theorem pipeline_step (hi : Inv cfg s) (h : Step cfg s s') (ho : Overlap 1 s s') :
    Tidy cfg s'.writer ∧
      ((pipeline s').Sublist (pipeline s) ∧ s'.nextTransfer = s.nextTransfer ∨
        pipeline s' = pipeline s ++ [s'.nextTransfer] ∧ s.nextTransfer < s'.nextTransfer) := by
  obtain ⟨ht, -, -, hone, -, -⟩ := hi
  -- With one launch at a time, the launch that leaves was the only one.
  have alone : ∀ {pre post : List Attempt} {l : Attempt}, s.launching = pre ++ l :: post →
      pre = [] ∧ post = [] ∧ s.launching = [l] := by
    intro pre post l hl
    rw [hl] at hone
    simp only [length_append, length_cons] at hone
    have hpre : pre = [] := eq_nil_of_length_eq_zero (by omega)
    have hpost : post = [] := eq_nil_of_length_eq_zero (by omega)
    exact ⟨hpre, hpost, by rw [hl, hpre, hpost]; rfl⟩
  cases h with
  | draw =>
    refine ⟨ht, .inr ⟨?_, lt_nextID ho.2⟩⟩
    simp [pipeline]
  | register pre post id hl =>
    refine ⟨ht, .inl ⟨?_, rfl⟩⟩
    simp [pipeline, hl]
  | check pre post id hl =>
    refine ⟨ht, .inl ⟨?_, rfl⟩⟩
    simp [pipeline, hl]
  | giveUp pre post l hl =>
    refine ⟨ht, .inl ⟨?_, rfl⟩⟩
    obtain ⟨rfl, rfl, hl⟩ := alone hl
    simp [pipeline]
  | enqueueBegin pre post id requestID payload w hl he hw =>
    rw [enqueue_eq_queued hw]
    refine ⟨tidy_push ht he (.inr rfl), .inl ⟨?_, rfl⟩⟩
    obtain ⟨rfl, rfl, hl⟩ := alone hl
    have hout : outflow beginID .low (s.writer.push (beginFrame id requestID payload).sendItem) =
        outflow beginID .low s.writer ++ [id] := outflow_push (.inr rfl)
    simp [pipeline, hout, hl]
  | sendBegin pre post id requestID payload hl he =>
    refine ⟨ht, .inl ⟨?_, rfl⟩⟩
    obtain ⟨rfl, rfl, hl⟩ := alone hl
    have hout : outflow beginID .low s.writer = [] := by
      simp [outflow, (ht.direct he).1, (ht.direct he).2]
    simp [pipeline, hl, hout]
  | enqueueOther f w hf he hw =>
    rw [enqueue_eq_queued hw]
    have hsel : beginID f.sendItem.data = none := beginID_other hf
    refine ⟨tidy_push ht he (.inl hsel), .inl ⟨?_, rfl⟩⟩
    simp [pipeline, outflow_push (.inl hsel), hsel]
  | sendOther f hf he =>
    refine ⟨ht, .inl ⟨?_, rfl⟩⟩
    simp [pipeline, beginID_other hf]
  | pop item w hf hp =>
    refine ⟨tidy_pop ht hf hp, .inl ⟨?_, rfl⟩⟩
    simp [pipeline, (outflow_pop ht.low hf hp).2]
  | write item hf =>
    refine ⟨⟨ht.low, fun hd => ⟨rfl, (ht.direct hd).2⟩⟩, .inl ⟨?_, rfl⟩⟩
    simp [pipeline, outflow_write hf]
  | writeFails item e handed hf =>
    refine ⟨⟨fun _ _ => rfl, fun _ => ⟨rfl, fun _ => rfl⟩⟩, .inl ⟨?_, rfl⟩⟩
    have hout : outflow beginID .low (s.writer.writeFailed e) = [] := rfl
    simp only [pipeline, hout, begins_append, outflow_write hf, append_assoc]
    cases handed <;> simp
  | beginClosing =>
    have hf : s.writer.beginClosing.inFlight = s.writer.inFlight := rfl
    refine ⟨tidy_drop ht hf fun _ => rfl, .inl ⟨?_, rfl⟩⟩
    exact ((List.Sublist.refl _).append (outflow_drop hf fun _ => rfl).2).append
      (List.Sublist.refl _)
  | close =>
    rcases s.writer.close_cases with hc | ⟨hf, hq⟩
    · rw [hc]
      exact ⟨ht, .inl ⟨List.Sublist.refl _, rfl⟩⟩
    · refine ⟨tidy_drop ht hf hq, .inl ⟨?_, rfl⟩⟩
      exact ((List.Sublist.refl _).append (outflow_drop hf hq).2).append (List.Sublist.refl _)
  | unregister | receive | opened | openFails | finish =>
    exact ⟨ht, .inl ⟨List.Sublist.refl _, rfl⟩⟩

/-- A begin the receiver gets to see is above the last one it accepted. -/
theorem last_lt (hi : Inv cfg s) {id : ℕ} (hf : s.sent[s.receiver.handled]? = some f)
    (hid : beginID f = some id) : s.receiver.lastIncoming < id := by
  obtain ⟨hlt, hget⟩ := List.getElem?_eq_some_iff.mp hf
  have hsplit : s.sent =
      s.sent.take s.receiver.handled ++ f :: s.sent.drop (s.receiver.handled + 1) := by
    rw [← hget, ← drop_eq_getElem_cons hlt, take_append_drop]
  have hmem : id ∈ begins (f :: s.sent.drop (s.receiver.handled + 1)) := by
    simp [begins, hid]
  rcases hi.last with h0 | hlast
  · rw [h0]
    refine (hi.bound id ?_).1
    rw [pipeline, hsplit, begins_append]
    simp only [mem_append]
    exact .inl (.inl (.inr hmem))
  · have hsent : (begins s.sent).Pairwise (· < ·) :=
      ((pairwise_append.mp hi.sorted).1 |> pairwise_append.mp).1
    rw [hsplit, begins_append] at hsent
    exact (pairwise_append.mp hsent).2.2 _ hlast _ hmem

/-- Frames handed to the transport do not change what the receiver has handled. -/
theorem last_append {n last : ℕ} {fs gs : List Frame}
    (h : last = 0 ∨ last ∈ begins (fs.take n)) : last = 0 ∨ last ∈ begins ((fs ++ gs).take n) := by
  refine h.imp_right fun hm => ?_
  rw [take_append, begins_append]
  exact mem_append_left _ hm

/-- Handling a begin that is above the last one. -/
theorem receive_inv (hi : Inv cfg s) (hf : s.sent[s.receiver.handled]? = some f) {n : ℕ} :
    let r := s.receiver.handle n f
    (r.lastIncoming = 0 ∨ r.lastIncoming ∈ begins (s.sent.take r.handled)) ∧
      ∀ id last, r.rejected ≠ some (.notIncreasing id last) := by
  obtain ⟨hlt, hget⟩ := List.getElem?_eq_some_iff.mp hf
  have htake : s.sent.take (s.receiver.handled + 1) = s.sent.take s.receiver.handled ++ [f] := by
    rw [take_add_one, hf]; rfl
  have hkeep : s.receiver.lastIncoming = 0 ∨
      s.receiver.lastIncoming ∈ begins (s.sent.take (s.receiver.handled + 1)) := by
    rw [htake, begins_append]
    exact hi.last.imp_right (mem_append_left _)
  intro r
  unfold r Receiver.handle
  split
  · exact ⟨hkeep, hi.accepted⟩
  · rename_i id hid
    have hlast := last_lt hi hf hid
    unfold admitBegin
    rw [if_neg (not_le.mpr hlast)]
    split_ifs
    · exact ⟨hkeep, by simp⟩
    · exact ⟨hkeep, by simp⟩
    · exact ⟨hkeep, by simp⟩
    · refine ⟨.inr ?_, hi.accepted⟩
      simp [htake, begins, hid]

theorem inv_step (hi : Inv cfg s) (h : Step cfg s s') (ho : Overlap 1 s s') : Inv cfg s' := by
  obtain ⟨ht, hpipe⟩ := pipeline_step hi h ho
  have hsorted : (pipeline s').Pairwise (· < ·) ∧
      ∀ id ∈ pipeline s', 0 < id ∧ id ≤ s'.nextTransfer := by
    rcases hpipe with ⟨hsub, hn⟩ | ⟨heq, hn⟩
    · exact ⟨hi.sorted.sublist hsub, fun id hid => hn ▸ hi.bound id (hsub.subset hid)⟩
    · -- The id drawn is above the counter, and so above all ids on their way.
      rw [heq]
      refine ⟨pairwise_append.mpr ⟨hi.sorted, pairwise_singleton _ _, ?_⟩, ?_⟩
      · intro a ha b hb
        rw [mem_singleton.mp hb]
        exact (hi.bound a ha).2.trans_lt hn
      · refine forall_mem_append.mpr ⟨fun id hid => ?_, forall_mem_singleton.mpr ?_⟩
        · exact ⟨(hi.bound id hid).1, ((hi.bound id hid).2.trans_lt hn).le⟩
        · exact ⟨by omega, le_refl _⟩
  have hreceiver : (s'.receiver.lastIncoming = 0 ∨
      s'.receiver.lastIncoming ∈ begins (s'.sent.take s'.receiver.handled)) ∧
      ∀ id last, s'.receiver.rejected ≠ some (.notIncreasing id last) := by
    cases h with
    | receive f _ hf => exact receive_inv hi hf
    | sendBegin | sendOther | write | writeFails => exact ⟨last_append hi.last, hi.accepted⟩
    | _ => exact ⟨hi.last, hi.accepted⟩
  exact ⟨ht, hsorted.1, hsorted.2, ho.1, hreceiver.1, hreceiver.2⟩

/-! ## The order of the begins -/

/-- With at most one launch between its draw and its begin, the begins are ordered. -/
theorem ordered_of_single {w : ℕ} (hw : w ≤ 1)
    (h : ReflTransGen (Run.Guarded (Step cfg) (Overlap w)) {} s) : Ordered s := by
  have hi : Inv cfg s := by
    refine Run.invariant (Inv cfg) inv_init (fun a b ha hab => inv_step ha hab.1 ?_) h
    exact ⟨hab.2.1.trans hw, hab.2.2⟩
  exact ⟨((pairwise_append.mp hi.sorted).1 |> pairwise_append.mp).1, hi.accepted⟩

/-- The default limits of both ends. -/
def defaultConfig : Config := { maxConcurrent := 8, remoteMaxConcurrent := 8 }

/-- Two launches that draw their ids one after the other and enqueue their begins
    the other way round: the begin of the first reaches the receiver second. -/
theorem inverted_run {w : ℕ} (hw : 2 ≤ w) :
    ∃ s, ReflTransGen (Run.Guarded (Step defaultConfig) (Overlap w)) {} s ∧
      begins s.sent = [7002, 7001] ∧
      s.receiver.rejected = some (.notIncreasing 7001 7002) := by
  have h0 : 0 ≤ w := by omega
  have h1 : 1 ≤ w := by omega
  have le : ∀ {n : ℕ}, n ≤ n := le_refl _
  refine ⟨_, .head ⟨.draw _, h1, by decide⟩ <| .head ⟨.draw _, hw, by decide⟩ <|
    .head ⟨.register _ [] [⟨7002, .drawn⟩] 7001 rfl (by decide) (by decide), hw, le⟩ <|
    .head ⟨.register _ [⟨7001, .registered⟩] [] 7002 rfl (by decide) (by decide), hw, le⟩ <|
    .head ⟨.check _ [] [⟨7002, .registered⟩] 7001 rfl, hw, le⟩ <|
    .head ⟨.check _ [⟨7001, .checked⟩] [] 7002 rfl, hw, le⟩ <|
    .head ⟨.enqueueBegin _ [⟨7001, .checked⟩] [] 7002 0 [] _ rfl rfl rfl, h1, le⟩ <|
    .head ⟨.enqueueBegin _ [] [] 7001 0 [] _ rfl rfl rfl, h0, le⟩ <|
    .head ⟨.pop _ _ _ rfl rfl, h0, le⟩ <| .head ⟨.write _ _ rfl, h0, le⟩ <|
    .head ⟨.pop _ _ _ rfl rfl, h0, le⟩ <| .head ⟨.write _ _ rfl, h0, le⟩ <|
    .head ⟨.receive _ _ rfl rfl, h0, le⟩ <| .single ⟨.receive _ _ rfl rfl, h0, le⟩, rfl, rfl⟩

/-- The begins are handed to the transport in the order of their ids, and none is
    rejected for its id, in every run with at most `w` launches between their
    draw and their begin, if and only if `w` is at most one. -/
theorem begins_increasing_iff (w : ℕ) :
    (∀ cfg s, ReflTransGen (Run.Guarded (Step cfg) (Overlap w)) {} s → Ordered s) ↔ w ≤ 1 := by
  constructor
  · intro h
    by_contra hw
    obtain ⟨s, hs, hb, -⟩ := inverted_run (w := w) (by omega)
    have := (h _ s hs).1
    rw [hb] at this
    exact absurd this (by decide)
  · exact fun hw _ _ hs => ordered_of_single hw hs

/-- Two concurrent launches send their begins in the wrong order, and the
    receiver rejects one of them. -/
theorem begins_out_of_order :
    ¬∀ s, ReflTransGen (Step defaultConfig) {} s →
      (begins s.sent).Pairwise (· < ·) ∧
        ∀ id last, s.receiver.rejected ≠ some (.notIncreasing id last) := by
  intro h
  obtain ⟨s, hs, hb, -⟩ := inverted_run (w := 2) (le_refl _)
  have := (h s (Run.of_guarded hs)).1
  rw [hb] at this
  exact absurd this (by decide)

end Etp.Launch
