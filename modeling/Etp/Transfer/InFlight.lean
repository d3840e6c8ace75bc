import Mathlib.Data.List.Induction
import Etp.Transfer.Upload

/-!
# What a sender has in flight

The chunks of an outgoing transfer that are pending, against a peer that sends what
it likes. `sendReliableChunk` admits a chunk under the lock, when the limits of the
transfer and the window of the peer leave room for it, and hands its frame to the
writer after the lock is released; the answers of the peer and the monitor change
the record in between.

A run is kept with a log of what has happened in it (`Logged`): which chunks were
admitted, which frames were handed to the writer, and which windows were received.
What a step can do to the record is said once (`Effect`); from it follow

* the invariant of the record (`InFlight`): the pending chunks are increasing, their
  bytes are those that are counted, and both are within the limits;
* the balance of the window (`Balance`): what is left of the last window and the
  chunks admitted since are the window;
* the order of the frames (`Ordered`): they follow the admissions, at most one behind.

So the chunks admitted between two windows are within the first of them
(`window_respected`). Their frames are not: the frame of a chunk that was admitted
before the window may be handed to the writer after it (`frame_behind_window`).
-/

namespace Etp.Transfer

open Relation List OutgoingTransfer SentChunk

/-! ## The record -/

namespace OutgoingTransfer

/-- `ot'` has the pending chunks, the counters and the limits of `ot`; it may differ in their
    retries and in how the transfer stands. -/
structure Alike (ot ot' : OutgoingTransfer) : Prop extends SameChunks ot ot' where
  maxInFlight : ot'.maxInFlight = ot.maxInFlight
  maxInFlightBytes : ot'.maxInFlightBytes = ot.maxInFlightBytes
  hasRemoteWindow : ot'.hasRemoteWindow = ot.hasRemoteWindow
  remoteWindowBytes : ot'.remoteWindowBytes = ot.remoteWindowBytes
  remoteWindowChunks : ot'.remoteWindowChunks = ot.remoteWindowChunks

variable {ot ot' : OutgoingTransfer}

theorem Alike.refl (ot : OutgoingTransfer) : ot.Alike ot := ⟨.refl ot, rfl, rfl, rfl, rfl, rfl⟩

theorem alike_fail (e : Err) : ot.Alike (ot.fail e) := { Alike.refl ot with }

/-- A refusal replaces the window, or leaves the record alike. -/
theorem alike_handleNack (n : Nack) (h : ¬ (n.chunkFrom ≤ n.chunkTo ∧ n.reason = .flowControl)) :
    ot.Alike (ot.handleNack n).1 := by
  have hsame := ot.sameChunks_handleNack n
  rcases ot.handleNack_cases n with ⟨hflow, -⟩ | ⟨pending, failed, heq, -⟩
  · exact absurd hflow h
  · rw [heq] at hsame ⊢
    exact ⟨hsame, rfl, rfl, rfl, rfl, rfl⟩

theorem handleNack_flowControl {n : Nack} (hrange : n.chunkFrom ≤ n.chunkTo)
    (hreason : n.reason = .flowControl) : (ot.handleNack n).1 = ot.handleWindow 0 0 := by
  rw [handleNack, if_neg (Nat.not_lt.mpr hrange), applyNack, hreason]
  rfl

theorem alike_handleState (s : TransferState) : ot.Alike (ot.handleState s).1 := by
  obtain ⟨completed, failed, heq⟩ := ot.handleState_cases s
  rw [heq]
  exact { Alike.refl ot with }

theorem alike_expire (commit : Bool) (late : ℕ → Bool) : ot.Alike (ot.expire commit late).1 := by
  have hsame := ot.sameChunks_expire commit late
  obtain ⟨pending, failed, retries, heq, -⟩ := ot.expire_cases commit late
  rw [heq] at hsame ⊢
  exact ⟨hsame, rfl, rfl, rfl, rfl, rfl⟩

theorem map_chunkID_chunk (l : List SentChunk) :
    (l.map chunk).map Chunk.chunkID = l.map chunkID := by
  rw [List.map_map]
  rfl

theorem bytes_chunk (l : List SentChunk) :
    ((l.map chunk).map fun c => c.payload.length).sum = bytes l := by
  rw [List.map_map]
  rfl

theorem Alike.chunkIDs (h : ot.Alike ot') :
    ot'.pending.map chunkID = ot.pending.map chunkID := by
  rw [← map_chunkID_chunk, ← map_chunkID_chunk, h.pending]

theorem Alike.bytes (h : ot.Alike ot') : bytes ot'.pending = bytes ot.pending := by
  rw [← bytes_chunk, ← bytes_chunk, h.pending]

theorem Alike.length (h : ot.Alike ot') : ot'.pending.length = ot.pending.length := by
  have := congrArg List.length h.pending
  rwa [length_map, length_map] at this

theorem bytes_append (l l' : List SentChunk) : bytes (l ++ l') = bytes l + bytes l' := by
  rw [bytes, map_append, sum_append]
  rfl

/-- Chunks that are taken from others and those that stay. -/
theorem bytes_filter (p : SentChunk → Bool) (l : List SentChunk) :
    bytes (l.filter p) + bytes (l.filter fun c => !p c) = bytes l := by
  induction l with
  | nil => rfl
  | cons c l ih =>
    have hcons : ∀ l, bytes (c :: l) = c.payload.length + bytes l := fun l => sum_cons
    cases hp : p c
    · rw [filter_cons_of_neg (by simp [hp]), filter_cons_of_pos (by simp [hp]), hcons,
        hcons]
      omega
    · rw [filter_cons_of_pos hp, filter_cons_of_neg (by simp [hp]), hcons, hcons]
      omega

/-- The chunks that an acknowledgement takes from the pending ones. -/
def taken (ot : OutgoingTransfer) (a : Ack) : List SentChunk :=
  ot.pending.filter fun c => !(ot.handleAck a).1.pending.contains c

/-- The pending chunks are increasing, counted, and within the limits. -/
structure InFlight (ot : OutgoingTransfer) : Prop where
  increasing : (ot.pending.map chunkID).Pairwise (· < ·)
  pendingBytes : ot.pendingBytes = bytes ot.pending
  length_le : ot.pending.length ≤ ot.maxInFlight
  bytes_le : ot.pendingBytes ≤ ot.maxInFlightBytes

theorem InFlight.alike (h : ot.InFlight) (ha : ot.Alike ot') : ot'.InFlight where
  increasing := by rw [ha.chunkIDs]; exact h.increasing
  pendingBytes := by rw [ha.pendingBytes, ha.bytes, h.pendingBytes]
  length_le := by rw [ha.length, ha.maxInFlight]; exact h.length_le
  bytes_le := by rw [ha.pendingBytes, ha.maxInFlightBytes]; exact h.bytes_le

/-- The room there is for a payload that `sendReliableChunk` does not wait for. -/
theorem room_of_blocked {n : ℕ} (h : ot.blocked n = false) : ot.pending.length < ot.maxInFlight ∧
    ot.pendingBytes + n ≤ ot.maxInFlightBytes ∧ (ot.hasRemoteWindow = true →
      n ≤ ot.remoteWindowBytes ∧ 1 ≤ ot.remoteWindowChunks) := by
  simp only [blocked, Bool.or_eq_false_iff, Bool.and_eq_false_imp, decide_eq_false_iff_not, not_le,
    not_lt, beq_eq_false_iff_ne] at h
  obtain ⟨⟨hlength, hbytes⟩, hwindow⟩ := h
  exact ⟨hlength, hbytes, fun hw =>
    ⟨(hwindow hw).1, Nat.one_le_iff_ne_zero.mpr (hwindow hw).2⟩⟩

theorem InFlight.push (h : ot.InFlight) {k : ℕ} {payload : Bytes}
    (hroom : ot.blocked payload.length = false) (hnew : ∀ c ∈ ot.pending, c.chunkID < k) :
    (ot.push k payload).InFlight := by
  obtain ⟨hlength, hbytes, -⟩ := room_of_blocked hroom
  have hsum : bytes [⟨k, payload, 0⟩] = payload.length := Nat.add_zero _
  refine ⟨?_, ?_, ?_, hbytes⟩
  · show (List.map chunkID (ot.pending ++ [⟨k, payload, 0⟩])).Pairwise (· < ·)
    rw [map_append, pairwise_append]
    refine ⟨h.increasing, pairwise_singleton _ _, fun i hi j hj => ?_⟩
    obtain ⟨c, hc, rfl⟩ := mem_map.mp hi
    rw [mem_singleton.mp hj]
    exact hnew c hc
  · show ot.pendingBytes + payload.length = bytes (ot.pending ++ [⟨k, payload, 0⟩])
    rw [bytes_append, hsum, h.pendingBytes]
  · show (ot.pending ++ [(⟨k, payload, 0⟩ : SentChunk)]).length ≤ ot.maxInFlight
    rw [length_append]
    exact hlength

theorem InFlight.handleAck (h : ot.InFlight) (a : Ack) : (ot.handleAck a).1.InFlight := by
  rcases ot.handleAck_cases a with heq | ⟨failed, heq⟩
  · rw [heq]
    exact h
  · have hsplit := bytes_filter (inRange a.chunkFrom a.chunkTo) ot.pending
    have hbytes := h.pendingBytes
    rw [heq]
    refine ⟨?_, ?_, ?_, ?_⟩
    · exact h.increasing.sublist (filter_sublist.map _)
    · show ot.pendingBytes - bytes (ot.pending.filter (inRange a.chunkFrom a.chunkTo)) =
        bytes (ot.pending.filter fun c => !inRange a.chunkFrom a.chunkTo c)
      omega
    · exact le_trans (length_filter_le _ _) h.length_le
    · exact le_trans (Nat.sub_le _ _) h.bytes_le

end OutgoingTransfer

/-! ## The log -/

/-- What happens in a run: a chunk is admitted, its frame is handed to the writer for the first time
    or again, the end is; the peer replaces the window, acknowledges chunks, which are taken from
    the pending ones, or accepts an offset to resume at. -/
inductive Event
  | admission (k : ℕ)
  | first (k : ℕ)
  | again (k : ℕ)
  | finish
  | window (windowBytes windowChunks : ℕ)
  | taken (chunks : List ℕ)
  | resume (receivedBytes : ℕ)
  deriving DecidableEq, Repr

variable {e : Event}

namespace Event

/-- The chunk that is admitted. -/
def admitted? : Event → Option ℕ
  | admission k => some k
  | _ => none

/-- The chunk whose frame is handed to the writer for the first time. -/
def first? : Event → Option ℕ
  | first k => some k
  | _ => none

/-- The chunks that are admitted, in order. -/
def admitted (l : List Event) : List ℕ := l.filterMap admitted?

/-- The chunks whose frames are handed to the writer for the first time, in order. -/
def firsts (l : List Event) : List ℕ := l.filterMap first?

/-- Whether an event is only about frames that are sent again, or about the end. -/
def repeated : Event → Bool
  | again _ | finish => true
  | _ => false

/-- Whether an event is about neither an admission nor a first frame nor a window. -/
def silent : Event → Bool
  | again _ | finish | taken _ | resume _ => true
  | admission _ | first _ | window _ _ => false

/-- The window and the chunks admitted since, after another event. -/
def note : Option ((ℕ × ℕ) × List ℕ) → Event → Option ((ℕ × ℕ) × List ℕ)
  | _, window windowBytes windowChunks => some ((windowBytes, windowChunks), [])
  | some (w, l), admission k => some (w, l ++ [k])
  | w, _ => w

/-- The last window of a log and the chunks admitted since. -/
def sinceWindow (l : List Event) : Option ((ℕ × ℕ) × List ℕ) := l.foldl note none

theorem admitted_append (l l' : List Event) : admitted (l ++ l') = admitted l ++ admitted l' :=
  filterMap_append

theorem firsts_append (l l' : List Event) : firsts (l ++ l') = firsts l ++ firsts l' :=
  filterMap_append

theorem sinceWindow_concat (l : List Event) (e : Event) :
    sinceWindow (l ++ [e]) = note (sinceWindow l) e := by
  rw [sinceWindow, foldl_append]
  rfl

theorem silent_of_repeated (he : e.repeated = true) : e.silent = true := by
  cases e <;> first | rfl | cases he

theorem note_silent (he : e.silent = true) (w : Option ((ℕ × ℕ) × List ℕ)) : note w e = w := by
  cases e with
  | again | finish | taken | resume => cases w <;> rfl
  | admission | first | window => cases he

theorem admitted_silent (he : e.silent = true) : admitted [e] = [] := by
  cases e with
  | again | finish | taken | resume => rfl
  | admission | first | window => cases he

theorem firsts_silent (he : e.silent = true) : firsts [e] = [] := by
  cases e with
  | again | finish | taken | resume => rfl
  | admission | first | window => cases he

/-- The events after a window of which no other follows. -/
theorem sinceWindow_split {l l' : List Event} {b c : ℕ} (h : ∀ b' c', window b' c' ∉ l') :
    sinceWindow (l ++ window b c :: l') = some ((b, c), admitted l') := by
  induction l' using List.reverseRecOn with
  | nil => exact sinceWindow_concat l (window b c)
  | append_singleton l' e ih =>
    have hprev := ih fun b' c' hmem => h b' c' (mem_append_left _ hmem)
    rw [← cons_append, ← append_assoc, sinceWindow_concat, hprev, admitted_append]
    cases e with
    | admission k => rfl
    | window b' c' => exact absurd (mem_append_right _ mem_cons_self) (h b' c')
    | first | again | finish | taken | resume =>
      exact congrArg some (Prod.ext rfl (append_nil _).symm)

end Event

/-- A sender with the log of its run. -/
structure Logged where
  up : Upload
  log : List Event := []

namespace Logged

open Upload Event

/-- What a step of the goroutines to the position `after` is in the log. -/
def ownEvents (before after : Body) : Sender.Label → List Event
  | .send (.data c) => if before = after then [.again c.chunkID] else [.first c.chunkID]
  | .send .finish => [.finish]
  | .internal =>
    match after with
    | .encoding k => if before = after then [] else [.admission k]
    | _ => []
  | _ => []

/-- What an answer of the peer is in the log. -/
def answerEvents (m : TransferBegin) (u : Upload) : Answer → List Event
  | .reply (.ack a) =>
    if u.snd.registered then [.taken ((u.snd.ot.taken a).map chunkID)] else []
  | .reply (.window windowBytes windowChunks) =>
    if u.snd.registered then [.window windowBytes windowChunks] else []
  | .reply (.nack n) =>
    if u.snd.registered = true ∧ n.chunkFrom ≤ n.chunkTo ∧ n.reason = .flowControl then
      [.window 0 0]
    else []
  | .resumeAccepted receivedBytes nextChunk =>
    if u.snd.registered = true ∧
        transferOffsetForChunk m.totalSize m.chunkSize nextChunk = some receivedBytes then
      [.resume receivedBytes]
    else []
  | _ => []

/-- A step of the sender, and what it is in the log. -/
inductive Step (m : TransferBegin) (D : Bytes) (s : Logged) : Logged → Prop
  | own (label : Sender.Label) (snd : Sender) : Sender.Step m D s.up.snd label snd →
      (∀ r, label ≠ .receive r) → (s.up.phase = .body ∨ snd.body = s.up.snd.body) →
      Step m D s ⟨{ s.up with snd := snd, sent := s.up.sent ++ sentBy label },
        s.log ++ ownEvents s.up.snd.body snd.body label⟩
  | answer (a : Answer) (u : Upload) : Upload.Step m D s.up (some a) u →
      Step m D s ⟨u, s.log ++ answerEvents m s.up a⟩
  -- of `sendResumedTransfer`
  | phase (u : Upload) : Upload.Step m D s.up none u → u.phase ≠ s.up.phase →
      Step m D s ⟨u, s.log⟩

variable {m : TransferBegin} {D : Bytes} {s s' : Logged}

/-- Every step of the sender can be logged. -/
theorem exists_step {answer : Option Answer} {u : Upload} (h : Upload.Step m D s.up answer u) :
    ∃ log, Step m D s ⟨u, log⟩ := by
  have hphases : u.phase ≠ s.up.phase → Upload.Step m D s.up none u →
      ∃ log, Step m D s ⟨u, log⟩ := fun hne hs => ⟨_, .phase u hs hne⟩
  cases h with
  | own label snd hs hl hp => exact ⟨_, .own label snd hs hl hp⟩
  | reply r snd hs => exact ⟨_, .answer _ _ (.reply r snd hs)⟩
  | resumeAccepted b c hr => exact ⟨_, .answer _ _ (.resumeAccepted b c hr)⟩
  | resumeRejected reason hr => exact ⟨_, .answer _ _ (.resumeRejected reason hr)⟩
  | invalid e hr => exact ⟨_, .answer _ _ (.invalid e hr)⟩
  | requested b c hp hsend hoffset =>
    exact hphases (by simp [hp]) (.requested b c hp hsend hoffset)
  | decided hp hd hf ha => exact hphases (by simp [hp]) (.decided hp hd hf ha)
  | opened b c hp => exact hphases (by simp [hp]) (.opened b c hp)
  | giveUp e hp => exact hphases (Ne.symm hp) (.giveUp e hp)

/-! ## What a step does -/

/-- The goroutine of the transfer goes on, without a chunk. -/
inductive Advances : Body → Body → Prop
  | stay (b : Body) : Advances b b
  | start (k : ℕ) : Advances .begin (.next k)
  | finish (k : ℕ) : Advances (.next k) .sendEnd
  | wait : Advances .sendEnd .waiting
  | stop (b : Body) (err : Option Err) : Advances b (.returned err)

/-- What a step can do to the record, the position of the goroutine and the log. -/
inductive Effect (m : TransferBegin) (D : Bytes) (ot : OutgoingTransfer) (b : Body) :
    List Event → OutgoingTransfer → Body → Prop
  | quiet (ot' : OutgoingTransfer) (b' : Body) : ot.Alike ot' → Advances b b' →
      Effect m D ot b [] ot' b'
  | repeated (e : Event) (b' : Body) : e.repeated = true → Advances b b' →
      Effect m D ot b [e] ot b'
  | admission (k : ℕ) : b = .next k → ot.blocked (m.chunk D k).length = false →
      Effect m D ot b [.admission k] (ot.push k (m.chunk D k)) (.encoding k)
  | first (k : ℕ) : b = .encoding k → Effect m D ot b [.first k] ot (.next (k + 1))
  | ack (a : Ack) :
      Effect m D ot b [.taken ((ot.taken a).map chunkID)] (ot.handleAck a).1 b
  | window (windowBytes windowChunks : ℕ) :
      Effect m D ot b [.window windowBytes windowChunks]
        (ot.handleWindow windowBytes windowChunks) b
  | resumed (receivedBytes : ℕ) :
      Effect m D ot b [.resume receivedBytes] { ot with ackedBytes := receivedBytes } b

/-- An internal step that admits no chunk is not in the log. -/
theorem ownEvents_advances {b b' : Body} (h : Advances b b') : ownEvents b b' .internal = [] := by
  cases h with
  | stay b => cases b <;> simp [ownEvents]
  | start | finish | wait | stop => rfl

theorem effect_own {label : Sender.Label} {snd snd' : Sender} (h : Sender.Step m D snd label snd')
    (hl : ∀ r, label ≠ .receive r) :
    Effect m D snd.ot snd.body (ownEvents snd.body snd'.body label) snd'.ot snd'.body := by
  -- a step in which the goroutine of the transfer only goes on
  have hquiet : ∀ {ot : OutgoingTransfer} {b : Body}, snd.ot.Alike ot → Advances snd.body b →
      Effect m D snd.ot snd.body (ownEvents snd.body b .internal) ot b := by
    intro ot b halike hadv
    rw [ownEvents_advances hadv]
    exact .quiet ot b halike hadv
  -- a frame that is sent again
  have hagain : ∀ f : Request, f = .finish ∨ (∃ c, f = .data c) →
      Effect m D snd.ot snd.body (ownEvents snd.body snd.body (.send f)) snd.ot snd.body := by
    rintro f (rfl | ⟨c, rfl⟩)
    · exact .repeated _ _ rfl (.stay _)
    · simp only [ownEvents, if_true]
      exact .repeated _ _ rfl (.stay _)
  cases h with
  | begin hb _ =>
    rw [hb]
    exact .quiet _ _ (.refl _) (.start 0)
  | push k hb _ _ hroom =>
    rw [hb]
    exact .admission k rfl hroom
  | encode k payload hb _ _ =>
    rw [hb]
    exact .first k rfl
  | finish k hb _ =>
    rw [hb]
    exact .quiet _ _ { Alike.refl snd.ot with } (.finish k)
  | sendEnd hb =>
    rw [hb]
    exact .repeated _ _ rfl .wait
  | acked _ _ => exact hquiet (.refl _) (.stop _ _)
  | giveUp e _ => exact hquiet (.refl _) (.stop _ _)
  | reply r _ => exact absurd rfl (hl r)
  | tick commit late _ _ => exact hquiet (alike_expire commit late) (.stay _)
  | unregister | resent | skip => exact hquiet (.refl _) (.stay _)
  | fail e => exact hquiet (alike_fail e) (.stay _)
  | resend c rest _ => exact hagain _ (.inr ⟨c, rfl⟩)
  | task t rest _ _ =>
    refine hagain _ ?_
    cases t with
    | commit => exact .inl rfl
    | chunk c => exact .inr ⟨c, rfl⟩

theorem effect_reply (u : Upload) (r : Reply) :
    Effect m D u.snd.ot u.snd.body (answerEvents m u (.reply r)) (u.snd.handleReply r).ot
      u.snd.body := by
  by_cases hreg : u.snd.registered = true
  · cases r with
    | ack a =>
      rw [Sender.handleReply_ack hreg, answerEvents, if_pos hreg]
      exact .ack a
    | nack n =>
      rw [Sender.handleReply_nack hreg, answerEvents]
      by_cases hflow : n.chunkFrom ≤ n.chunkTo ∧ n.reason = .flowControl
      · rw [if_pos ⟨hreg, hflow⟩, handleNack_flowControl hflow.1 hflow.2]
        exact .window 0 0
      · rw [if_neg fun h => hflow h.2]
        exact .quiet _ _ (alike_handleNack n hflow) (.stay _)
    | window b c =>
      rw [Sender.handleReply_window hreg, answerEvents, if_pos hreg]
      exact .window b c
    | state t =>
      rw [Sender.handleReply_state hreg]
      exact .quiet _ _ (alike_handleState t) (.stay _)
  · have hevents : answerEvents m u (.reply r) = [] := by
      cases r <;> simp [answerEvents, hreg]
    rw [Sender.handleReply_unregistered hreg, hevents]
    exact .quiet _ _ (.refl _) (.stay _)

theorem effect_answer {a : Answer} {u u' : Upload} (h : Upload.Step m D u (some a) u') :
    Effect m D u.snd.ot u.snd.body (answerEvents m u a) u'.snd.ot u'.snd.body := by
  cases h with
  | reply r snd hs =>
    cases hs with
    | reply r _ =>
      rw [Sender.body_handleReply]
      exact effect_reply u r
  | resumeAccepted b c _ =>
    rw [answerEvents]
    by_cases hreg : u.snd.registered = true
    · by_cases hoffset : transferOffsetForChunk m.totalSize m.chunkSize c = some b
      · rw [if_pos ⟨hreg, hoffset⟩]
        simp only [handleResumeAccepted, hreg, hoffset, Bool.not_true, Bool.false_eq_true, if_false,
          ne_eq, not_true_eq_false]
        exact .resumed b
      · rw [if_neg fun h => hoffset h.2]
        simp only [handleResumeAccepted, hreg, Bool.not_true, Bool.false_eq_true, if_false, ne_eq,
          hoffset, not_false_eq_true, if_true]
        exact .quiet _ _ (alike_fail _) (.stay _)
    · rw [if_neg fun h => hreg h.1, handleResumeAccepted, if_pos (by simpa using hreg)]
      exact .quiet _ _ (.refl _) (.stay _)
  | resumeRejected reason _ =>
    rw [handleResumeRejected]
    split_ifs
    · exact .quiet _ _ (.refl _) (.stay _)
    · exact .quiet _ _ (alike_fail _) (.stay _)
  | invalid e _ => exact .quiet _ _ (.refl _) (.stay _)

/-- What a step does, of a sender that has not started before its request to resume is decided. -/
theorem effect_of_step (h : Step m D s s') (hidle : s.up.phase ≠ .body → s.up.snd.body = .begin) :
    ∃ l, s'.log = s.log ++ l ∧
      Effect m D s.up.snd.ot s.up.snd.body l s'.up.snd.ot s'.up.snd.body := by
  cases h with
  | own label snd hs hl hp => exact ⟨_, rfl, effect_own hs hl⟩
  | answer a u hs => exact ⟨_, rfl, effect_answer hs⟩
  | phase u hs hne =>
    refine ⟨[], (append_nil _).symm, ?_⟩
    cases hs with
    | own label snd hs hl hp => exact absurd rfl hne
    | requested | decided => exact .quiet _ _ (.refl _) (.stay _)
    | opened b c hp =>
      rw [hidle (by simp [hp])]
      exact .quiet _ _ (.refl _) (.start c)
    | giveUp e _ => exact .quiet _ _ (.refl _) (.stop _ _)

/-- Before the decision the sender stays where it is. -/
theorem idle_step (h : Step m D s s') (hidle : s.up.phase ≠ .body → s.up.snd.body = .begin) :
    s'.up.phase ≠ .body → s'.up.snd.body = .begin := by
  cases h with
  | own label snd hs hl hp =>
    intro hne
    exact (hp.resolve_left hne).trans (hidle hne)
  | answer a u hs =>
    cases hs with
    | reply r snd hs =>
      cases hs with
      | reply r _ =>
        rw [Sender.body_handleReply]
        exact hidle
    | resumeAccepted b c _ =>
      simp only [handleResumeAccepted]
      split_ifs <;> exact hidle
    | resumeRejected reason _ =>
      rw [handleResumeRejected]
      split_ifs <;> exact hidle
    | invalid e _ => exact hidle
  | phase u hs hne =>
    cases hs with
    | own label snd hs hl hp => exact absurd rfl hne
    | requested b c hp _ _ => exact fun _ => hidle (by simp [hp])
    | decided hp _ _ _ => exact fun _ => hidle (by simp [hp])
    | opened | giveUp => exact fun hbody => absurd rfl hbody

/-! ## The window -/

/-- The chunk that is admitted next. -/
def upcoming : Body → Option ℕ
  | .begin => some 0
  | .next k => some k
  | .encoding k => some (k + 1)
  | .sendEnd | .waiting | .returned _ => none

/-- The pending chunks are before the one that is admitted next. -/
def Behind (m : TransferBegin) (ot : OutgoingTransfer) (b : Body) : Prop :=
  ∀ k, upcoming b = some k →
    (∀ c ∈ ot.pending, c.chunkID < k) ∧ bytes ot.pending ≤ m.offset k

/-- The payloads of the pending chunks are those of the byte string. -/
def Genuine (m : TransferBegin) (D : Bytes) (ot : OutgoingTransfer) : Prop :=
  ∀ c ∈ ot.pending, c.payload = m.chunk D c.chunkID

/-- What is left of the last window and the chunks admitted since are the window. -/
def Balance (m : TransferBegin) (D : Bytes) (ot : OutgoingTransfer) (log : List Event) : Prop :=
  ∀ w l, sinceWindow log = some (w, l) → ot.hasRemoteWindow = true ∧
    ot.remoteWindowBytes + (l.map fun k => (m.chunk D k).length).sum = w.1 ∧
    ot.remoteWindowChunks + l.length = w.2

/-- The first frames follow the admissions, at most one behind. -/
def Trails (l : List Event) : Prop := ∃ late : List ℕ, late.length ≤ 1 ∧
  admitted l = firsts l ++ late

/-- The frame that is behind is that of the chunk that is being encoded. -/
def Held (admitted firsts : List ℕ) : Body → Prop
  | .encoding k => admitted = firsts ++ [k]
  | .returned _ => True
  | .begin | .next _ | .sendEnd | .waiting => admitted = firsts

/-- The order of the first frames, at any time of a run. -/
structure Ordered (log : List Event) (b : Body) : Prop where
  trails : ∀ l, l <+: log → Trails l
  held : Held (admitted log) (firsts log) b

variable {ot ot' : OutgoingTransfer} {b b' : Body} {l log : List Event}

theorem Effect.inFlight (h : Effect m D ot b l ot' b') (hi : ot.InFlight) (hb : Behind m ot b) :
    ot'.InFlight := by
  cases h with
  | quiet _ _ halike _ => exact hi.alike halike
  | repeated | first => exact hi
  | admission k hk hroom =>
    rw [hk] at hb
    exact hi.push hroom (hb k rfl).1
  | ack a => exact hi.handleAck a
  | window | resumed => exact { hi with }

theorem Effect.genuine (h : Effect m D ot b l ot' b') (hg : Genuine m D ot) :
    Genuine m D ot' := by
  cases h with
  | quiet _ _ halike _ =>
    intro c hc
    have hmem : c.chunk ∈ ot'.pending.map chunk := mem_map_of_mem hc
    rw [halike.pending] at hmem
    obtain ⟨c₀, hc₀, heq⟩ := mem_map.mp hmem
    have hid : c₀.chunkID = c.chunkID := congrArg Chunk.chunkID heq
    have hpayload : c₀.payload = c.payload := congrArg Chunk.payload heq
    rw [← hpayload, ← hid]
    exact hg c₀ hc₀
  | admission k _ _ =>
    exact forall_mem_append.mpr ⟨hg, forall_mem_singleton.mpr rfl⟩
  | ack a => exact fun c hc => hg c ((ot.handleAck_spec a).2.1 c hc)
  | repeated | first | window | resumed => exact hg

theorem Behind.advances (hb : Behind m ot b) (h : Advances b b') : Behind m ot b' := by
  cases h with
  | stay => exact hb
  | start k =>
    -- nothing is pending before the first chunk
    intro j hj
    obtain ⟨hbelow, hbytes⟩ := hb 0 rfl
    exact ⟨fun c hc => absurd (hbelow c hc) (Nat.not_lt_zero _),
      hbytes.trans (m.offset_mono j.zero_le)⟩
  | finish | wait | stop => nofun

theorem Behind.mono (hb : Behind m ot b) (hmem : ∀ i, (∃ c ∈ ot'.pending, c.chunkID = i) →
    ∃ c ∈ ot.pending, c.chunkID = i)
    (hbytes : bytes ot'.pending ≤ bytes ot.pending) :
    Behind m ot' b := by
  intro k hk
  obtain ⟨hbelow, hle⟩ := hb k hk
  refine ⟨fun c hc => ?_, hbytes.trans hle⟩
  obtain ⟨c', hc', hid⟩ := hmem _ ⟨c, hc, rfl⟩
  exact hid ▸ hbelow c' hc'

theorem Effect.behind (h : Effect m D ot b l ot' b') (htotal : m.totalSize = D.length)
    (hb : Behind m ot b) : Behind m ot' b' := by
  cases h with
  | quiet _ _ halike hadv =>
    refine Behind.mono (hb.advances hadv) (fun i hi => ?_) halike.bytes.le
    have hmem : i ∈ ot'.pending.map chunkID := mem_map.mpr hi
    rw [halike.chunkIDs] at hmem
    exact mem_map.mp hmem
  | repeated _ _ _ hadv => exact hb.advances hadv
  | admission k hk _ =>
    rw [hk] at hb
    intro j hj
    obtain ⟨hbelow, hbytes⟩ := hb k rfl
    obtain rfl : k + 1 = j := Option.some.inj hj
    constructor
    · exact forall_mem_append.mpr ⟨fun c hc => (hbelow c hc).trans (Nat.lt_succ_self k),
        forall_mem_singleton.mpr (Nat.lt_succ_self k)⟩
    · have hsucc : m.offset (k + 1) = m.offset k + (m.chunk D k).length := by
        rw [TransferBegin.offset, TransferBegin.offset, htotal]
        exact Piece.offset_succ
      show bytes (ot.pending ++ [⟨k, m.chunk D k, 0⟩]) ≤ m.offset (k + 1)
      have hsum : bytes [⟨k, m.chunk D k, 0⟩] = (m.chunk D k).length :=
        Nat.add_zero _
      rw [bytes_append, hsum, hsucc]
      omega
  | first k hk =>
    rw [hk] at hb
    exact fun j hj => hb j hj
  | ack a =>
    rcases ot.handleAck_cases a with heq | ⟨failed, heq⟩
    · rw [heq]
      exact hb
    · have hsplit := bytes_filter
        (inRange a.chunkFrom a.chunkTo) ot.pending
      rw [heq]
      refine hb.mono ?_ (by show bytes (ot.pending.filter _) ≤ _; omega)
      rintro i ⟨c, hc, hi⟩
      exact ⟨c, (mem_filter.mp hc).1, hi⟩
  | window | resumed => exact fun k hk => hb k hk

theorem Balance.alike (hb : Balance m D ot log) (h : ot.Alike ot') : Balance m D ot' log := by
  intro w l hl
  rw [h.hasRemoteWindow, h.remoteWindowBytes, h.remoteWindowChunks]
  exact hb w l hl

theorem Effect.balance (h : Effect m D ot b l ot' b') (hb : Balance m D ot log) :
    Balance m D ot' (log ++ l) := by
  cases h with
  | quiet _ _ halike _ =>
    rw [append_nil]
    exact hb.alike halike
  | repeated e _ he _ =>
    intro w l hl
    rw [sinceWindow_concat, note_silent (silent_of_repeated he)] at hl
    exact hb w l hl
  | admission k _ hroom =>
    intro w l hl
    rw [sinceWindow_concat] at hl
    cases hsince : sinceWindow log with
    | none =>
      rw [hsince] at hl
      cases hl
    | some since =>
      obtain ⟨w', l'⟩ := since
      obtain ⟨hwindow, hbytes, hchunks⟩ := hb w' l' hsince
      rw [hsince] at hl
      obtain ⟨rfl, rfl⟩ := Prod.mk.inj (Option.some.inj hl)
      -- the window has room for the chunk, so that nothing is cut off at zero
      have hfits := (room_of_blocked hroom).2.2 hwindow
      simp only [push, hwindow, if_true, map_append, sum_append,
        map_cons, map_nil, sum_cons, sum_nil, length_append,
        length_cons, length_nil, true_and]
      omega
  | first k _ =>
    intro w l hl
    rw [sinceWindow_concat] at hl
    refine hb w l ?_
    rw [← hl]
    cases sinceWindow log <;> rfl
  | ack a =>
    intro w l hl
    rw [sinceWindow_concat, note_silent rfl] at hl
    rcases ot.handleAck_cases a with heq | ⟨failed, heq⟩
    all_goals
      rw [heq]
      exact hb w l hl
  | window windowBytes windowChunks =>
    intro w l hl
    rw [sinceWindow_concat] at hl
    obtain ⟨rfl, rfl⟩ := Prod.mk.inj (Option.some.inj (hl : some _ = _))
    exact ⟨rfl, rfl, rfl⟩
  | resumed n =>
    intro w l hl
    rw [sinceWindow_concat, note_silent rfl] at hl
    exact hb w l hl

theorem Trails.of_held (h : Held (admitted log) (firsts log) b) (hb : ∀ err, b ≠ .returned err) :
    Trails log := by
  cases b with
  | encoding k => exact ⟨[k], le_rfl, h⟩
  | returned err => exact absurd rfl (hb err)
  | begin | next | sendEnd | waiting => exact ⟨[], Nat.zero_le 1, h.trans (append_nil _).symm⟩

/-- One more event. -/
theorem Ordered.concat (h : Ordered log b) (ht : Trails (log ++ [e]))
    (hh : Held (admitted (log ++ [e])) (firsts (log ++ [e])) b') : Ordered (log ++ [e]) b' where
  trails l hl := by
    rcases prefix_concat_iff.mp hl with rfl | hl
    · exact ht
    · exact h.trails l hl
  held := hh

theorem Held.advances {as fs : List ℕ} (h : Held as fs b) (hadv : Advances b b') :
    Held as fs b' := by
  cases hadv with
  | stay => exact h
  | start | finish | wait => exact h
  | stop => trivial

/-- One more event that is neither an admission nor a first frame. -/
theorem Ordered.other (h : Ordered log b) (hadv : Advances b b') (ha : admitted [e] = [])
    (hf : firsts [e] = []) : Ordered (log ++ [e]) b' := by
  have hadmitted : admitted (log ++ [e]) = admitted log := by
    rw [admitted_append, ha, append_nil]
  have hfirsts : firsts (log ++ [e]) = firsts log := by
    rw [firsts_append, hf, append_nil]
  refine h.concat ?_ ?_
  · rw [Trails, hadmitted, hfirsts]
    exact h.trails log (prefix_refl log)
  · rw [hadmitted, hfirsts]
    exact h.held.advances hadv

theorem Effect.ordered (h : Effect m D ot b l ot' b') (ho : Ordered log b) :
    Ordered (log ++ l) b' := by
  cases h with
  | quiet _ _ _ hadv =>
    rw [append_nil]
    exact ⟨ho.trails, ho.held.advances hadv⟩
  | repeated e _ he hadv =>
    have hsilent := silent_of_repeated he
    exact ho.other hadv (admitted_silent hsilent) (firsts_silent hsilent)
  | admission k hk _ =>
    have hheld := ho.held
    rw [hk] at hheld
    have hnew : Held (admitted (log ++ [.admission k])) (firsts (log ++ [.admission k]))
        (.encoding k) := by
      rw [admitted_append, firsts_append, (hheld : admitted log = firsts log)]
      simp [Held, admitted, firsts, admitted?, first?]
    exact ho.concat (.of_held hnew nofun) hnew
  | first k hk =>
    have hheld := ho.held
    rw [hk] at hheld
    have hnew : Held (admitted (log ++ [.first k])) (firsts (log ++ [.first k]))
        (.next (k + 1)) := by
      rw [admitted_append, firsts_append, (hheld : admitted log = firsts log ++ [k])]
      simp [Held, admitted, firsts, admitted?, first?]
    exact ho.concat (.of_held hnew nofun) hnew
  | ack | resumed | window => exact ho.other (.stay b) rfl rfl

/-- The first frames of a part of the log follow the admissions in it, apart from one at most. -/
theorem Ordered.firsts_prefix {l₁ l₂ : List Event} (h : Ordered (l₁ ++ l₂) b) :
    ∃ late : List ℕ, late.length ≤ 1 ∧ firsts l₂ <+: late ++ admitted l₂ := by
  obtain ⟨late, hlate, hbefore⟩ := h.trails l₁ (prefix_append l₁ l₂)
  obtain ⟨rest, -, hafter⟩ := h.trails (l₁ ++ l₂) (prefix_refl _)
  refine ⟨late, hlate, rest, ?_⟩
  rw [admitted_append, firsts_append, hbefore, append_assoc, append_assoc] at hafter
  exact (append_cancel_left hafter).symm

/-- What holds in every state of a run. -/
structure Flight (m : TransferBegin) (D : Bytes) (maxInFlight maxInFlightBytes : ℕ)
    (s : Logged) : Prop where
  idle : s.up.phase ≠ .body → s.up.snd.body = .begin
  limits : s.up.snd.ot.maxInFlight = maxInFlight ∧ s.up.snd.ot.maxInFlightBytes = maxInFlightBytes
  inFlight : s.up.snd.ot.InFlight
  behind : Behind m s.up.snd.ot s.up.snd.body
  balance : Balance m D s.up.snd.ot s.log
  ordered : Ordered s.log s.up.snd.body

theorem Effect.limits (h : Effect m D ot b l ot' b') :
    ot'.maxInFlight = ot.maxInFlight ∧ ot'.maxInFlightBytes = ot.maxInFlightBytes := by
  cases h with
  | quiet _ _ halike _ => exact ⟨halike.maxInFlight, halike.maxInFlightBytes⟩
  | repeated | admission | first | window | resumed => exact ⟨rfl, rfl⟩
  | ack a =>
    rcases ot.handleAck_cases a with heq | ⟨failed, heq⟩
    all_goals
      rw [heq]
      exact ⟨rfl, rfl⟩

variable {maxInFlight maxInFlightBytes : ℕ}

theorem flight_step (htotal : m.totalSize = D.length)
    (h : Flight m D maxInFlight maxInFlightBytes s) (hs : Step m D s s') :
    Flight m D maxInFlight maxInFlightBytes s' := by
  obtain ⟨l, hlog, he⟩ := effect_of_step hs h.idle
  refine ⟨idle_step hs h.idle, ?_, he.inFlight h.inFlight h.behind, he.behind htotal h.behind,
    ?_, ?_⟩
  · exact ⟨he.limits.1.trans h.limits.1, he.limits.2.trans h.limits.2⟩
  · rw [hlog]
    exact he.balance h.balance
  · rw [hlog]
    exact he.ordered h.ordered

/-- A transfer that is registered, before anything has happened. -/
def Started (ot : OutgoingTransfer) (s : Logged) : Prop :=
  s = ⟨fresh ot, []⟩ ∨ ∃ receivedBytes nextChunk, s = ⟨again ot receivedBytes nextChunk, []⟩

theorem flight_started {id retryLimit : ℕ} {hasRemoteWindow : Bool}
    (h : Started (registerOutgoing id retryLimit maxInFlight maxInFlightBytes hasRemoteWindow m)
      s) :
    Flight m D maxInFlight maxInFlightBytes s := by
  have hempty : (registerOutgoing id retryLimit maxInFlight maxInFlightBytes hasRemoteWindow
      m).InFlight := ⟨.nil, rfl, Nat.zero_le _, Nat.zero_le _⟩
  have hordered : Ordered [] .begin := by
    refine ⟨fun l hl => ?_, rfl⟩
    rw [prefix_nil.mp hl]
    exact ⟨[], Nat.zero_le 1, rfl⟩
  rcases h with rfl | ⟨receivedBytes, nextChunk, rfl⟩
  all_goals
    exact ⟨fun _ => rfl, ⟨rfl, rfl⟩, hempty, fun k _ => ⟨nofun, Nat.zero_le _⟩, nofun, hordered⟩

/-- A chunk is admitted where there is room for it. -/
theorem Effect.admits (h : Effect m D ot b l ot' b') {k : ℕ} (hl : l = [.admission k]) :
    b = .next k ∧ ot.blocked (m.chunk D k).length = false ∧ ot' = ot.push k (m.chunk D k) := by
  cases h with
  | admission j hj hroom =>
    obtain rfl : j = k := Event.admission.inj (head_eq_of_cons_eq hl)
    exact ⟨hj, hroom, rfl⟩
  | repeated e _ he _ =>
    rw [head_eq_of_cons_eq hl] at he
    cases he
  | quiet | first | ack | window | resumed => cases hl

/-- In every run of a sender against a peer that sends what it likes, the pending chunks are
    increasing, counted and within the limits; a chunk that is admitted neither takes the counters
    of the window below zero nor `pendingBytes` above the size of the transfer; and the chunks
    admitted after a window and before the next are within it. The first frames handed to the writer
    between two windows are those of such chunks, after that of at most one chunk that was admitted
    before. -/
theorem window_respected (D : Bytes) (chunkSize flags : ℕ) (checksum : Bytes)
    (id retryLimit maxInFlight maxInFlightBytes : ℕ) (hasRemoteWindow : Bool) (s₀ s : Logged) :
    let m := announce D chunkSize flags checksum
    let ot := s.up.snd.ot
    Started (registerOutgoing id retryLimit maxInFlight maxInFlightBytes hasRemoteWindow m) s₀ →
    ReflTransGen (Step m D) s₀ s →
    ((ot.pending.map chunkID).Pairwise (· < ·) ∧
      ot.pendingBytes = bytes ot.pending ∧ ot.pending.length ≤ maxInFlight ∧
      ot.pendingBytes ≤ maxInFlightBytes) ∧
    (∀ k s', Step m D s s' → s'.log = s.log ++ [.admission k] →
      ot.pendingBytes + (m.chunk D k).length ≤ D.length ∧ (ot.hasRemoteWindow = true →
        (m.chunk D k).length ≤ ot.remoteWindowBytes ∧ 1 ≤ ot.remoteWindowChunks)) ∧
    ∀ l₁ b c l₂, s.log = l₁ ++ .window b c :: l₂ → (∀ b' c', .window b' c' ∉ l₂) →
      ((admitted l₂).map fun k => (m.chunk D k).length).sum ≤ b ∧ (admitted l₂).length ≤ c ∧
      ∃ late : List ℕ, late.length ≤ 1 ∧ firsts l₂ <+: late ++ admitted l₂ := by
  intro m ot hstart hrun
  have hflight : Flight m D maxInFlight maxInFlightBytes s :=
    Run.invariant _ (flight_started hstart) (fun _ _ h hs => flight_step rfl h hs) hrun
  obtain ⟨hincreasing, hbytes, hlength, hle⟩ := hflight.inFlight
  refine ⟨⟨hincreasing, hbytes, ?_, ?_⟩, fun k s' hs hlog => ?_, fun l₁ b c l₂ hlog hlast => ?_⟩
  · exact hflight.limits.1 ▸ hlength
  · exact hflight.limits.2 ▸ hle
  · obtain ⟨l, hl, he⟩ := effect_of_step hs hflight.idle
    obtain ⟨hbody, hroom, hot⟩ := he.admits (append_cancel_left (hl.symm.trans hlog))
    -- with the chunk, what is pending is part of what was read
    obtain ⟨-, hbelow⟩ := hflight.behind k (by rw [hbody]; rfl)
    have hsucc : m.offset (k + 1) = m.offset k + (m.chunk D k).length := Piece.offset_succ
    have htotal : m.offset (k + 1) ≤ D.length := Piece.offset_le
    refine ⟨?_, (room_of_blocked hroom).2.2⟩
    rw [← hbytes] at hbelow
    show s.up.snd.ot.pendingBytes + _ ≤ _
    omega
  · have hsince := sinceWindow_split (l := l₁) (b := b) (c := c) hlast
    rw [← hlog] at hsince
    obtain ⟨-, hsum, hcount⟩ := hflight.balance _ _ hsince
    have hordered : Ordered ((l₁ ++ [.window b c]) ++ l₂) s.up.snd.body := by
      rw [append_assoc, singleton_append, ← hlog]
      exact hflight.ordered
    obtain ⟨late, hlate, hfirsts⟩ := hordered.firsts_prefix
    exact ⟨by omega, by omega, late, hlate, hfirsts⟩

/-- Two bytes are sent in chunks of one. A window of one chunk is received between the admission of
    the first and its frame. -/
theorem late_frame_run : ∃ s, ReflTransGen (Step (announce [7, 8] 1 0 []) [7, 8])
      ⟨fresh (registerOutgoing 1 1 2 2 false (announce [7, 8] 1 0 [])), []⟩ s ∧
    s.log = [.admission 0, .window 1 1, .first 0, .admission 1, .first 1] :=
  ⟨_,
    .head (.own _ _ (.begin _ rfl rfl) nofun (.inl rfl)) <|
    .head (.own _ _ (.push _ 0 rfl (by decide) rfl rfl) nofun (.inl rfl)) <|
    .head (.answer _ _ (.reply (.window 1 1) _ (.reply _ _ rfl))) <|
    .head (.own _ _ (.encode _ 0 [7] rfl rfl fun _ => rfl) nofun (.inl rfl)) <|
    .head (.own _ _ (.push _ 1 rfl (by decide) rfl rfl) nofun (.inl rfl)) <|
    .single (.own _ _ (.encode _ 1 [8] rfl rfl fun _ => rfl) nofun (.inl rfl)), rfl⟩

/-- Two first frames, of two bytes, are handed to the writer after a window of one. -/
theorem frame_behind_window : ∃ s l₁ l₂, ReflTransGen (Step (announce [7, 8] 1 0 []) [7, 8])
      ⟨fresh (registerOutgoing 1 1 2 2 false (announce [7, 8] 1 0 [])), []⟩ s ∧
    s.log = l₁ ++ .window 1 1 :: l₂ ∧ (∀ b c, .window b c ∉ l₂) ∧ 1 < (firsts l₂).length ∧
    1 < ((firsts l₂).map fun k => ((announce [7, 8] 1 0 []).chunk [7, 8] k).length).sum := by
  obtain ⟨s, hrun, hlog⟩ := late_frame_run
  exact ⟨s, [.admission 0], [.first 0, .admission 1, .first 1], hrun, hlog, by simp, by decide,
    by decide⟩

theorem window_respected_two : ∃ s, ReflTransGen (Step (announce [7, 8] 1 0 []) [7, 8])
      ⟨fresh (registerOutgoing 1 1 2 2 false (announce [7, 8] 1 0 [])), []⟩ s ∧
    s.log = [.admission 0, .window 1 1, .first 0, .admission 1, .first 1] ∧
    s.up.snd.ot.pending.length ≤ 2 := by
  obtain ⟨s, hrun, hlog⟩ := late_frame_run
  exact ⟨s, hrun, hlog,
    (window_respected [7, 8] 1 0 [] 1 1 2 2 false _ s (.inl rfl) hrun).1.2.2.1⟩

end Logged

end Etp.Transfer
