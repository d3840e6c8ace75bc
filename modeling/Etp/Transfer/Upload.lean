import Etp.Lib.Run
import Etp.Transfer.Sender

/-!
# The sender and any peer

The sender of a transfer against a peer that sends what it likes: any answers, at
any time, before, while and after the chunks are sent, also the answers to a
request to resume the transfer. `SendTransfer` and `StartTransfer` send the whole
byte string; `ResumeTransfer` asks the peer where to go on, waits for its decision
and sends the rest (`Phase`).

A call that returns nil has committed the transfer (`Committed`): all chunks from
the offset it started at were sent, each was taken from the pending ones by an
acknowledgement of it, a completed state with the right counters was received,
and no failure was recorded. That the frames carried the chunks needs the peer to
wait: the frame of a chunk is encoded after the chunk became pending, from a
buffer that an acknowledgement in between gives back to the pool
(`nil_uncommitted`).
-/

namespace Etp.Transfer

open Relation List OutgoingTransfer

/-- `transferOffsetForChunk`. -/
def transferOffsetForChunk (totalSize chunkSize nextChunk : ℕ) : Option ℕ :=
  if chunkSize = 0 then none
  else
    let chunkCount := chunkCountFor totalSize chunkSize
    if chunkCount < nextChunk then none
    else if nextChunk = chunkCount then some totalSize
    else
      let offset := nextChunk * chunkSize
      if totalSize ≤ offset then none else some offset

/-- A frame of the peer about the transfer: one of those that follow the chunks, the decision about
    resuming it, or one that is not valid. -/
inductive Answer
  | reply (r : Reply)
  | resumeAccepted (receivedBytes nextChunk : ℕ)
  | resumeRejected (reason : ℕ)
  | invalid (e : Err)
  deriving DecidableEq, Repr

/-- Where the goroutine of the transfer is; before `sendTransferBody` only if the transfer is
    resumed. -/
inductive Phase
  | request (receivedBytes nextChunk : ℕ)
  | deciding
  | opening (receivedBytes nextChunk : ℕ)
  | body
  deriving DecidableEq, Repr

/-- The sender of a transfer, with the answer to its request to resume it; and what has happened:
    the offset it started at, the chunks it has sent, the chunks that acknowledgements took from the
    pending ones, the completed states and the accepted offsets it has received. -/
structure Upload where
  snd : Sender
  phase : Phase := .body
  resumed : Bool := false
  resumeDecided : Bool := false
  resumeAccepted : Bool := false
  resumeBytes : ℕ := 0
  resumeChunk : ℕ := 0
  startBytes : ℕ := 0
  start : ℕ := 0
  sent : List Chunk := []
  removed : List (ℕ × Ack) := []
  completions : List TransferState := []
  accepts : List (ℕ × ℕ) := []

namespace Upload

/-- The chunks in frames. -/
def sentBy : Sender.Label → List Chunk
  | .send (.data c) => [c]
  | _ => []

theorem mem_sentBy {l : Sender.Label} {f : Chunk} (hf : f ∈ sentBy l) : l = .send (.data f) := by
  unfold sentBy at hf
  split at hf
  · rw [mem_singleton.mp hf]
  · cases hf

/-- The chunks that an answer took from the pending ones. -/
def takenBy (before after : OutgoingTransfer) : Reply → List (ℕ × Ack)
  | .ack a =>
    (before.pending.filter fun c => !after.pending.contains c).map fun c => (c.chunkID, a)
  | _ => []

/-- The completed states in answers. -/
def completedBy : Reply → List TransferState
  | .state s => if s.failure = none then [s] else []
  | _ => []

/-- `handleIncomingTransferState`, for an accepted request to resume. -/
def handleResumeAccepted (m : TransferBegin) (u : Upload) (receivedBytes nextChunk : ℕ) : Upload :=
  if !u.snd.registered then u
  else if transferOffsetForChunk m.totalSize m.chunkSize nextChunk ≠ some receivedBytes then
    let e := "invalid transfer resume counters"
    { u with snd := { u.snd with ot := u.snd.ot.fail e, reader := .stopped e } }
  else
    { u with
      snd := { u.snd with ot := { u.snd.ot with ackedBytes := receivedBytes } }
      resumeDecided := true
      resumeAccepted := true
      resumeBytes := receivedBytes
      resumeChunk := nextChunk
      accepts := u.accepts ++ [(receivedBytes, nextChunk)] }

/-- `handleIncomingTransferState`, for a rejected one. -/
def handleResumeRejected (u : Upload) (reason : ℕ) : Upload :=
  if !u.snd.registered then u
  else
    { u with snd := { u.snd with
      ot := u.snd.ot.fail ("remote rejected transfer resume: reason=" ++ toString reason) } }

/-- One step of the sender of `D`, announced as `m`, with the frame of the peer it handles. -/
inductive Step (m : TransferBegin) (D : Bytes) (u : Upload) : Option Answer → Upload → Prop
  -- of the goroutines that have sent or are sending the chunks
  | own (label : Sender.Label) (s : Sender) : Sender.Step m D u.snd label s →
      (∀ r, label ≠ .receive r) → (u.phase = .body ∨ s.body = u.snd.body) →
      Step m D u none { u with snd := s, sent := u.sent ++ sentBy label }
  -- of the reader
  | reply (r : Reply) (s : Sender) : Sender.Step m D u.snd (.receive r) s →
      Step m D u (some (.reply r)) { u with
        snd := s
        removed := u.removed ++ takenBy u.snd.ot s.ot r
        completions := u.completions ++ completedBy r }
  | resumeAccepted (receivedBytes nextChunk : ℕ) : u.snd.reader = .ready →
      Step m D u (some (.resumeAccepted receivedBytes nextChunk))
        (u.handleResumeAccepted m receivedBytes nextChunk)
  | resumeRejected (reason : ℕ) : u.snd.reader = .ready →
      Step m D u (some (.resumeRejected reason)) (u.handleResumeRejected reason)
  | invalid (e : Err) : u.snd.reader = .ready →
      Step m D u (some (.invalid e)) { u with snd := { u.snd with reader := .stopped e } }
  -- of `sendResumedTransfer`
  | requested (receivedBytes nextChunk : ℕ) : u.phase = .request receivedBytes nextChunk →
      m.sendable = true →
      transferOffsetForChunk m.totalSize m.chunkSize nextChunk = some receivedBytes →
      Step m D u none { u with phase := .deciding }
  | decided : u.phase = .deciding → u.resumeDecided = true → u.snd.ot.failed = none →
      u.resumeAccepted = true →
      Step m D u none { u with phase := .opening u.resumeBytes u.resumeChunk }
  | opened (receivedBytes nextChunk : ℕ) : u.phase = .opening receivedBytes nextChunk →
      Step m D u none { u with
        snd := { u.snd with body := .next nextChunk }
        phase := .body
        startBytes := receivedBytes
        start := nextChunk }
  | giveUp (e : Err) : u.phase ≠ .body →
      Step m D u none { u with snd := { u.snd with body := .returned (some e) }, phase := .body }

/-- `SendTransfer` and `StartTransfer` of a registered transfer. -/
def fresh (ot : OutgoingTransfer) : Upload where
  snd := { ot := ot }

/-- `ResumeTransfer` of a registered transfer, with the counters of its options. -/
def again (ot : OutgoingTransfer) (receivedBytes nextChunk : ℕ) : Upload where
  snd := { ot := ot }
  phase := .request receivedBytes nextChunk
  resumed := true

/-- A chunk that is pending and whose frame is still to be encoded is not acknowledged. -/
def Awaited (u : Upload) (answer : Option Answer) : Prop :=
  ∀ a k, answer = some (.reply (.ack a)) → u.snd.body = .encoding k →
    ¬ (a.chunkFrom ≤ k ∧ k ≤ a.chunkTo)

/-- A step in which the peer waits for the frames of the chunks it acknowledges. -/
def AwaitedStep (m : TransferBegin) (D : Bytes) (u u' : Upload) : Prop :=
  ∃ answer, Step m D u answer u' ∧ u.Awaited answer

/-! ## What is accounted for -/

variable {m : TransferBegin} {D : Bytes} {u u' : Upload}

/-- The chunk is pending. -/
def Pending (u : Upload) (k : ℕ) : Prop := ∃ c ∈ u.snd.ot.pending, c.chunkID = k

/-- The chunk is pending, or an acknowledgement took it from the pending ones. -/
def Accounted (u : Upload) (k : ℕ) : Prop := u.Pending k ∨ ∃ a, (k, a) ∈ u.removed

/-- The chunks before `k`, from the one it started with, were sent and are accounted for. -/
def SentUpTo (m : TransferBegin) (D : Bytes) (u : Upload) (k : ℕ) : Prop :=
  ∀ j, u.start ≤ j → j < k → ⟨j, m.chunk D j, true⟩ ∈ u.sent ∧ u.Accounted j

/-- Where the transfer started: at the beginning, or at an offset that the peer accepted. -/
structure Origin (m : TransferBegin) (u : Upload) : Prop where
  offset : u.startBytes = m.offset u.start
  start : if u.resumed then (u.startBytes, u.start) ∈ u.accepts else u.start = 0

/-- What the goroutine of the transfer has done when it is at a position. -/
def AtBody (m : TransferBegin) (D : Bytes) (u : Upload) : Body → Prop
  | .begin => u.resumed = false ∧ u.start = 0 ∧ u.startBytes = 0
  | .next k => m.sendable = true ∧ u.Origin m ∧ u.SentUpTo m D k
  | .encoding k => m.sendable = true ∧ u.Origin m ∧ u.SentUpTo m D k ∧ u.Pending k
  | .sendEnd | .waiting => m.sendable = true ∧ u.Origin m ∧
      ∃ k, m.totalSize ≤ m.offset k ∧ u.SentUpTo m D k
  | .returned _ => True

/-- The same before `sendTransferBody`. -/
def AtPhase (m : TransferBegin) (D : Bytes) (u : Upload) : Phase → Prop
  | .request _ _ => u.resumed = true ∧ u.snd.body = .begin
  | .deciding => u.resumed = true ∧ u.snd.body = .begin ∧ m.sendable = true
  | .opening receivedBytes nextChunk => u.resumed = true ∧ u.snd.body = .begin ∧
      m.sendable = true ∧ (receivedBytes, nextChunk) ∈ u.accepts
  | .body => u.AtBody m D u.snd.body

/-- The invariant of the runs in which the peer waits. -/
structure Inv (m : TransferBegin) (D : Bytes) (u : Upload) : Prop where
  phase : u.AtPhase m D u.phase
  decision : u.resumeAccepted = true → (u.resumeBytes, u.resumeChunk) ∈ u.accepts
  accepts : ∀ o ∈ u.accepts, transferOffsetForChunk m.totalSize m.chunkSize o.2 = some o.1
  removed : ∀ r ∈ u.removed, r.2.chunkFrom ≤ r.1 ∧ r.1 ≤ r.2.chunkTo
  counters : u.snd.ot.totalBytes = m.totalSize ∧ u.snd.ot.chunkCount = m.chunkCount
  completed : u.snd.ot.completed = true → ∃ s ∈ u.completions, s.failure = none ∧
    s.receivedBytes = m.totalSize ∧ s.nextChunk = m.chunkCount

/-- A step that forgets nothing, and takes away no chunk that is being encoded. -/
structure Keeps (u u' : Upload) : Prop where
  resumed : u'.resumed = u.resumed
  startBytes : u'.startBytes = u.startBytes
  start : u'.start = u.start
  sent : ∀ c ∈ u.sent, c ∈ u'.sent
  accounted : ∀ k, u.Accounted k → u'.Accounted k
  accepts : ∀ o ∈ u.accepts, o ∈ u'.accepts
  encoding : ∀ k, u.snd.body = .encoding k → u.Pending k → u'.Pending k

theorem SentUpTo.keeps {k : ℕ} (h : u.SentUpTo m D k) (hk : Keeps u u') : u'.SentUpTo m D k := by
  intro j hj hlt
  rw [hk.start] at hj
  exact ⟨hk.sent _ (h j hj hlt).1, hk.accounted j (h j hj hlt).2⟩

theorem Origin.keeps (h : u.Origin m) (hk : Keeps u u') : u'.Origin m := by
  obtain ⟨hoffset, hstart⟩ := h
  refine ⟨by rw [hk.startBytes, hk.start, hoffset], ?_⟩
  rw [hk.resumed, hk.startBytes, hk.start]
  split
  · next hr =>
    rw [if_pos hr] at hstart
    exact hk.accepts _ hstart
  · next hr => rwa [if_neg hr] at hstart

theorem AtPhase.keeps (h : u.AtPhase m D u.phase) (hk : Keeps u u') (hphase : u'.phase = u.phase)
    (hbody : u'.snd.body = u.snd.body) : u'.AtPhase m D u'.phase := by
  rw [hphase]
  cases hp : u.phase with
  | request b c =>
    rw [hp] at h
    exact ⟨hk.resumed.trans h.1, hbody.trans h.2⟩
  | deciding =>
    rw [hp] at h
    exact ⟨hk.resumed.trans h.1, hbody.trans h.2.1, h.2.2⟩
  | opening b c =>
    rw [hp] at h
    exact ⟨hk.resumed.trans h.1, hbody.trans h.2.1, h.2.2.1, hk.accepts _ h.2.2.2⟩
  | body =>
    rw [hp] at h
    show u'.AtBody m D u'.snd.body
    have h : u.AtBody m D u.snd.body := h
    rw [hbody]
    cases hb : u.snd.body with
    | begin =>
      rw [hb] at h
      exact ⟨hk.resumed.trans h.1, hk.start.trans h.2.1, hk.startBytes.trans h.2.2⟩
    | next k =>
      rw [hb] at h
      exact ⟨h.1, h.2.1.keeps hk, h.2.2.keeps hk⟩
    | encoding k =>
      rw [hb] at h
      exact ⟨h.1, h.2.1.keeps hk, h.2.2.1.keeps hk, hk.encoding k hb h.2.2.2⟩
    | sendEnd | waiting =>
      rw [hb] at h
      obtain ⟨hsend, ho, k, hle, hsent⟩ := h
      exact ⟨hsend, ho.keeps hk, k, hle, hsent.keeps hk⟩
    | returned err => trivial

theorem mem_of_sameChunks {ot ot' : OutgoingTransfer} (h : ot.SameChunks ot') {k : ℕ}
    (hk : ∃ c ∈ ot.pending, c.chunkID = k) : ∃ c ∈ ot'.pending, c.chunkID = k := by
  obtain ⟨c, hc, rfl⟩ := hk
  have hmem : c.chunk ∈ ot'.pending.map SentChunk.chunk := by
    rw [h.pending]
    exact mem_map_of_mem hc
  obtain ⟨c', hc', heq⟩ := mem_map.mp hmem
  exact ⟨c', hc', congrArg Chunk.chunkID heq⟩

/-! ## The record -/

section Record

variable (ot : OutgoingTransfer)

/-- An acknowledgement leaves the chunks outside its range alone. -/
theorem handleAck_outside (a : Ack) {c : SentChunk} (hc : c ∈ ot.pending)
    (hout : inRange a.chunkFrom a.chunkTo c = false) :
    c ∈ (ot.handleAck a).1.pending := by
  have hkeep : c ∈ ot.pending.filter fun c => !inRange a.chunkFrom a.chunkTo c :=
    mem_filter.mpr ⟨hc, by rw [hout]; rfl⟩
  rcases ot.handleAck_cases a with heq | ⟨failed, heq⟩ <;> rw [heq]
  · exact hc
  · exact hkeep

theorem handleAck_counters (a : Ack) : (ot.handleAck a).1.totalBytes = ot.totalBytes ∧
    (ot.handleAck a).1.chunkCount = ot.chunkCount := by
  rcases ot.handleAck_cases a with heq | ⟨failed, heq⟩ <;> rw [heq] <;> exact ⟨rfl, rfl⟩

/-- A state completes the transfer only with its counters. -/
theorem completed_handleState {s : TransferState}
    (h : (ot.handleState s).1.completed = true) : ot.completed = true ∨
      s.failure = none ∧ s.receivedBytes = ot.totalBytes ∧ s.nextChunk = ot.chunkCount := by
  simp only [handleState, fail] at h
  split at h
  · exact .inl h
  · next hs =>
    split_ifs at h with hcounters
    · exact .inl h
    · simp only [Bool.or_eq_true, decide_eq_true_eq, not_or, ne_eq, not_not] at hcounters
      exact .inr ⟨hs, hcounters⟩

end Record

/-! ## Steps -/

/-- A step that keeps what the goroutine of the transfer has done, with the record after it. -/
theorem Inv.keeps (h : u.Inv m D) (hk : Keeps u u') (hphase : u'.phase = u.phase)
    (hbody : u'.snd.body = u.snd.body)
    (hdecision : u'.resumeAccepted = true → (u'.resumeBytes, u'.resumeChunk) ∈ u'.accepts)
    (haccepts : ∀ o ∈ u'.accepts,
      transferOffsetForChunk m.totalSize m.chunkSize o.2 = some o.1)
    (hremoved : ∀ r ∈ u'.removed, r.2.chunkFrom ≤ r.1 ∧ r.1 ≤ r.2.chunkTo)
    (htotal : u'.snd.ot.totalBytes = u.snd.ot.totalBytes)
    (hcount : u'.snd.ot.chunkCount = u.snd.ot.chunkCount)
    (hcompleted : u'.snd.ot.completed = true → ∃ s ∈ u'.completions, s.failure = none ∧
      s.receivedBytes = m.totalSize ∧ s.nextChunk = m.chunkCount) : u'.Inv m D where
  phase := h.phase.keeps hk hphase hbody
  decision := hdecision
  accepts := haccepts
  removed := hremoved
  counters := ⟨htotal.trans h.counters.1, hcount.trans h.counters.2⟩
  completed := hcompleted

variable {s : Sender}

/-- A step of the monitor, of the reader as it sends chunks again, or of the session. -/
theorem Inv.quiet (h : u.Inv m D) {l : List Chunk} (hbody : s.body = u.snd.body)
    (hsame : u.snd.ot.SameChunks s.ot) (hcompleted : s.ot.completed = u.snd.ot.completed) :
    { u with snd := s, sent := u.sent ++ l }.Inv m D := by
  have hkeeps : Keeps u { u with snd := s, sent := u.sent ++ l } :=
    ⟨rfl, rfl, rfl, fun c hc => mem_append_left _ hc,
      fun k hk => hk.imp_left (mem_of_sameChunks hsame), fun o ho => ho,
      fun k _ => mem_of_sameChunks hsame⟩
  exact h.keeps hkeeps rfl hbody h.decision h.accepts h.removed hsame.totalBytes hsame.chunkCount
    fun hc => h.completed (hcompleted ▸ hc)

/-- A step of the goroutine of the transfer to a new position. -/
theorem Inv.moves (h : u.Inv m D) {l : List Chunk} (hphase : u.phase = .body)
    (hat : { u with snd := s, sent := u.sent ++ l }.AtBody m D s.body)
    (htotal : s.ot.totalBytes = u.snd.ot.totalBytes)
    (hcount : s.ot.chunkCount = u.snd.ot.chunkCount)
    (hcompleted : s.ot.completed = u.snd.ot.completed) :
    { u with snd := s, sent := u.sent ++ l }.Inv m D where
  phase := (congrArg (AtPhase m D { u with snd := s, sent := u.sent ++ l }) hphase).mpr hat
  decision := h.decision
  accepts := h.accepts
  removed := h.removed
  counters := ⟨htotal.trans h.counters.1, hcount.trans h.counters.2⟩
  completed hc := h.completed (hcompleted ▸ hc)

theorem inv_own {label : Sender.Label} (h : u.Inv m D) (hs : Sender.Step m D u.snd label s)
    (hl : ∀ r, label ≠ .receive r) (hp : u.phase = .body ∨ s.body = u.snd.body) :
    { u with snd := s, sent := u.sent ++ sentBy label }.Inv m D := by
  -- a step that changes the position is one of `sendTransferBody`
  have hat : u.phase = .body → u.AtBody m D u.snd.body := by
    intro hphase
    have := h.phase
    rwa [hphase] at this
  have hin : ∀ {b : Body}, u.snd.body = b → s.body ≠ b → u.phase = .body := by
    intro b hb hne
    exact hp.resolve_right fun heq => hne (heq.trans hb)
  cases hs with
  | begin hb hsend =>
    have hphase := hin hb (by simp)
    have hbegin := hat hphase
    rw [hb] at hbegin
    refine h.moves hphase ⟨hsend, ⟨?_, ?_⟩, ?_⟩ rfl rfl rfl
    · show u.startBytes = m.offset u.start
      rw [hbegin.2.1, hbegin.2.2, TransferBegin.offset, Piece.offset_zero]
    · show if u.resumed = true then _ else u.start = 0
      rw [hbegin.1]
      exact hbegin.2.1
    · intro j _ hj
      exact absurd hj (Nat.not_lt_zero j)
  | push k hb hlt hfailed hblocked =>
    have hphase := hin hb (by simp)
    have hnext := hat hphase
    rw [hb] at hnext
    have hkeeps : Keeps u { u with
        snd := { u.snd with ot := u.snd.ot.push k (m.chunk D k), body := .encoding k }
        sent := u.sent ++ sentBy .internal } := by
      have hmem : ∀ j, u.Pending j → ∃ c ∈ u.snd.ot.pending ++ [⟨k, m.chunk D k, 0⟩],
          c.chunkID = j := by
        rintro j ⟨c, hc, hj⟩
        exact ⟨c, mem_append_left _ hc, hj⟩
      exact ⟨rfl, rfl, rfl, fun c hc => mem_append_left _ hc,
        fun j hj => hj.imp_left (hmem j), fun o ho => ho, fun j _ hj => hmem j hj⟩
    refine h.moves hphase ⟨hnext.1, hnext.2.1.keeps hkeeps, hnext.2.2.keeps hkeeps, ?_⟩ rfl rfl rfl
    exact ⟨⟨k, m.chunk D k, 0⟩, mem_append_right _ mem_cons_self, rfl⟩
  | encode k payload hb hlen hpayload =>
    have hphase := hin hb (by simp)
    have hencoding := hat hphase
    rw [hb] at hencoding
    obtain ⟨hsend, horigin, hsent, hpending⟩ := hencoding
    have hkeeps : Keeps u { u with
        snd := { u.snd with body := .next (k + 1) }
        sent := u.sent ++ sentBy (.send (.data ⟨k, payload, true⟩)) } :=
      ⟨rfl, rfl, rfl, fun c hc => mem_append_left _ hc, fun j hj => hj, fun o ho => ho,
        fun j _ hj => hj⟩
    refine h.moves hphase ⟨hsend, horigin.keeps hkeeps, fun j hj hlt => ?_⟩ rfl rfl rfl
    rcases Nat.lt_succ_iff_lt_or_eq.mp hlt with hlt | rfl
    · exact (hsent.keeps hkeeps) j hj hlt
    · -- the buffer is still that of the chunk
      rw [hpayload hpending]
      exact ⟨mem_append_right _ mem_cons_self, .inl hpending⟩
  | finish k hb hle =>
    have hphase := hin hb (by simp)
    have hnext := hat hphase
    rw [hb] at hnext
    have hkeeps : Keeps u { u with
        snd := { u.snd with ot := { u.snd.ot with doneSending := true }, body := .sendEnd }
        sent := u.sent ++ sentBy .internal } :=
      ⟨rfl, rfl, rfl, fun c hc => mem_append_left _ hc, fun j hj => hj, fun o ho => ho,
        fun j _ hj => hj⟩
    exact h.moves hphase ⟨hnext.1, hnext.2.1.keeps hkeeps, k, hle, hnext.2.2.keeps hkeeps⟩
      rfl rfl rfl
  | sendEnd hb =>
    have hphase := hin hb (by simp)
    have hsend := hat hphase
    rw [hb] at hsend
    obtain ⟨hsendable, horigin, k, hle, hsent⟩ := hsend
    have hkeeps : Keeps u { u with
        snd := { u.snd with body := .waiting }
        sent := u.sent ++ sentBy (.send .finish) } :=
      ⟨rfl, rfl, rfl, fun c hc => mem_append_left _ hc, fun j hj => hj, fun o ho => ho,
        fun j _ hj => hj⟩
    exact h.moves hphase ⟨hsendable, horigin.keeps hkeeps, k, hle, hsent.keeps hkeeps⟩ rfl rfl rfl
  | acked hb _ => exact h.moves (hin hb (by simp)) trivial rfl rfl rfl
  | giveUp e hb => exact h.moves (hin rfl (fun heq => hb _ heq.symm)) trivial rfl rfl rfl
  | reply r _ => exact absurd rfl (hl r)
  | tick commit late _ _ =>
    exact h.quiet rfl (sameChunks_expire _ commit late) (u.snd.ot.expire_spec commit late).1
  | unregister | resend | resent | task | skip => exact h.quiet rfl (.refl _) rfl
  | fail e => exact h.quiet rfl ⟨rfl, rfl, rfl, rfl, rfl⟩ rfl

/-- The chunks an acknowledgement takes away are in its range. -/
theorem taken_inRange {a : Ack} {r : ℕ × Ack}
    (hr : r ∈ takenBy u.snd.ot (u.snd.ot.handleAck a).1 (.ack a)) :
    r.2.chunkFrom ≤ r.1 ∧ r.1 ≤ r.2.chunkTo := by
  obtain ⟨c, hc, rfl⟩ := mem_map.mp hr
  obtain ⟨hc, hgone⟩ := mem_filter.mp hc
  by_contra hout
  have hrange : inRange a.chunkFrom a.chunkTo c = false := by
    rw [inRange, ← Bool.not_eq_true, Bool.and_eq_true, decide_eq_true_eq,
      decide_eq_true_eq]
    exact hout
  have hstays := handleAck_outside u.snd.ot a hc hrange
  simp [hstays] at hgone

theorem inv_ack {a : Ack} (h : u.Inv m D) (hw : u.Awaited (some (.reply (.ack a))))
    (e : SenderReader) :
    { u with
      snd := { u.snd with ot := (u.snd.ot.handleAck a).1, reader := e }
      removed := u.removed ++ takenBy u.snd.ot (u.snd.ot.handleAck a).1 (.ack a)
      completions := u.completions ++ [] }.Inv m D := by
  obtain ⟨hcompleted, -, -⟩ := u.snd.ot.handleAck_spec a
  obtain ⟨htotal, hcount⟩ := handleAck_counters u.snd.ot a
  refine h.keeps ⟨rfl, rfl, rfl, fun c hc => hc, fun k hk => ?_, fun o ho => ho, fun k hb hk => ?_⟩
    rfl rfl h.decision h.accepts (fun r hr => ?_) htotal hcount fun hc => ?_
  · rcases hk with ⟨c, hc, rfl⟩ | ⟨a', hk⟩
    · by_cases hstays : c ∈ (u.snd.ot.handleAck a).1.pending
      · exact .inl ⟨c, hstays, rfl⟩
      · refine .inr ⟨a, mem_append_right _ ?_⟩
        exact mem_map.mpr ⟨c, mem_filter.mpr ⟨hc, by simp [hstays]⟩, rfl⟩
    · exact .inr ⟨a', mem_append_left _ hk⟩
  · -- the chunk that is being encoded is not in the range
    obtain ⟨c, hc, rfl⟩ := hk
    refine ⟨c, handleAck_outside u.snd.ot a hc ?_, rfl⟩
    rw [inRange, ← Bool.not_eq_true, Bool.and_eq_true, decide_eq_true_eq,
      decide_eq_true_eq]
    exact hw a _ rfl hb
  · exact (mem_append.mp hr).elim (h.removed r) taken_inRange
  · rw [append_nil]
    exact h.completed (hcompleted ▸ hc)

theorem inv_state {t : TransferState} (h : u.Inv m D) (e : SenderReader) :
    { u with
      snd := { u.snd with ot := (u.snd.ot.handleState t).1, reader := e }
      removed := u.removed ++ []
      completions := u.completions ++ completedBy (.state t) }.Inv m D := by
  have hsame := sameChunks_handleState u.snd.ot t
  refine h.keeps ⟨rfl, rfl, rfl, fun c hc => hc, fun k hk => ?_, fun o ho => ho,
    fun k _ => mem_of_sameChunks hsame⟩ rfl rfl h.decision h.accepts (fun r hr => ?_)
    hsame.totalBytes hsame.chunkCount fun hc => ?_
  · exact hk.imp (mem_of_sameChunks hsame) fun ⟨a, ha⟩ => ⟨a, mem_append_left _ ha⟩
  · exact h.removed r (by simpa using hr)
  · rcases completed_handleState u.snd.ot hc with hc | ⟨hf, hbytes, hchunk⟩
    · obtain ⟨s, hs, hgood⟩ := h.completed hc
      exact ⟨s, mem_append_left _ hs, hgood⟩
    · refine ⟨t, mem_append_right _ ?_, hf, hbytes.trans h.counters.1,
        hchunk.trans h.counters.2⟩
      simp [completedBy, hf]

/-- The reader does nothing that the invariant is about. -/
theorem Inv.reads (h : u.Inv m D) (hbody : s.body = u.snd.body) (hsame : u.snd.ot.SameChunks s.ot)
    (hcompleted : s.ot.completed = u.snd.ot.completed) :
    { u with
      snd := s
      removed := u.removed ++ []
      completions := u.completions ++ [] }.Inv m D := by
  simp only [append_nil]
  have := h.quiet (l := []) hbody hsame hcompleted
  simpa only [append_nil] using this

theorem inv_reply {r : Reply} (h : u.Inv m D) (hs : Sender.Step m D u.snd (.receive r) s)
    (hw : u.Awaited (some (.reply r))) :
    { u with
      snd := s
      removed := u.removed ++ takenBy u.snd.ot s.ot r
      completions := u.completions ++ completedBy r }.Inv m D := by
  cases hs with
  | reply r hr =>
    by_cases hreg : u.snd.registered = true
    · cases r with
      | ack a =>
        rw [Sender.handleReply_ack hreg]
        exact inv_ack h hw _
      | nack n =>
        rw [Sender.handleReply_nack hreg]
        exact h.reads rfl (sameChunks_handleNack u.snd.ot n) (u.snd.ot.handleNack_spec n).1
      | window b c =>
        rw [Sender.handleReply_window hreg]
        exact h.reads rfl ⟨rfl, rfl, rfl, rfl, rfl⟩ rfl
      | state t =>
        rw [Sender.handleReply_state hreg]
        exact inv_state h _
    · -- the transfer is over: nothing is taken from a record that stays as it is
      have hnone : takenBy u.snd.ot u.snd.ot r = [] := by
        cases r with
        | ack a => simp [takenBy]
        | _ => rfl
      rw [Sender.handleReply_unregistered hreg, hnone]
      refine h.keeps ⟨rfl, rfl, rfl, fun c hc => hc, fun k hk => ?_, fun o ho => ho,
        fun k _ hk => hk⟩ rfl rfl h.decision h.accepts (fun r hr => ?_) rfl rfl fun hc => ?_
      · exact hk.imp_right fun ⟨a, ha⟩ => ⟨a, mem_append_left _ ha⟩
      · exact h.removed r (by simpa using hr)
      · obtain ⟨s, hs, hgood⟩ := h.completed hc
        exact ⟨s, mem_append_left _ hs, hgood⟩

theorem inv_resumeAccepted {receivedBytes nextChunk : ℕ} (h : u.Inv m D) :
    (u.handleResumeAccepted m receivedBytes nextChunk).Inv m D := by
  simp only [handleResumeAccepted]
  split_ifs with hreg hoffset
  · exact h
  · have hkeeps := h.quiet (s := { u.snd with
      ot := u.snd.ot.fail "invalid transfer resume counters"
      reader := .stopped "invalid transfer resume counters" }) (l := []) rfl
      ⟨rfl, rfl, rfl, rfl, rfl⟩ rfl
    simpa only [append_nil] using hkeeps
  · refine h.keeps ⟨rfl, rfl, rfl, fun c hc => hc, fun k hk => hk,
      fun o ho => mem_append_left _ ho, fun k _ hk => hk⟩ rfl rfl
      (fun _ => mem_append_right _ mem_cons_self) ?_ h.removed rfl rfl h.completed
    exact forall_mem_append.mpr
      ⟨h.accepts, forall_mem_singleton.mpr (not_not.mp hoffset)⟩

theorem inv_resumeRejected {reason : ℕ} (h : u.Inv m D) :
    (u.handleResumeRejected reason).Inv m D := by
  rw [handleResumeRejected]
  split_ifs
  · exact h
  · have hkeeps := h.quiet (s := { u.snd with
      ot := u.snd.ot.fail ("remote rejected transfer resume: reason=" ++ toString reason) })
      (l := []) rfl ⟨rfl, rfl, rfl, rfl, rfl⟩ rfl
    simpa only [append_nil] using hkeeps

/-- The offset that a decision names is that of the chunk it names. -/
theorem offset_of_transferOffsetForChunk (hm : m.Covers D) {receivedBytes nextChunk : ℕ}
    (h : transferOffsetForChunk m.totalSize m.chunkSize nextChunk = some receivedBytes) :
    receivedBytes = m.offset nextChunk := by
  simp only [transferOffsetForChunk, ← hm.chunkCount] at h
  split_ifs at h with hzero hmore hlast hpast
  · rw [← Option.some.inj h, hlast, hm.offset_count]
  · rw [← Option.some.inj h, TransferBegin.offset, Piece.offset]
    omega

variable {answer : Option Answer}

theorem inv_step (hcov : m.sendable = true → m.Covers D) (h : u.Inv m D) (hs : Step m D u answer u')
    (hw : u.Awaited answer) : u'.Inv m D := by
  cases hs with
  | own label s hs hl hp => exact inv_own h hs hl hp
  | reply r s hs => exact inv_reply h hs hw
  | resumeAccepted b c _ => exact inv_resumeAccepted h
  | resumeRejected reason _ => exact inv_resumeRejected h
  | invalid e _ =>
    have := h.quiet (s := { u.snd with reader := .stopped e }) (l := []) rfl (.refl _) rfl
    simpa only [append_nil] using this
  | requested b c hp hsend _ =>
    have hat := h.phase
    rw [hp] at hat
    exact { h with phase := ⟨hat.1, hat.2, hsend⟩ }
  | decided hp _ _ haccepted =>
    have hat := h.phase
    rw [hp] at hat
    exact { h with phase := ⟨hat.1, hat.2.1, hat.2.2, h.decision haccepted⟩ }
  | opened b c hp =>
    have hat := h.phase
    rw [hp] at hat
    obtain ⟨hresumed, -, hsend, hin⟩ := hat
    refine { h with phase := ⟨hsend, ⟨?_, ?_⟩, fun j hj hlt => absurd hlt (Nat.not_lt.mpr hj)⟩ }
    · exact offset_of_transferOffsetForChunk (hcov hsend) (h.accepts _ hin)
    · show if u.resumed = true then (b, c) ∈ u.accepts else c = 0
      rwa [if_pos hresumed]
  | giveUp e _ =>
    exact { h with phase := trivial }

/-! ## What nil means -/

/-- The transfer is committed: what was sent, acknowledged and reported by the peer, and that no
    failure was recorded. -/
structure Committed (m : TransferBegin) (D : Bytes) (u : Upload) : Prop where
  origin : u.Origin m
  whole : ((List.range m.chunkCount).drop u.start).flatMap (m.chunk D) = D.drop u.startBytes
  sent : ∀ k, u.start ≤ k → k < m.chunkCount → ⟨k, m.chunk D k, true⟩ ∈ u.sent
  acked : ∀ k, u.start ≤ k → k < m.chunkCount →
    ∃ a, (k, a) ∈ u.removed ∧ a.chunkFrom ≤ k ∧ k ≤ a.chunkTo
  completed : ∃ s ∈ u.completions, s.failure = none ∧ s.receivedBytes = m.totalSize ∧
    s.nextChunk = m.chunkCount
  unfailed : u.snd.ot.failed = none

/-- The chunks from one on are the rest of the byte string. -/
theorem flatMap_chunks (hm : m.Covers D) (k : ℕ) :
    ((List.range m.chunkCount).drop k).flatMap (m.chunk D) = D.drop (m.offset k) := by
  have hall : (List.range m.chunkCount).flatMap (m.chunk D) = D := by
    rw [flatMap_def]
    exact hm.flatten
  by_cases hk : k ≤ m.chunkCount
  · have hfirst : ((List.range m.chunkCount).take k).flatMap (m.chunk D) =
        D.take (k * m.chunkSize) := by
      rw [take_range, Nat.min_eq_left hk, flatMap_def]
      exact Piece.flatten_pieces
    have hsplit : D = D.take (k * m.chunkSize) ++
        ((List.range m.chunkCount).drop k).flatMap (m.chunk D) := by
      rw [← hfirst, ← flatMap_append, take_append_drop, hall]
    have hdrop : D.drop (m.offset k) = D.drop (k * m.chunkSize) := by
      rw [TransferBegin.offset, Piece.offset, hm.totalSize]
      rcases Nat.le_total (k * m.chunkSize) D.length with hle | hle
      · rw [Nat.min_eq_left hle]
      · rw [Nat.min_eq_right hle, drop_length, drop_of_length_le hle]
    rw [hdrop]
    exact append_cancel_left (hsplit.symm.trans (take_append_drop _ D).symm)
  · have hlen : m.offset k = D.length := by
      have := m.offset_mono (Nat.le_of_not_le hk)
      rw [hm.offset_count, hm.totalSize] at this
      exact le_antisymm (hm.totalSize ▸ Piece.offset_le) this
    rw [drop_of_length_le (by simpa using Nat.le_of_not_le hk), hlen, drop_length]
    rfl

/-- A step to a return of nil is the end of the wait. -/
theorem returns_nil (hs : Step m D u answer u') (hbefore : u.snd.body ≠ .returned none)
    (hafter : u'.snd.body = .returned none) :
    u.phase = .body ∧ u.snd.body = .waiting ∧ u.snd.ot.failed = none ∧ u.snd.ot.pending = [] ∧
      u.snd.ot.completed = true := by
  have hreply : ∀ {r : Reply} {s : Sender}, Sender.Step m D u.snd (.receive r) s →
      s.body = u.snd.body := by
    intro r s hs
    cases hs with
    | reply r _ => exact Sender.body_handleReply u.snd r
  cases hs with
  | own label s hs hl hp =>
    have hphase : u.phase = .body :=
      hp.resolve_right fun heq => hbefore (heq.symm.trans hafter)
    cases hs with
    | acked hb hdone =>
      have hf : u.snd.ot.failed = none := Body.returned.inj hafter
      rw [hf] at hdone
      obtain ⟨hpending, hcompleted⟩ := hdone.resolve_left (by simp)
      exact ⟨hphase, hb, hf, hpending, hcompleted⟩
    | reply r _ => exact absurd rfl (hl r)
    | begin | push | encode | finish | sendEnd | giveUp => cases hafter
    | unregister | resend | resent | tick | task | skip | fail => exact absurd hafter hbefore
  | reply r s hs => exact absurd ((hreply hs).symm.trans hafter) hbefore
  | resumeAccepted b c _ =>
    refine absurd ?_ hbefore
    rw [← hafter]
    simp only [handleResumeAccepted]
    split_ifs <;> rfl
  | resumeRejected reason _ =>
    refine absurd ?_ hbefore
    rw [← hafter, handleResumeRejected]
    split_ifs <;> rfl
  | invalid | requested | decided => exact absurd hafter hbefore
  | opened | giveUp => cases hafter

theorem Inv.committed (hcov : m.sendable = true → m.Covers D) (h : u.Inv m D)
    (hs : Step m D u answer u') (hbefore : u.snd.body ≠ .returned none)
    (hafter : u'.snd.body = .returned none) : u.Committed m D := by
  obtain ⟨hphase, hbody, hfailed, hpending, hcompleted⟩ := returns_nil hs hbefore hafter
  have hat := h.phase
  rw [hphase] at hat
  have hat : u.AtBody m D u.snd.body := hat
  rw [hbody] at hat
  obtain ⟨hsend, horigin, k, hle, hsent⟩ := hat
  have hm := hcov hsend
  have hlt : ∀ j, j < m.chunkCount → j < k := by
    intro j hj
    by_contra hge
    have hmono := m.offset_mono (Nat.not_lt.mp hge)
    have hbelow := hm.offset_lt hj hj
    rw [hm.offset_count] at hbelow
    omega
  refine ⟨horigin, ?_, fun j hj hc => (hsent j hj (hlt j hc)).1, fun j hj hc => ?_,
    h.completed hcompleted, hfailed⟩
  · rw [horigin.offset]
    exact flatMap_chunks hm u.start
  · rcases (hsent j hj (hlt j hc)).2 with ⟨c, hc, -⟩ | ⟨a, ha⟩
    · rw [hpending] at hc
      cases hc
    · exact ⟨a, ha, h.removed _ ha⟩

theorem inv_fresh (id retryLimit maxInFlight maxInFlightBytes : ℕ) (hasRemoteWindow : Bool) :
    (fresh (registerOutgoing id retryLimit maxInFlight maxInFlightBytes hasRemoteWindow
      m)).Inv m D where
  phase := ⟨rfl, rfl, rfl⟩
  decision h := by cases h
  accepts _ h := by cases h
  removed _ h := by cases h
  counters := ⟨rfl, rfl⟩
  completed h := by cases h

theorem inv_again (id retryLimit maxInFlight maxInFlightBytes : ℕ) (hasRemoteWindow : Bool)
    (receivedBytes nextChunk : ℕ) :
    (again (registerOutgoing id retryLimit maxInFlight maxInFlightBytes hasRemoteWindow m)
      receivedBytes nextChunk).Inv m D where
  phase := ⟨rfl, rfl⟩
  decision h := by cases h
  accepts _ h := by cases h
  removed _ h := by cases h
  counters := ⟨rfl, rfl⟩
  completed h := by cases h

/-- A transfer of `D` whose call returns nil, of a sender whose peer waits for the frames of the
    chunks it acknowledges and otherwise sends what it likes, is committed. -/
theorem nil_committed (D : Bytes) (chunkSize flags : ℕ) (checksum : Bytes)
    (id retryLimit maxInFlight maxInFlightBytes : ℕ) (hasRemoteWindow : Bool)
    (receivedBytes nextChunk : ℕ) (u u' : Upload) :
    let m := announce D chunkSize flags checksum
    let ot := registerOutgoing id retryLimit maxInFlight maxInFlightBytes hasRemoteWindow m
    ReflTransGen (AwaitedStep m D) (fresh ot) u ∨
      ReflTransGen (AwaitedStep m D) (again ot receivedBytes nextChunk) u →
    AwaitedStep m D u u' → u.snd.body ≠ .returned none → u'.snd.body = .returned none →
      u.Committed m D := by
  intro m ot hrun hstep hbefore hafter
  have hcov : m.sendable = true → m.Covers D := covers_announce
  have hkept : ∀ u u', u.Inv m D → AwaitedStep m D u u' → u'.Inv m D :=
    fun _ _ h ⟨_, hs, hw⟩ => inv_step hcov h hs hw
  have hinv : u.Inv m D := by
    rcases hrun with hrun | hrun
    · exact Run.invariant _ (inv_fresh ..) hkept hrun
    · exact Run.invariant _ (inv_again ..) hkept hrun
  obtain ⟨answer, hs, -⟩ := hstep
  exact hinv.committed hcov hs hbefore hafter

/-- A byte is acknowledged before its frame is encoded, from a buffer that is another transfer's by
    then. -/
theorem early_ack_run : ∃ u u',
    ReflTransGen (fun u u' => ∃ answer, Step (announce [7] 1 0 []) [7] u answer u')
      (fresh (registerOutgoing 1 1 1 1 false (announce [7] 1 0 []))) u ∧
    (∃ answer, Step (announce [7] 1 0 []) [7] u answer u') ∧ u.snd.body ≠ .returned none ∧
    u'.snd.body = .returned none ∧ u.start = 0 ∧ u.sent = [⟨0, [9], true⟩] :=
  ⟨_, _,
    .head ⟨_, .own _ _ (.begin _ rfl rfl) nofun (.inl rfl)⟩ <|
    .head ⟨_, .own _ _ (.push _ 0 rfl (by decide) rfl rfl) nofun (.inl rfl)⟩ <|
    .head ⟨_, .reply (.ack ⟨0, 0, 1⟩) _ (.reply _ _ rfl)⟩ <|
    .head ⟨_, .own _ _ (.encode _ 0 [9] rfl rfl (by decide)) nofun (.inl rfl)⟩ <|
    .head ⟨_, .own _ _ (.finish _ 1 rfl (by decide)) nofun (.inl rfl)⟩ <|
    .head ⟨_, .own _ _ (.sendEnd _ rfl) nofun (.inl rfl)⟩ <|
    .single ⟨_, .reply (.state ⟨1, 1, none⟩) _ (.reply _ _ rfl)⟩,
    ⟨_, .own _ _ (.acked _ rfl (.inr ⟨rfl, rfl⟩)) nofun (.inl rfl)⟩, nofun, rfl, rfl, rfl⟩

/-- The call returns nil, and the byte was not sent. -/
theorem nil_uncommitted : ∃ u u',
    ReflTransGen (fun u u' => ∃ answer, Step (announce [7] 1 0 []) [7] u answer u')
      (fresh (registerOutgoing 1 1 1 1 false (announce [7] 1 0 []))) u ∧
    (∃ answer, Step (announce [7] 1 0 []) [7] u answer u') ∧ u.snd.body ≠ .returned none ∧
    u'.snd.body = .returned none ∧ ¬ u.Committed (announce [7] 1 0 []) [7] := by
  obtain ⟨u, u', hrun, hstep, hbefore, hafter, hstart, hsent⟩ := early_ack_run
  refine ⟨u, u', hrun, hstep, hbefore, hafter, fun h => ?_⟩
  have hfirst := h.sent 0 hstart.le (by decide)
  rw [hsent] at hfirst
  revert hfirst
  decide

/-- A byte is sent, acknowledged and reported as completed. -/
theorem awaited_run : ∃ u u',
    ReflTransGen (AwaitedStep (announce [7] 1 0 []) [7])
      (fresh (registerOutgoing 1 1 1 1 false (announce [7] 1 0 []))) u ∧
    AwaitedStep (announce [7] 1 0 []) [7] u u' ∧ u.snd.body ≠ .returned none ∧
    u'.snd.body = .returned none :=
  ⟨_, _,
    .head ⟨_, .own _ _ (.begin _ rfl rfl) nofun (.inl rfl), nofun⟩ <|
    .head ⟨_, .own _ _ (.push _ 0 rfl (by decide) rfl rfl) nofun (.inl rfl), nofun⟩ <|
    .head ⟨_, .own _ _ (.encode _ 0 [7] rfl rfl fun _ => rfl) nofun (.inl rfl), nofun⟩ <|
    .head ⟨_, .reply (.ack ⟨0, 0, 1⟩) _ (.reply _ _ rfl), nofun⟩ <|
    .head ⟨_, .own _ _ (.finish _ 1 rfl (by decide)) nofun (.inl rfl), nofun⟩ <|
    .head ⟨_, .own _ _ (.sendEnd _ rfl) nofun (.inl rfl), nofun⟩ <|
    .single ⟨_, .reply (.state ⟨1, 1, none⟩) _ (.reply _ _ rfl), nofun⟩,
    ⟨_, .own _ _ (.acked _ rfl (.inr ⟨rfl, rfl⟩)) nofun (.inl rfl), nofun⟩, nofun, rfl⟩

theorem byte_committed : ∃ u u',
    ReflTransGen (AwaitedStep (announce [7] 1 0 []) [7])
      (fresh (registerOutgoing 1 1 1 1 false (announce [7] 1 0 []))) u ∧
    AwaitedStep (announce [7] 1 0 []) [7] u u' ∧ u'.snd.body = .returned none ∧
    u.Committed (announce [7] 1 0 []) [7] := by
  obtain ⟨u, u', hrun, hstep, hbefore, hafter⟩ := awaited_run
  exact ⟨u, u', hrun, hstep, hafter,
    nil_committed [7] 1 0 [] 1 1 1 1 false 0 0 u u' (.inl hrun) hstep hbefore hafter⟩

end Upload

end Etp.Transfer
