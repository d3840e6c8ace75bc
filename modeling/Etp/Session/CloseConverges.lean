import Etp.Session.CloseTraffic

/-!
# The close protocol converges

Every move leaves less work to do (`move_weight`), so that no run of the two
sessions is infinite, orderly or not. A run that cannot go on has emptied the
writers and brought every frame to its reader (`Inv.drained`,
`Inv.reader_halted`); in an orderly run the invariant then leaves one way for
both sessions to have ended (`done_of_stuck`).

This gives the unilateral and the simultaneous close of two established
sessions, for all configurations and whatever ordinary frames are under way.
Each has a run that is not orderly in which it fails: a frame of the peer that
is judged after the state has moved, and a close of the peer that is answered
before the queue is emptied.
-/

namespace Etp.Close

open Relation SessionWriter Side List

variable {x y x' y' : Side} {item : SendItem FrameType} {w : SessionWriter FrameType}
  {th : Thread} {s s' : Sys}

/-! ## Every run ends -/

/-- The work left to `CloseWith`. Sending the close puts an item into the queue. -/
def Closer.weight : Closer → ℕ
  | .start => 23
  | .closing => 22
  | .send => 21
  | .waitSent => 10
  | .waitAck | .sendFailed => 9
  | .checkPeer | .waitFailed => 8
  | .waitPeer => 7
  | .closeWriter _ => 6
  | .setClosed _ => 5
  | .closeTransport _ => 4
  | .peerErr => 3
  | .peerErrClose | .closeErr | .sendErr => 2
  | .idle | .returned _ => 0

/-- The work left to `finishPeerClose`. -/
def Finisher.weight : Finisher → ℕ
  | .send _ => 16
  | .waitSent _ => 5
  | .closeWriter => 4
  | .setClosed | .failed => 3
  | .closeTransport | .failedClose => 2
  | .idle | .finished => 0

/-- The work left to the reader with the frame in its hands. One that answers its peer's close will
    start `finishPeerClose`; one that fails reads no further frame. -/
def Reader.weight : Reader → ℕ
  | .got _ => 37
  | .authGate _ => 36
  | .stateGate _ => 35
  | .begin => 51
  | .spawn _ => 50
  | .handle _ | .acked => 32
  | .handled => 31
  | .read => 30
  | .rejecting | .erring => 20
  | .readErr => 5
  | .lost => 4
  | .lostState | .failing => 3
  | .failingState => 2
  | .failingClose => 1
  | .returned _ => 0

/-- The work left inside the writer. -/
def writerWeight (w : SessionWriter FrameType) : ℕ :=
  10 * load (fun _ => 1) w.queue + if w.inFlight.isSome then 9 else 0

/-- The work left at a side. A frame is worth less at each station of its way; a
    close of the peer is only answered once. -/
def Side.weight (x : Side) : ℕ :=
  x.closer.weight + x.finisher.weight + x.reader.weight + (if x.peerCloseSeen then 0 else 17) +
    writerWeight x.writer + 8 * x.inbox.length + 11 * x.budget

theorem signal_eq (t : FrameType) (ok : Bool) :
    ∃ c d, x.signal t ok = { x with closeDone := c, ackDone := d } := by
  unfold Side.signal
  split
  · exact ⟨some ok, x.ackDone, rfl⟩
  · exact ⟨x.closeDone, some ok, rfl⟩
  · exact ⟨x.closeDone, x.ackDone, rfl⟩

theorem dropQueue_shape (x : Side) (w : SessionWriter FrameType) :
    ∃ c d, x.dropQueue w = { x with closeDone := c, ackDone := d, writer := w } := by
  have fold : ∀ (l : List (SendItem FrameType)) (x : Side), ∃ c d,
      l.foldl (fun x i => x.signal i.data false) x = { x with closeDone := c, ackDone := d } := by
    intro l
    induction l with
    | nil => exact fun x => ⟨x.closeDone, x.ackDone, rfl⟩
    | cons i l ih =>
      intro x
      obtain ⟨c, d, hsig⟩ := signal_eq (x := x) i.data false
      obtain ⟨c', d', hrest⟩ := ih (x.signal i.data false)
      exact ⟨c', d', by rw [foldl_cons, hrest, hsig]⟩
  obtain ⟨c, d, hf⟩ := fold (x.writer.queue .critical) x
  exact ⟨c, d, by rw [dropQueue, hf]⟩

theorem writerWeight_empty (hq : ∀ p, w.queue p = []) (hf : w.inFlight = x.writer.inFlight) :
    writerWeight w ≤ writerWeight x.writer := by
  unfold writerWeight
  rw [hf]
  simp [load, hq]

theorem writerWeight_push (w : SessionWriter FrameType) (item : SendItem FrameType) :
    writerWeight (w.push item) = writerWeight w + 10 := by
  have hf : (w.push item).inFlight = w.inFlight := rfl
  rw [writerWeight, writerWeight, load_push, hf]
  omega

/-- Closing the writer, or emptying it, changes nothing else of a side but the
    signals of what is dropped. -/
theorem closeWriter_shape (x : Side) :
    ∃ c d w, x.closeWriter = { x with closeDone := c, ackDone := d, writer := w } ∧
      writerWeight w ≤ writerWeight x.writer := by
  unfold Side.closeWriter
  split
  · obtain ⟨c, d, heq⟩ := dropQueue_shape x x.writer.close
    refine ⟨c, d, _, heq, ?_⟩
    rcases x.writer.close_cases with hc | ⟨hf, hq⟩
    · rw [hc]
    · exact writerWeight_empty hq hf
  · exact ⟨_, _, x.writer, rfl, le_rfl⟩

theorem beginClosing_shape (x : Side) :
    ∃ c d w, x.beginClosing = { x with closeDone := c, ackDone := d, writer := w } ∧
      writerWeight w ≤ writerWeight x.writer := by
  unfold Side.beginClosing
  split
  · obtain ⟨c, d, heq⟩ := dropQueue_shape x x.writer.beginClosing
    exact ⟨c, d, _, heq, writerWeight_empty (fun _ => rfl) rfl⟩
  · exact ⟨_, _, x.writer, rfl, le_rfl⟩

theorem failWriter_shape (x : Side) (item : SendItem FrameType) (e : Err) :
    ∃ c d st t, x.failWriter item e = { x with closeDone := c
                                               ackDone := d
                                               writer := x.writer.writeFailed e
                                               state := st
                                               tClosed := t } := by
  obtain ⟨c, d, hsig⟩ := signal_eq (x := x) item.data false
  unfold failWriter
  rw [hsig]
  obtain ⟨c', d', heq⟩ :=
    dropQueue_shape { x with closeDone := c, ackDone := d } (x.writer.writeFailed e)
  rw [heq]
  simp only []
  split
  all_goals exact ⟨_, _, _, _, rfl⟩

theorem closerStep_weight (h : x.closerStep = some x') : x'.weight < x.weight := by
  obtain ⟨c, d, w, hbegin, hw⟩ := beginClosing_shape x
  obtain ⟨c', d', w', hclose, hw'⟩ := closeWriter_shape x
  unfold closerStep at h
  rw [hbegin, hclose] at h
  split at h
  all_goals
    repeat' split at h
    all_goals cases h
    all_goals simp only [Side.weight, *, Closer.weight]
    all_goals grind [Closer.weight]

theorem finisherStep_weight (h : x.finisherStep = some x') : x'.weight < x.weight := by
  obtain ⟨c, d, w, hclose, hw⟩ := closeWriter_shape x
  unfold finisherStep at h
  rw [hclose] at h
  split at h
  all_goals
    repeat' split at h
    all_goals cases h
    all_goals simp only [Side.weight, *, Finisher.weight]
    all_goals grind [Finisher.weight]

theorem authGate_weight (t : FrameType) : (x.authGate t).weight < (Reader.authGate t).weight := by
  unfold Side.authGate
  split
  all_goals try split
  all_goals simp [Reader.weight]

theorem stateGate_shape (t : FrameType) :
    ∃ p r, x.stateGate t = { x with peerCloseSeen := p, reader := r } ∧
      r.weight + (if p then 0 else 17) <
        (Reader.stateGate t).weight + if x.peerCloseSeen then 0 else 17 := by
  unfold Side.stateGate
  repeat' split
  all_goals exact ⟨_, _, rfl, by simp [*, Reader.weight]⟩

theorem readerStep_weight (h : x.readerStep = some x') : x'.weight < x.weight := by
  obtain ⟨c, d, w, hclose, hw⟩ := closeWriter_shape x
  unfold readerStep beginPeerClose at h
  rw [hclose] at h
  split at h
  case h_5 t ht =>
    cases h
    have := authGate_weight (x := x) t
    simp only [Side.weight, ht]
    omega
  case h_6 t ht =>
    obtain ⟨p, r, heq, hr⟩ := stateGate_shape (x := x) t
    rw [heq] at h
    cases h
    simp only [Side.weight, ht]
    omega
  all_goals
    repeat' split at h
    all_goals cases h
    all_goals simp only [Side.weight, *, Reader.weight, Finisher.weight]
    all_goals grind [Finisher.weight]

/-- Sending an item costs less than what it is worth before. -/
theorem sends_weight {ok : Bool} (hs : Sends item x y x' y' ok) :
    x'.closer = x.closer ∧ x'.finisher = x.finisher ∧ x'.reader = x.reader ∧
      x'.budget = x.budget ∧ x'.peerCloseSeen = x.peerCloseSeen ∧
      x'.weight + y'.weight ≤ x.weight + y.weight + 10 := by
  cases hs with
  | queued w he hq =>
    rw [enqueue_eq_queued hq]
    refine ⟨rfl, rfl, rfl, rfl, rfl, ?_⟩
    simp only [Side.weight, writerWeight_push]
    omega
  | refused e he hq => exact ⟨rfl, rfl, rfl, rfl, rfl, by omega⟩
  | directFails he ht => exact ⟨rfl, rfl, rfl, rfl, rfl, by omega⟩
  | direct he ht =>
    obtain ⟨c, d, hsig⟩ := signal_eq (x := x) item.data true
    rw [hsig]
    refine ⟨rfl, rfl, rfl, rfl, rfl, ?_⟩
    simp only [Side.weight, length_append, length_singleton]
    omega

/-- Every move leaves less to do. -/
theorem move_weight (h : Move th x y x' y') : x'.weight + y'.weight < x.weight + y.weight := by
  cases h with
  | closer _ _ _ hm => exact Nat.add_lt_add_right (closerStep_weight hm) _
  | finisher _ _ _ hm => exact Nat.add_lt_add_right (finisherStep_weight hm) _
  | reader _ _ _ hm => exact Nat.add_lt_add_right (readerStep_weight hm) _
  | sendClose _ _ x' y' ok hc hs =>
    obtain ⟨h1, h2, h3, h4, h5, h6⟩ := sends_weight hs
    simp only [Side.weight, h1, h2, h3, h4, h5, hc, Closer.weight] at h6 ⊢
    cases ok <;> simp only [Bool.false_eq_true, if_false, if_true] <;> omega
  | closeFails _ _ hc ht =>
    simp only [Side.weight, hc, Closer.weight]
    omega
  | sendAck _ _ _ _ _ hf hs | ackRefused _ _ _ _ _ hf hs =>
    obtain ⟨h1, h2, h3, h4, h5, h6⟩ := sends_weight hs
    simp only [Side.weight, h1, h2, h3, h4, h5, hf, Finisher.weight] at h6 ⊢
    omega
  | read _ _ t rest hr ht hi =>
    simp only [Side.weight, hr, hi, Reader.weight, length_cons]
    omega
  | readFails _ _ hr ht =>
    simp only [Side.weight, hr, Reader.weight]
    omega
  | rejectAuth _ _ _ _ _ _ hr hs | sendError _ _ _ _ _ _ hr hs
  | replyRefused _ _ _ _ _ _ hr _ hs =>
    obtain ⟨h1, h2, h3, h4, h5, h6⟩ := sends_weight hs
    simp only [Side.weight, h1, h2, h3, h4, h5, hr, Reader.weight] at h6 ⊢
    omega
  | rateLimited _ _ t hr | handlerFails _ _ t hr | fatalError _ _ hr =>
    simp only [Side.weight, hr, Reader.weight]
    omega
  | pop _ _ item w hf hp =>
    simp only [Side.weight, writerWeight, load_pop _ hp, hf]
    simp
    omega
  | write _ _ item hf ht =>
    obtain ⟨c, d, hsig⟩ := signal_eq (x := x) item.data true
    rw [hsig]
    simp only [Side.weight, writerWeight, hf, length_append, length_singleton]
    simp
    omega
  | writeFails _ _ item e hf ht =>
    obtain ⟨c, d, st, t, heq⟩ := failWriter_shape x item e
    rw [heq]
    simp only [Side.weight, writerWeight, writeFailed, releaseQueuedLocked, hf]
    simp [load]
  | app _ _ x' y' item n ok hb ho hs =>
    obtain ⟨h1, h2, h3, h4, h5, h6⟩ := sends_weight hs
    simp only [Side.weight, h1, h2, h3, h4, h5, hb] at h6 ⊢
    omega

/-- The work left to both sides. -/
def Sys.weight (s : Sys) : ℕ := s.a.weight + s.b.weight

theorem step_weight {G : Thread → Side → Prop} (h : Step G s s') : s'.weight < s.weight := by
  cases h with
  | left th a' b' hm hg => exact move_weight hm
  | right th a' b' hm hg =>
    have := move_weight hm
    simp only [Sys.weight]
    omega

/-! ## Where a run ends -/

/-- No move of `x` is possible. -/
def Halted (x y : Side) : Prop := ∀ th x' y', ¬Move th x y x' y'

/-- The writer of a halted side is empty. -/
theorem Inv.drained (h : Inv x y) (hs : Halted x y) :
    (∀ p, x.writer.queue p = []) ∧ x.pending = [] := by
  have hf : x.writer.inFlight = none := by
    cases hf : x.writer.inFlight with
    | none => rfl
    | some item =>
      cases ht : x.tClosed with
      | false => exact absurd (.write x y item hf ht) (hs _ _ _)
      | true => exact absurd (.writeFails x y item errSessionClosed hf (.inl ht)) (hs _ _ _)
  have hq : ∀ p, x.writer.queue p = [] := by
    intro p
    by_contra hq
    obtain ⟨item, w, hp⟩ := popLocked_isSome h.here.writer.consistent hq
    exact hs _ _ _ (.pop x y item w hf hp)
  refine ⟨hq, ?_⟩
  rw [← h.here.writer.out, outflow, hf, hq]
  rfl

/-- Who wants to send a frame of the protocol is not kept waiting by an empty queue. -/
theorem sends_possible (hw : x.writer.Consistent) (hq : ∀ p, x.writer.queue p = [])
    (t : FrameType) : ∃ x' y' ok, Sends (controlItem t) x y x' y' ok := by
  cases he : x.cfg.sendQueue.enabled with
  | true =>
    cases hr : enqueue x.cfg.sendQueue x.writer (controlItem t) with
    | refused e => exact ⟨_, _, _, .refused x y e he hr⟩
    | queued w => exact ⟨_, _, _, .queued x y w he hr⟩
    | waits =>
      obtain ⟨p, hp⟩ := of_enqueue_waits hw x.cfg.fits hr
      exact absurd (hq p) hp
  | false =>
    cases ht : x.tClosed with
    | false => exact ⟨_, _, _, .direct x y he ht⟩
    | true => exact ⟨_, _, _, .directFails x y he (.inl ht)⟩

/-- The position of `finishPeerClose` at a halted side. -/
theorem Inv.finisher_halted (h : Inv x y) (hs : Halted x y) :
    x.finisher = .idle ∨ x.finisher = .finished := by
  obtain ⟨hq, hp⟩ := h.drained hs
  have hfi := h.here.finisher
  have hstep : x.finisherStep = none := by
    cases hn : x.finisherStep with
    | none => rfl
    | some x' => exact absurd (.finisher x y x' hn) (hs _ _ _)
  cases hf : x.finisher with
  | idle => exact .inl rfl
  | finished => exact .inr rfl
  | send c =>
    obtain ⟨x', y', ok, hsend⟩ :=
      sends_possible (y := y) h.here.writer.consistent hq .closeAck
    cases ok with
    | true => exact absurd (.sendAck x y x' y' c hf hsend) (hs _ _ _)
    | false => exact absurd (.ackRefused x y x' y' c hf hsend) (hs _ _ _)
  | waitSent c =>
    -- The writer has told about the acknowledgement.
    simp only [FinisherFits, hf] at hfi
    cases hd : x.ackDone with
    | none => simp [pending, hfi.2.1, hd] at hp
    | some ok => cases ok <;> simp [finisherStep, hf, hd] at hstep
  | closeWriter | setClosed | closeTransport => simp [finisherStep, hf] at hstep
  | failed | failedClose => simp [FinisherFits, hf] at hfi

/-- The position of the reader at a halted side; it has taken in everything. -/
theorem Inv.reader_halted (h : Inv x y) (hs : Halted x y) (hy : y.pending = []) :
    (x.reader = .read ∧ x.tClosed = false ∨ x.reader = .returned true) ∧ x.unseen y = [] := by
  have hre := h.here.reader
  have hstep : x.readerStep = none := by
    cases hn : x.readerStep with
    | none => rfl
    | some x' => exact absurd (.reader x y x' hn) (hs _ _ _)
  cases hr : x.reader with
  | read =>
    have ht : x.tClosed = false := by
      by_contra ht
      exact hs _ _ _ (.readFails x y hr (.inl (by simpa using ht)))
    refine ⟨.inl ⟨rfl, ht⟩, ?_⟩
    have hi : x.inbox = [] := by
      cases hi : x.inbox with
      | nil => rfl
      | cons t rest => exact absurd (.read x y t rest hr ht hi) (hs _ _ _)
    rw [← h.inward.line, hy, arrived, hr, hi]
    rfl
  | returned ok =>
    cases ok with
    | false => simp [ReaderFits, hr] at hre
    | true => exact ⟨.inr rfl, h.unseen_of_served (h.inward.served (.inr hr))⟩
  | readErr =>
    simp only [readerStep, hr] at hstep
    split at hstep <;> cases hstep
  | got t | handled =>
    simp only [readerStep, hr] at hstep
    split at hstep <;> cases hstep
  | authGate t | stateGate t | handle t | begin | spawn c | acked => simp [readerStep, hr] at hstep
  | lost | lostState | rejecting | erring | failing | failingState | failingClose =>
    simp [ReaderFits, hr] at hre

/-- A side that has seen its peer's close has acknowledged it when it halts. -/
theorem Inv.acked_halted (h : Inv x y) (hs : Halted x y) (hy : y.pending = [])
    (hsent : y.closeSent = true) :
    x.finisher = .finished ∧ x.ackSent = true ∧ x.ackDone = some true := by
  obtain ⟨hr, hun⟩ := h.reader_halted hs hy
  have hseen : x.peerCloseSeen = true := by
    by_contra hn
    simp [unseen, hsent, hn] at hun
  have hne : x.finisher ≠ .idle := by
    rcases h.here.seen hseen with (hb | ⟨c, hb⟩) | hb
    · exact hb
    · rcases hr with ⟨hr, -⟩ | hr <;> simp [hr] at hb
    · rcases hr with ⟨hr, -⟩ | hr <;> simp [hr] at hb
  have hf := (h.finisher_halted hs).resolve_left hne
  have hfi := h.here.finisher
  simp only [FinisherFits, hf] at hfi
  exact ⟨hf, hfi.1, hfi.2.1⟩

/-- The position of `CloseWith` where both sides halt. -/
theorem Inv.closer_halted (h : Inv x y) (hx : Halted x y) (hy : Halted y x) :
    x.closer = .idle ∨ x.closer = .returned true := by
  obtain ⟨hq, hp⟩ := h.drained hx
  have hpy := (h.symm.drained hy).2
  have hcl := h.here.closer
  have hstep : x.closerStep = none := by
    cases hn : x.closerStep with
    | none => rfl
    | some x' => exact absurd (.closer x y x' hn) (hx _ _ _)
  cases hc : x.closer with
  | idle => exact .inl rfl
  | returned ok =>
    cases ok with
    | false => simp [CloserFits, hc] at hcl
    | true => exact .inr rfl
  | start =>
    simp only [closerStep, hc] at hstep
    split at hstep <;> cases hstep
  | send =>
    obtain ⟨x', y', ok, hsend⟩ :=
      sends_possible (y := y) h.here.writer.consistent hq .close
    exact absurd (.sendClose x y x' y' ok hc hsend) (hx _ _ _)
  | waitSent =>
    -- The writer has told about the close.
    simp only [CloserFits, hc] at hcl
    cases hd : x.closeDone with
    | none => simp [pending, hcl.1, hd] at hp
    | some ok => simp [closerStep, hc, hd] at hstep
  | waitAck =>
    -- The acknowledgement has been sent, and received.
    simp only [CloserFits, hc] at hcl
    obtain ⟨-, hack, -⟩ := h.symm.acked_halted hy hp hcl.1
    have hun := (h.reader_halted hx hpy).2
    have hgot : x.ackGot = true := by
      by_contra hn
      simp [unseen, hack, hn] at hun
    simp [closerStep, hc, hcl.2.2 hgot] at hstep
  | waitPeer =>
    -- Its own acknowledgement has been written.
    simp only [CloserFits, hc] at hcl
    obtain ⟨hf, -, -⟩ := h.acked_halted hx hpy (h.inward.seen hcl.2.2.2)
    have hfi := h.here.finisher
    simp only [FinisherFits, hf, hcl.1, if_true] at hfi
    simp [closerStep, hc, hfi.2.2 (.inr (.inr (.inr hc)))] at hstep
  | closing | checkPeer | closeWriter acked | setClosed acked | closeTransport acked =>
    simp [closerStep, hc] at hstep
  | sendFailed | waitFailed | sendErr | peerErr | peerErrClose | closeErr =>
    simp [CloserFits, hc] at hcl

/-- Where both sides halt, a close has been sent if `CloseWith` was called. -/
theorem Inv.sent_halted (h : Inv x y) (hx : Halted x y) (hy : Halted y x)
    (hc : x.closer ≠ .idle) : x.closeSent = true ∨ y.closeSent = true := by
  have hcl := h.here.closer
  simp only [CloserFits, (h.closer_halted hx hy).resolve_left hc] at hcl
  split_ifs at hcl with hs
  · exact .inl hs
  · exact .inr (h.inward.seen (h.here.begun hcl).1)

/-- A side is closed cleanly. -/
structure Side.Done (x y : Side) : Prop where
  state : x.state = .closed
  run : x.reader = .returned true
  close : x.closer = .idle ∨ x.closer = .returned true
  acked : y.closeSent = true → x.ackDone = some true ∧ y.ackGot = true

/-- Where both sides halt after a close, they are closed cleanly. -/
theorem Inv.done_halted (h : Inv x y) (hx : Halted x y) (hy : Halted y x)
    (hs : x.closeSent = true ∨ y.closeSent = true) : x.Done y := by
  have hpx := (h.drained hx).2
  have hpy := (h.symm.drained hy).2
  have hdown : x.state = .closed ∧ x.tClosed = true := by
    by_cases hsent : x.closeSent = true
    · have hcl := h.here.closer
      rcases h.closer_halted hx hy with hc | hc
      · simp [CloserFits, hc, hsent] at hcl
      · simp only [CloserFits, hc, hsent, if_true] at hcl
        exact hcl.2.2.2
    · obtain ⟨hf, -, -⟩ := h.acked_halted hx hpy (hs.resolve_left hsent)
      have hfi := h.here.finisher
      simp only [FinisherFits, hf, if_neg hsent] at hfi
      exact hfi.2.2
  obtain ⟨hr, hun⟩ := h.reader_halted hx hpy
  refine ⟨hdown.1, hr.resolve_left fun hr => by simp [hdown.2] at hr, h.closer_halted hx hy,
    fun hsent => ?_⟩
  obtain ⟨-, hack, hd⟩ := h.acked_halted hx hpy hsent
  refine ⟨hd, ?_⟩
  have hun' := (h.symm.reader_halted hy hpx).2
  by_contra hn
  simp [unseen, hack, hn] at hun'

/-! ## The system -/

/-- The invariant of a run: that of the two sides, and who has called `CloseWith`. -/
structure Sys.Inv (a b : Bool) (s : Sys) : Prop where
  sides : Close.Inv s.a s.b
  left : s.a.closer = .idle ↔ a = false
  right : s.b.closer = .idle ↔ b = false

theorem closerStep_idle (h : x.closerStep = some x') : x.closer ≠ .idle ∧ x'.closer ≠ .idle := by
  unfold closerStep at h
  constructor
  · intro hc
    simp [hc] at h
  · split at h
    all_goals
      repeat' split at h
      all_goals cases h
      all_goals simp only []
      all_goals simp

theorem finisherStep_closer (h : x.finisherStep = some x') : x'.closer = x.closer := by
  obtain ⟨c, d, w, hclose, -⟩ := closeWriter_shape x
  unfold finisherStep at h
  rw [hclose] at h
  repeat' split at h
  all_goals cases h
  all_goals rfl

theorem readerStep_closer (h : x.readerStep = some x') : x'.closer = x.closer := by
  obtain ⟨c, d, w, hclose, -⟩ := closeWriter_shape x
  unfold readerStep beginPeerClose at h
  rw [hclose] at h
  split at h
  case h_6 t ht =>
    obtain ⟨p, r, heq, -⟩ := stateGate_shape (x := x) t
    rw [heq] at h
    cases h
    rfl
  all_goals
    repeat' split at h
    all_goals cases h
    all_goals rfl

/-- No move begins a `CloseWith`. -/
theorem move_idle (h : Move th x y x' y') :
    (x'.closer = .idle ↔ x.closer = .idle) ∧ (y'.closer = .idle ↔ y.closer = .idle) := by
  have sends : ∀ {item : SendItem FrameType} {x y x' y' : Side} {ok : Bool},
      Sends item x y x' y' ok → x'.closer = x.closer ∧ y'.closer = y.closer := by
    intro item x y x' y' ok hs
    refine ⟨(sends_weight hs).1, ?_⟩
    cases hs <;> rfl
  cases h with
  | closer _ _ _ hm =>
    obtain ⟨h1, h2⟩ := closerStep_idle hm
    simp [h1, h2]
  | finisher _ _ _ hm => simp [finisherStep_closer hm]
  | reader _ _ _ hm => simp [readerStep_closer hm]
  | sendClose _ _ _ _ ok hc hs =>
    rw [(sends hs).2, hc]
    cases ok <;> simp
  | closeFails _ _ hc ht => simp [hc]
  | sendAck _ _ _ _ c hf hs => simp [sends hs]
  | ackRefused _ _ _ _ c hf hs => simp [sends hs]
  | read _ _ t rest hr ht hi => simp
  | readFails _ _ hr ht => simp
  | rejectAuth _ _ _ _ size ok hr hs => simp [sends hs]
  | sendError _ _ _ _ size ok hr hs => simp [sends hs]
  | replyRefused _ _ _ _ t item hr ho hs => simp [sends hs]
  | rateLimited | handlerFails | fatalError => simp
  | pop _ _ item w hf hp => simp
  | write _ _ item hf ht =>
    obtain ⟨c, d, hsig⟩ := signal_eq (x := x) item.data true
    simp [hsig]
  | writeFails _ _ item e hf ht =>
    obtain ⟨c, d, st, t, heq⟩ := failWriter_shape x item e
    simp [heq]
  | app _ _ _ _ item n ok hb ho hs => simp [sends hs]

theorem inv_step {a b : Bool} (h : s.Inv a b) (hm : Step orderly s s') : s'.Inv a b := by
  obtain ⟨hi, hl, hr⟩ := h
  cases hm with
  | left th a' b' hm hg =>
    obtain ⟨h1, h2⟩ := move_idle hm
    exact ⟨inv_move hi hg hm, h1.trans hl, h2.trans hr⟩
  | right th a' b' hm hg =>
    obtain ⟨h1, h2⟩ := move_idle hm
    exact ⟨(inv_move hi.symm hg hm).symm, h2.trans hl, h1.trans hr⟩

theorem halted_of_stuck (h : Run.Stuck (Step free) s) : Halted s.a s.b ∧ Halted s.b s.a :=
  ⟨fun _ _ _ hm => h _ (.left s _ _ _ hm trivial), fun _ _ _ hm => h _ (.right s _ _ _ hm trivial)⟩

/-- A run that cannot go on, after some call of `CloseWith`, has closed both sides. -/
theorem done_of_stuck {a b : Bool} (h : s.Inv a b) (hs : Run.Stuck (Step free) s)
    (hc : a = true ∨ b = true) : s.a.Done s.b ∧ s.b.Done s.a := by
  obtain ⟨hx, hy⟩ := halted_of_stuck hs
  have hsent : s.a.closeSent = true ∨ s.b.closeSent = true := by
    rcases hc with hc | hc
    · exact h.sides.sent_halted hx hy (by simp [h.left, hc])
    · exact (h.sides.symm.sent_halted hy hx (by simp [h.right, hc])).symm
  exact ⟨h.sides.done_halted hx hy hsent, h.sides.symm.done_halted hy hx hsent.symm⟩

/-! ## Established sessions -/

/-- The frames of an established session that are under way: in its send queue,
    written by its peer, and still to be sent. -/
structure Traffic (cfg : Config) where
  writer : SessionWriter FrameType := {}
  inbox : List FrameType := []
  budget : ℕ := 0
  consistent : writer.Consistent := by exact consistent_init
  accepts : writer.controlOnly = false ∧ writer.closed = false ∧ writer.err = none := by
    exact ⟨rfl, rfl, rfl⟩
  direct : cfg.sendQueue.enabled = false → writer.inFlight = none ∧ ∀ p, writer.queue p = [] := by
    exact fun _ => ⟨rfl, fun _ => rfl⟩
  queued : ∀ p, ∀ i ∈ writer.queue p, ordinary i.data = true := by
    exact fun _ _ h => absurd h not_mem_nil
  writing : ∀ i ∈ writer.inFlight, ordinary i.data = true := by
    exact fun _ h => absurd h (Option.not_mem_none _)
  arriving : ∀ t ∈ inbox, ordinary t = true := by decide

/-- An established session with its traffic, whose `CloseWith` is called or not. -/
def established (cfg : Config) (t : Traffic cfg) (called : Bool) : Side where
  cfg := cfg
  writer := t.writer
  inbox := t.inbox
  budget := t.budget
  closer := if called then .start else .idle

theorem picked_ordinary {l : List (SendItem FrameType)} (h : ∀ i ∈ l, ordinary i.data = true) :
    picked ctl l = [] :=
  filterMap_eq_nil_iff.mpr fun i hi => ctl_of_ordinary (h i hi)

theorem local_established (cfg : Config) (t : Traffic cfg) (called : Bool) :
    (established cfg t called).Local := by
  have hop : ¬(established cfg t called).Opening := by
    cases called <;> simp [Opening, established]
  have hb : ¬(established cfg t called).Begun := by simp [Begun, established]
  refine ⟨⟨t.consistent, fun q _ => picked_ordinary (t.queued q), ?_, t.direct,
      fun p i hi => .inl (t.queued p i hi), fun i hi => .inl (t.writing i hi)⟩,
    ?_, ⟨rfl, rfl, rfl⟩, trivial, fun h => absurd h hb, by simp [established], .inl rfl,
    ⟨fun _ => ⟨rfl, hop, hb⟩, fun _ => rfl⟩, by simp [established], by simp [established], ?_,
    by simp [established]⟩
  · refine append_eq_nil_iff.mpr ⟨picked_ordinary fun i hi => t.writing i ?_,
      picked_ordinary (t.queued .critical)⟩
    exact Option.mem_toList.mp hi
  · cases called <;> simp [CloserFits, established]
  · intro h
    have := t.accepts.1
    simp [established, this] at h

theorem inv_established (ca cb : Config) (ta : Traffic ca) (tb : Traffic cb) (a b : Bool) :
    (⟨established ca ta a, established cb tb b⟩ : Sys).Inv a b := by
  have link : ∀ {c c' : Config} (t : Traffic c) (t' : Traffic c') (d d' : Bool),
      (established c t d).Link (established c' t' d') := by
    intro c c' t t' d d'
    refine ⟨?_, fun s hs => .inl (t.arriving s hs), by simp [established], by simp [established],
      by simp [established], ?_, by simp [established]⟩
    · exact append_eq_nil_iff.mpr ⟨filterMap_eq_nil_iff.mpr fun s hs =>
        ctl_of_ordinary (t.arriving s hs), rfl⟩
    · obtain ⟨-, h1, h2⟩ := t.accepts
      simp [established, h1, h2]
  refine ⟨⟨local_established ca ta a, local_established cb tb b, link ta tb a b, link tb ta b a⟩,
    ?_, ?_⟩
  · cases a <;> simp [established]
  · cases b <;> simp [established]

theorem converges_established (ca cb : Config) (ta : Traffic ca) (tb : Traffic cb) {a b : Bool}
    (hc : a = true ∨ b = true) {Final : Sys → Prop}
    (hf : ∀ s : Sys, s.Inv a b → s.a.Done s.b ∧ s.b.Done s.a → Final s) :
    Run.Converges (Step orderly) (Step free) Final
      ⟨established ca ta a, established cb tb b⟩ :=
  Run.converges_of_measure Sys.weight (fun _ _ => step_weight) (inv_established ca cb ta tb a b)
    (fun _ _ => inv_step) fun s h hs => hf s h (done_of_stuck h hs hc)

/-- The unilateral close converges in every orderly run, whatever is under way:
    every run ends, and where it ends the `CloseWith` and the `Run` of the side
    that closes have returned without an error, and both sessions are closed. -/
theorem unilateral_close_converges (ca cb : Config) (ta : Traffic ca) (tb : Traffic cb) :
    Run.Converges (Step orderly) (Step free)
      (fun s => s.a.closer = .returned true ∧ s.a.reader = .returned true ∧
        s.a.state = .closed ∧ s.b.state = .closed)
      ⟨established ca ta true, established cb tb false⟩ := by
  refine converges_established ca cb ta tb (.inl rfl) fun s hi ⟨ha, hb⟩ => ?_
  have hcalled : s.a.closer ≠ .idle := by simp [hi.left]
  exact ⟨ha.close.resolve_left hcalled, ha.run, ha.state, hb.state⟩

theorem step_reader {s : Sys} {x : Side} (h : s.a.readerStep = some x) :
    Step free s { s with a := x } :=
  .left _ .reader _ _ (.reader _ _ _ h) trivial

/-- A frame of the peer that is read after `CloseWith` has moved the state fails
    the session that closes, with an error of its `Run`. -/
theorem crossing_frame_fails :
    ∃ s, ReflTransGen (Step free)
      ⟨established { role := .client } { inbox := [.data] } true,
        established { role := .server } {} false⟩ s ∧
      s.a.reader = .returned false ∧ s.a.state = .failed := by
  refine ⟨_, .head (.left _ .closer _ _ (.closer _ _ _ rfl) trivial) <|
    .head (.left _ .reader _ _ (.read _ _ .data [] rfl rfl rfl) trivial) <|
    .head (step_reader rfl) <| .head (step_reader rfl) <|
    .head (step_reader rfl) <|
    .head (.left _ .reader _ _ (.sendError _ _ _ _ 100 true rfl (.queued _ _ _ rfl rfl)) trivial) <|
    .head (step_reader rfl) <| .head (step_reader rfl) <|
    .single (step_reader rfl), rfl, rfl⟩

/-- The simultaneous close converges in every orderly run: every run ends, and
    where it ends each close that was sent has an acknowledgement that was written
    and received, both calls of `CloseWith` have returned without an error, and both
    sessions are closed. Neither ever fails. -/
theorem simultaneous_close_converges (ca cb : Config) (ta : Traffic ca) (tb : Traffic cb) :
    Run.Converges (Step orderly) (Step free)
      (fun s => (s.b.closeSent = true → s.a.ackDone = some true ∧ s.b.ackGot = true) ∧
        (s.a.closeSent = true → s.b.ackDone = some true ∧ s.a.ackGot = true) ∧
        s.a.closer = .returned true ∧ s.b.closer = .returned true ∧
        s.a.state = .closed ∧ s.b.state = .closed)
      ⟨established ca ta true, established cb tb true⟩ ∧
    ∀ s, ReflTransGen (Step orderly) ⟨established ca ta true, established cb tb true⟩ s →
      s.a.state ≠ .failed ∧ s.b.state ≠ .failed := by
  constructor
  · refine converges_established ca cb ta tb (.inl rfl) fun s hi ⟨ha, hb⟩ => ?_
    have hcalled : s.a.closer ≠ .idle ∧ s.b.closer ≠ .idle := by simp [hi.left, hi.right]
    exact ⟨ha.acked, hb.acked, ha.close.resolve_left hcalled.1, hb.close.resolve_left hcalled.2,
      ha.state, hb.state⟩
  · intro s hs
    have hi := Run.invariant (Sys.Inv true true) (inv_established ca cb ta tb true true)
      (fun _ _ => inv_step) hs
    have hne : ∀ {x : Side}, x.Local → x.state ≠ .failed := by
      intro x hx
      rcases hx.state with h | h | h <;> simp [h]
    exact ⟨hne hi.sides.here, hne hi.sides.there⟩

/-- The peer's close is answered while the own `CloseWith` is about to empty the
    queue: the acknowledgement is dropped, and the session fails. -/
theorem dropped_ack_fails :
    ∃ s, ReflTransGen (Step free)
      ⟨established { role := .client } {} true, established { role := .server } {} true⟩ s ∧
      s.a.ackDone = some false ∧ s.a.state = .failed := by
  refine ⟨_, .head (.left _ .closer _ _ (.closer _ _ _ rfl) trivial) <|
    .head (.right _ .closer _ _ (.closer _ _ _ rfl) trivial) <|
    .head (.right _ .closer _ _ (.closer _ _ _ rfl) trivial) <|
    .head (.right _ .closer _ _ (.sendClose _ _ _ _ true rfl (.queued _ _ _ rfl rfl)) trivial) <|
    .head (.right _ .writer _ _ (.pop _ _ _ _ rfl rfl) trivial) <|
    .head (.right _ .writer _ _ (.write _ _ _ rfl rfl) trivial) <|
    .head (.left _ .reader _ _ (.read _ _ .close [] rfl rfl rfl) trivial) <|
    .head (step_reader rfl) <| .head (step_reader rfl) <|
    .head (step_reader rfl) <| .head (step_reader rfl) <|
    .head (step_reader rfl) <|
    .head (.left _ .finisher _ _ (.sendAck _ _ _ _ true rfl (.queued _ _ _ rfl rfl)) trivial) <|
    .head (.left _ .closer _ _ (.closer _ _ _ rfl) trivial) <|
    .head (.left _ .finisher _ _ (.finisher _ _ _ rfl) trivial) <|
    .single (.left _ .finisher _ _ (.finisher _ _ _ rfl) trivial), rfl, rfl⟩

end Etp.Close
