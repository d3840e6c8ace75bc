import Etp.Session.Close

/-!
# The invariant of an orderly close

`Inv x y` relates the two sides of a close. `Local` says of each side which
states, signals and positions of its threads go together; `Link x y` says that
the frames of the protocol on their way from `y` to `x` (in the hands of the
reader of `x`, in its inbox, in the writer of `y`) are those `y` has sent and
`x` has not seen, its close first. Two further facts bound what can go wrong:
who has closed its writer or its transport has nothing left to send (`Spent`),
and a reader that has returned has nothing left to receive (`Served`).

Most moves change little of a side. `Inv.frame`, `Inv.deliver` and
`Inv.rewriter` say what is left to show of a move that keeps the frames, brings
one to the peer, or changes only the writer.
-/

namespace Etp.Close

open SessionWriter List

/-! ## The frames of the protocol -/

/-- The frames that close a session. -/
def ctl : FrameType → Option FrameType
  | .close => some .close
  | .closeAck => some .closeAck
  | _ => none

/-- The frame the reader has in its hands. -/
def Reader.hand : Reader → List FrameType
  | .got t | .authGate t | .stateGate t => [t]
  | .acked => [.closeAck]
  | _ => []

namespace Side

/-- What this side has enqueued and not yet written: its close, then its acknowledgement. -/
def pending (x : Side) : List FrameType :=
  (if x.closeSent && x.closeDone.isNone then [.close] else []) ++
    if x.ackSent && x.ackDone.isNone then [.closeAck] else []

/-- The frames of the protocol that have reached this side. -/
def arrived (x : Side) : List FrameType := (x.reader.hand ++ x.inbox).filterMap ctl

/-- What the peer `y` has sent and this side has not seen. -/
def unseen (x y : Side) : List FrameType :=
  (if y.closeSent && !x.peerCloseSeen then [.close] else []) ++
    if y.ackSent && !x.ackGot then [.closeAck] else []

/-- `CloseWith` is between moving the state and enqueueing its close. -/
def Opening (x : Side) : Prop := x.closer = .closing ∨ x.closer = .send

/-- The peer's close has been answered, up to the acknowledgement itself. -/
def Begun (x : Side) : Prop := x.finisher ≠ .idle ∨ ∃ c, x.reader = .spawn c

/-- What holds at each position of `CloseWith`. -/
def CloserFits (x : Side) : Prop :=
  match x.closer with
  | .idle | .start => x.closeSent = false ∧ x.closeDone = none
  | .closing | .send => x.closeSent = false ∧ x.closeDone = none ∧ x.state = .closing ∧ ¬x.Begun
  | .waitSent => x.closeSent = true ∧ x.closeDone ≠ some false ∧
      (x.ackGot = true → x.closeAck = true)
  | .waitAck => x.closeSent = true ∧ x.closeDone = some true ∧ (x.ackGot = true → x.closeAck = true)
  | .checkPeer => x.closeSent = true ∧ x.closeDone = some true ∧ x.ackGot = true
  | .waitPeer => x.closeSent = true ∧ x.closeDone = some true ∧ x.ackGot = true ∧
      x.peerCloseSeen = true
  | .closeWriter true | .setClosed true => x.closeSent = true ∧ x.closeDone = some true ∧
      x.ackGot = true ∧ (x.peerCloseSeen = true → x.ackDone = some true)
  | .closeTransport true => x.closeSent = true ∧ x.closeDone = some true ∧ x.ackGot = true ∧
      (x.peerCloseSeen = true → x.ackDone = some true) ∧ x.state = .closed ∧ x.tClosed = false
  | .returned true => if x.closeSent then x.closeDone = some true ∧ x.ackGot = true ∧
      (x.peerCloseSeen = true → x.ackDone = some true) ∧ x.state = .closed ∧ x.tClosed = true
      else x.Begun
  | _ => False

/-- `CloseWith` has sent its close and not yet asked for `peerCloseDone`. -/
def Waits (x : Side) : Prop :=
  x.closer = .waitSent ∨ x.closer = .waitAck ∨ x.closer = .checkPeer ∨ x.closer = .waitPeer

/-- What holds at each position of `finishPeerClose`. -/
def FinisherFits (x : Side) : Prop :=
  match x.finisher with
  | .idle => x.ackSent = false ∧ x.ackDone = none ∧ x.peerCloseDone = none
  | .send c => c = x.closeSent ∧ x.ackSent = false ∧ x.ackDone = none ∧ x.peerCloseDone = none
  | .waitSent c => c = x.closeSent ∧ x.ackSent = true ∧ x.ackDone ≠ some false ∧
      x.peerCloseDone = none
  | .closeWriter | .setClosed => x.closeSent = false ∧ x.ackSent = true ∧ x.ackDone = some true
  | .closeTransport => x.closeSent = false ∧ x.ackSent = true ∧ x.ackDone = some true ∧
      x.state = .closed
  | .finished => x.ackSent = true ∧ x.ackDone = some true ∧
      if x.closeSent then x.Waits → x.peerCloseDone = some true
      else x.state = .closed ∧ x.tClosed = true
  | _ => False

/-- What holds at each position of the reader. -/
def ReaderFits (x : Side) : Prop :=
  match x.reader with
  | .read | .got _ | .authGate _ | .stateGate _ | .handled | .acked | .readErr
  | .returned true => True
  | .handle _ => x.state = .established
  | .begin => x.peerCloseSeen = true ∧ x.finisher = .idle
  | .spawn c => x.peerCloseSeen = true ∧ x.finisher = .idle ∧ c = x.closeSent
  | _ => False

/-- The writer of a side: its counters, the frames of the protocol in the queue
    of critical items, and nothing inside it without a send queue. -/
structure WriterFits (x : Side) : Prop where
  consistent : x.writer.Consistent
  critical : OnlyIn ctl .critical x.writer
  out : outflow ctl .critical x.writer = x.pending
  direct : x.cfg.sendQueue.enabled = false → x.writer.inFlight = none ∧ ∀ p, x.writer.queue p = []
  honest : ∀ p, ∀ i ∈ x.writer.queue p, ordinary i.data = true ∨ ctl i.data ≠ none
  writing : ∀ i ∈ x.writer.inFlight, ordinary i.data = true ∨ ctl i.data ≠ none

/-- What holds of one side by itself. -/
structure Local (x : Side) : Prop where
  writer : x.WriterFits
  closer : x.CloserFits
  finisher : x.FinisherFits
  reader : x.ReaderFits
  begun : x.Begun → x.peerCloseSeen = true ∧ ¬x.Opening
  seen : x.peerCloseSeen = true → x.Begun ∨ x.reader = .begin
  state : x.state = .established ∨ x.state = .closing ∨ x.state = .closed
  established : x.state = .established ↔ x.closeSent = false ∧ ¬x.Opening ∧ ¬x.Begun
  closed : x.state = .closed →
    (x.closeSent = true ∧ x.ackGot = true ∧ (x.peerCloseSeen = true → x.ackDone = some true)) ∨
    (x.closeSent = false ∧ x.ackDone = some true)
  down : x.tClosed = true → x.state = .closed ∧ (x.closeSent = true → x.closer = .returned true)
  only : x.writer.controlOnly = true → x.state ≠ .established
  ack : x.closeAck = true → x.ackGot = true

/-- This side has sent and signalled all it will ever send. -/
def Spent (x y : Side) : Prop :=
  x.state ≠ .established ∧ ¬x.Opening ∧ (y.closeSent = true ∨ y.ackSent = true) ∧
    (y.closeSent = true → x.ackDone = some true) ∧ (x.closeSent = true → x.closeDone = some true)

/-- This side has received all it will ever receive. -/
def Served (x y : Side) : Prop :=
  (x.closeSent = true ∧ x.ackGot = true ∨ x.closeSent = false ∧ x.peerCloseSeen = true) ∧
    (y.closeSent = true → x.peerCloseSeen = true)

/-- The writer of this side has stopped, or a transport is closed. -/
abbrev Down (x y : Side) : Prop :=
  x.writer.closed = true ∨ x.writer.err.isSome = true ∨ x.tClosed = true ∨ y.tClosed = true

/-- What holds of the frames from `y` to `x`. -/
structure Link (x y : Side) : Prop where
  line : x.arrived ++ y.pending = x.unseen y
  honest : ∀ t ∈ x.reader.hand ++ x.inbox, ordinary t = true ∨ ctl t ≠ none
  seen : x.peerCloseSeen = true → y.closeSent = true
  got : x.ackGot = true → y.ackSent = true
  order : x.ackGot = true → y.closeSent = true → x.peerCloseSeen = true
  spent : x.Down y → x.Spent y
  served : x.reader = .readErr ∨ x.reader = .returned true → x.Served y

end Side

/-- The invariant of the two sides. -/
structure Inv (x y : Side) : Prop where
  here : x.Local
  there : y.Local
  inward : x.Link y
  outward : y.Link x

theorem Inv.symm {x y : Side} (h : Inv x y) : Inv y x := ⟨h.there, h.here, h.outward, h.inward⟩

variable {x y x' y' : Side} {item : SendItem FrameType} {w : SessionWriter FrameType}

/-! ## Facts about a state -/

variable {t : FrameType}

theorem ctl_of_ordinary (h : ordinary t = true) : ctl t = none := by
  cases t <;> simp_all [ordinary, ctl]

namespace Side

theorem ackSent_begun (h : x.Local) (ha : x.ackSent = true) : x.Begun := by
  refine .inl fun hf => ?_
  have := h.finisher
  simp [FinisherFits, hf, ha] at this

theorem closeDone_ne_false (h : x.Local) (hs : x.closeSent = true) : x.closeDone ≠ some false := by
  have := h.closer
  unfold CloserFits at this
  split at this <;> simp_all

theorem ackDone_ne_false (h : x.Local) : x.ackDone ≠ some false := by
  have := h.finisher
  unfold FinisherFits at this
  split at this <;> simp_all

end Side

open Side

/-- A close that was seen has been written, and its sender was told so. -/
theorem Inv.closeDone_of_seen (h : Inv x y) (hs : x.peerCloseSeen = true) :
    y.closeSent = true ∧ y.closeDone = some true := by
  have hsent := h.inward.seen hs
  refine ⟨hsent, ?_⟩
  have hfalse := closeDone_ne_false h.there hsent
  have hline := h.inward.line
  cases hd : y.closeDone with
  | some ok => cases ok <;> simp_all
  | none =>
    -- It would still be on its way.
    have hmem : FrameType.close ∈ x.unseen y := by
      rw [← hline]
      exact mem_append_right _ (by simp [pending, hsent, hd])
    simp [unseen, hs] at hmem

/-- An acknowledgement that was received has been written, and its sender was told so. -/
theorem Inv.ackDone_of_got (h : Inv x y) (hg : x.ackGot = true) :
    y.ackSent = true ∧ y.ackDone = some true := by
  have hsent := h.inward.got hg
  refine ⟨hsent, ?_⟩
  have hfalse := ackDone_ne_false h.there
  have hline := h.inward.line
  cases hd : y.ackDone with
  | some ok => cases ok <;> simp_all
  | none =>
    have hmem : FrameType.closeAck ∈ x.unseen y := by
      rw [← hline]
      exact mem_append_right _ (by simp [pending, hsent, hd])
    simp [unseen, hg] at hmem

/-- Only a close is acknowledged. -/
theorem Inv.closeSent_of_ackSent (h : Inv x y) (ha : y.ackSent = true) : x.closeSent = true :=
  h.outward.seen (h.there.begun (ackSent_begun h.there ha)).1

/-- A closed session has received all it will ever receive. -/
theorem Inv.served_of_closed (h : Inv x y) (hs : x.state = .closed) : x.Served y := by
  rcases h.here.closed hs with ⟨hc, hg, -⟩ | ⟨hc, ha⟩
  · exact ⟨.inl ⟨hc, hg⟩, h.inward.order hg⟩
  · have hsent : x.ackSent = true := by
      have := h.here.finisher
      unfold FinisherFits at this
      split at this <;> simp_all
    have hseen := (h.here.begun (ackSent_begun h.here hsent)).1
    exact ⟨.inr ⟨hc, hseen⟩, fun _ => hseen⟩

/-- Who has received all it will ever receive has nothing of the protocol on its way. -/
theorem Inv.unseen_of_served (h : Inv x y) (hs : x.Served y) : x.unseen y = [] := by
  obtain ⟨hs, hseen⟩ := hs
  have hack : y.ackSent = true → x.ackGot = true := by
    intro ha
    rcases hs with ⟨-, hg⟩ | ⟨hc, -⟩
    · exact hg
    · rw [h.closeSent_of_ackSent ha] at hc
      cases hc
  unfold unseen
  cases hcs : y.closeSent <;> cases has : y.ackSent <;> simp_all

/-- A side that closes its transport has left nothing for its peer to send. -/
theorem Inv.spent_of_closed (h : Inv x y) (hs : x.state = .closed) : y.Spent x := by
  rcases h.here.closed hs with ⟨hc, hg, ha⟩ | ⟨hc, ha⟩
  · -- Its own close was acknowledged.
    obtain ⟨hack, hdone⟩ := h.ackDone_of_got hg
    have hbegun := ackSent_begun h.there hack
    refine ⟨fun he => (h.there.established.mp he).2.2 hbegun, (h.there.begun hbegun).2, .inl hc,
      fun _ => hdone, fun hy => (h.closeDone_of_seen (h.inward.order hg hy)).2⟩
  · -- It has acknowledged its peer's close.
    have hserved := h.served_of_closed hs
    obtain ⟨hsent, hdone⟩ := h.closeDone_of_seen
      (hserved.1.elim (fun h' => absurd h'.1 (by simp [hc])) (·.2))
    have hopen : ¬y.Opening := by
      have := h.there.closer
      rintro (ho | ho) <;> simp [CloserFits, ho, hsent] at this
    have hack : x.ackSent = true := by
      have := h.here.finisher
      unfold FinisherFits at this
      split at this <;> simp_all
    refine ⟨fun he => ?_, hopen, .inr hack, fun h' => absurd h' (by simp [hc]), fun _ => hdone⟩
    simp [(h.there.established.mp he).1] at hsent

/-! ## The writer -/

/-- The dropping of a queue without frames of the protocol is noticed by nobody. -/
theorem dropQueue_eq (h : picked ctl (x.writer.queue .critical) = []) :
    x.dropQueue w = { x with writer := w } := by
  have fold : ∀ (l : List (SendItem FrameType)) (x : Side), picked ctl l = [] →
      l.foldl (fun x i => x.signal i.data false) x = x := by
    intro l
    induction l with
    | nil => exact fun _ _ => rfl
    | cons i l ih =>
      intro x hl
      rw [← singleton_append, picked_append, picked_singleton, append_eq_nil_iff] at hl
      have hsig : x.signal i.data false = x := by
        unfold signal
        split <;> simp_all [ctl]
      rw [foldl_cons, hsig]
      exact ih x hl.2
  rw [dropQueue, fold _ _ h]

theorem Side.WriterFits.picked_of_pending (h : x.WriterFits) (hp : x.pending = []) :
    picked ctl (x.writer.queue .critical) = [] := by
  have := h.out
  rw [hp, outflow, append_eq_nil_iff] at this
  exact this.2

/-- Without a send queue what is sent is written. -/
theorem Side.WriterFits.pending_direct (h : x.WriterFits) (hd : x.cfg.sendQueue.enabled = false) :
    x.pending = [] := by
  rw [← h.out, outflow, (h.direct hd).1, (h.direct hd).2]
  rfl

/-- Dropping the queue of a side with nothing of the protocol inside its writer. -/
theorem Side.WriterFits.drop (h : x.WriterFits) (hp : x.pending = [])
    (hf : w.inFlight = x.writer.inFlight) (hq : ∀ p, w.queue p = []) (hc : w.Consistent) :
    ({ x with writer := w } : Side).WriterFits := by
  have hdrop : OnlyIn ctl .critical w ∧
      (outflow ctl .critical w).Sublist (outflow ctl .critical x.writer) := outflow_drop hf hq
  refine ⟨hc, hdrop.1, ?_, fun hd => ⟨hf.trans (h.direct hd).1, hq⟩,
    fun p i hi => absurd hi (by simp [hq]), fun i hi => h.writing i (hf ▸ hi)⟩
  have hsub := hdrop.2
  rw [h.out, hp] at hsub
  exact (sublist_nil.mp hsub).trans hp.symm

/-- Closing the writer of a side that has written all its frames of the protocol. -/
theorem closeWriter_eq (h : x.WriterFits) (hp : x.pending = []) :
    ∃ w, x.closeWriter = { x with writer := w } ∧ ({ x with writer := w } : Side).WriterFits ∧
      w.controlOnly = x.writer.controlOnly := by
  unfold Side.closeWriter
  split
  · refine ⟨x.writer.close, dropQueue_eq (h.picked_of_pending hp), ?_, ?_⟩
    · rcases x.writer.close_cases with hc | ⟨hf, hq⟩
      · rw [hc]; exact h
      · exact h.drop hp hf hq (consistent_close h.consistent)
    · unfold SessionWriter.close
      split <;> rfl
  · exact ⟨x.writer, rfl, h, rfl⟩

/-- Emptying the queue of a side that has not sent anything of the protocol. -/
theorem beginClosing_eq (h : x.WriterFits) (hp : x.pending = []) :
    ∃ w, x.beginClosing = { x with writer := w } ∧ ({ x with writer := w } : Side).WriterFits ∧
      w.closed = x.writer.closed ∧ w.err = x.writer.err := by
  unfold Side.beginClosing
  split
  · refine ⟨x.writer.beginClosing, dropQueue_eq (h.picked_of_pending hp), ?_, rfl, rfl⟩
    exact h.drop hp rfl (fun _ => rfl) ⟨rfl, rfl, h.consistent.schedule⟩
  · exact ⟨x.writer, rfl, h, rfl, rfl⟩

/-! ## Moves that neither send nor receive -/

/-- What the peer knows of a side only depends on what the side has sent. -/
theorem Side.Link.congr_right (h : x.Link y) (hp : y'.pending = y.pending)
    (hc : y'.closeSent = y.closeSent) (ha : y'.ackSent = y.ackSent) (ht : y'.tClosed = y.tClosed) :
    x.Link y' := by
  obtain ⟨hline, hhon, hseen, hgot, hord, hspent, hserved⟩ := h
  refine ⟨?_, hhon, ?_, ?_, ?_, ?_, ?_⟩
  · rw [hp, hline, unseen, unseen, hc, ha]
  all_goals simp only [Down, Spent, Served, hc, ha, ht] at *; assumption

/-- And what a side knows of its peer only depends on what it has read. -/
theorem Side.Link.congr_left (h : x.Link y) (hr : x'.reader = x.reader) (hi : x'.inbox = x.inbox)
    (hseen : x'.peerCloseSeen = x.peerCloseSeen) (hgot : x'.ackGot = x.ackGot)
    (hsent : x'.closeSent = x.closeSent)
    (hspent : x'.Down y → x'.Spent y) : x'.Link y := by
  refine ⟨?_, ?_, ?_, ?_, ?_, hspent, ?_⟩
  · have := h.line
    rwa [arrived, unseen, ← hr, ← hi, ← hseen, ← hgot] at this
  · rw [hr, hi]; exact h.honest
  · rw [hseen]; exact h.seen
  · rw [hgot]; exact h.got
  · rw [hgot, hseen]; exact h.order
  · rw [Served, hr, hsent, hgot, hseen]; exact h.served

/-- The transport of a closed side may close. -/
theorem Inv.link_down (h : Inv x y) (hs : x.state = .closed) (hp : x'.pending = x.pending)
    (hc : x'.closeSent = x.closeSent) (ha : x'.ackSent = x.ackSent) : y.Link x' := by
  have hspent := h.spent_of_closed hs
  obtain ⟨hline, hhon, hseen, hgot, hord, -, hserved⟩ := h.outward
  refine ⟨?_, hhon, ?_, ?_, ?_, fun _ => ?_, ?_⟩
  · rw [hp, hline, unseen, unseen, hc, ha]
  all_goals simp only [Spent, Served, hc, ha] at *; assumption

theorem pending_nil (hc : x.closeSent = true → x.closeDone = some true)
    (ha : x.ackSent = true → x.ackDone = some true) : x.pending = [] := by
  unfold pending
  cases hcs : x.closeSent <;> cases has : x.ackSent <;> simp_all

theorem Side.WriterFits.congr (h : x.WriterFits) (hw : x'.writer = x.writer)
    (hp : x'.pending = x.pending) (hc : x'.cfg = x.cfg) : x'.WriterFits := by
  obtain ⟨h1, h2, h3, h4, h5, h6⟩ := h
  constructor
  all_goals simp only [hw, hp, hc]; assumption

/-- A move that neither sends nor receives, nor closes the transport. -/
theorem Inv.frame (h : Inv x y) (hl : x'.Local) (hr : x'.reader = x.reader)
    (hi : x'.inbox = x.inbox) (hseen : x'.peerCloseSeen = x.peerCloseSeen)
    (hgot : x'.ackGot = x.ackGot) (hsent : x'.closeSent = x.closeSent)
    (hack : x'.ackSent = x.ackSent) (hp : x'.pending = x.pending) (ht : x'.tClosed = x.tClosed)
    (hspent : x'.Down y → x'.Spent y) : Inv x' y :=
  ⟨hl, h.there, h.inward.congr_left hr hi hseen hgot hsent hspent,
    h.outward.congr_right hp hsent hack ht⟩

/-! ## Moves that send -/

theorem Side.Local.inbox (h : x.Local) (l : List FrameType) :
    ({ x with inbox := l } : Side).Local :=
  { h with writer := h.writer.congr rfl rfl rfl }

theorem arrived_inbox (y : Side) (t : FrameType) :
    ({ y with inbox := y.inbox ++ [t] } : Side).arrived = y.arrived ++ (ctl t).toList := by
  simp only [arrived, ← append_assoc, filterMap_append]
  cases h : ctl t <;> simp [h]

theorem honest_inbox (h : ∀ s ∈ y.reader.hand ++ y.inbox, ordinary s = true ∨ ctl s ≠ none)
    (ht : ordinary t = true ∨ ctl t ≠ none) :
    ∀ s ∈ y.reader.hand ++ (y.inbox ++ [t]), ordinary s = true ∨ ctl s ≠ none := by
  intro s hs
  rw [← append_assoc, mem_append, mem_singleton] at hs
  rcases hs with hs | rfl
  · exact h s hs
  · exact ht

/-- What is pushed is critical, or not of the protocol. -/
theorem Side.WriterFits.push (h : x.WriterFits) (he : x.cfg.sendQueue.enabled = true)
    (hi : ctl item.data = none ∨ item.priority = .critical)
    (hh : ordinary item.data = true ∨ ctl item.data ≠ none) (hw : x'.writer = x.writer.push item)
    (hc : x'.cfg = x.cfg) (hp : x'.pending = x.pending ++ (ctl item.data).toList) :
    x'.WriterFits := by
  refine ⟨?_, ?_, ?_, fun hd => ?_, fun p i hmem => ?_, fun i hmem => ?_⟩
  · rw [hw]; exact consistent_push h.consistent item
  · rw [hw]; exact onlyIn_push h.critical hi
  · rw [hw, outflow_push hi, h.out, hp]
  · rw [hc, he] at hd; cases hd
  · rw [hw, push_queue] at hmem
    split_ifs at hmem
    · rcases mem_append.mp hmem with hmem | hmem
      · exact h.honest p i hmem
      · rw [mem_singleton.mp hmem]; exact hh
    · exact h.honest p i hmem
  · rw [hw] at hmem; exact h.writing i hmem

/-- A frame of the protocol, or one sent by an established session, reaches the peer. -/
theorem Inv.deliver (h : Inv x y) (hl : x'.Local) (hr : x'.reader = x.reader)
    (hi : x'.inbox = x.inbox) (hseen : x'.peerCloseSeen = x.peerCloseSeen)
    (hgot : x'.ackGot = x.ackGot) (hsent : x'.closeSent = x.closeSent)
    (hack : x'.ackSent = x.ackSent) (ht : x'.tClosed = x.tClosed)
    (hp : x.pending = (ctl t).toList ++ x'.pending) (hhon : ordinary t = true ∨ ctl t ≠ none)
    (hspent : x'.Down y → x'.Spent y) : Inv x' { y with inbox := y.inbox ++ [t] } := by
  obtain ⟨m1, m2, m3, m4, m5, m6, m7⟩ := h.outward
  have hinward := h.inward.congr_left hr hi hseen hgot hsent hspent
  refine ⟨hl, h.there.inbox _, hinward.congr_right rfl rfl rfl rfl,
    ⟨?_, honest_inbox m2 hhon, ?_, ?_, ?_, ?_, ?_⟩⟩
  · rw [arrived_inbox, append_assoc, ← hp, m1, unseen, unseen, hsent, hack]
  all_goals simp only [Down, Spent, Served, hsent, hack, ht] at *; assumption

/-- A side with another writer that accepts what the old one did. -/
theorem Side.Local.rewriter (h : x.Local) (n : ℕ)
    (hw : ({ x with writer := w, budget := n } : Side).WriterFits)
    (ho : w.controlOnly = x.writer.controlOnly) :
    ({ x with writer := w, budget := n } : Side).Local :=
  { h with writer := hw, only := fun hc => h.only (ho ▸ hc) }

/-- A move that only changes the writer, and neither closes it nor opens it. -/
theorem Inv.rewriter (h : Inv x y) (n : ℕ)
    (hw : ({ x with writer := w, budget := n } : Side).WriterFits)
    (hs : w.controlOnly = x.writer.controlOnly ∧ w.closed = x.writer.closed ∧
      w.err = x.writer.err) : Inv { x with writer := w, budget := n } y := by
  refine h.frame (h.here.rewriter n hw hs.1) rfl rfl rfl rfl rfl rfl rfl rfl ?_
  rw [Down, hs.2.1, hs.2.2]
  exact h.inward.spent

/-! ## Moves of another thread -/

/-- The position of `CloseWith` still fits after a move of another thread. -/
theorem Side.CloserFits.mono (h : x.CloserFits) (hc : x'.closer = x.closer)
    (hs : x'.closeSent = x.closeSent) (hd : x'.closeDone = x.closeDone)
    (ht : x'.tClosed = x.tClosed) (hg : x.ackGot = true → x'.ackGot = true)
    (hch : (x.ackGot = true → x.closeAck = true) → x'.ackGot = true → x'.closeAck = true)
    (hseen : x.peerCloseSeen = true → x'.peerCloseSeen = true)
    (hdone : x.ackGot = true → (x.peerCloseSeen = true → x.ackDone = some true) →
      x'.peerCloseSeen = true → x'.ackDone = some true)
    (hst : x.state = .closed → x'.state = .closed)
    (hop : x.Opening → x'.state = x.state ∧ (x'.Begun → x.Begun)) (hb : x.Begun → x'.Begun) :
    x'.CloserFits := by
  unfold CloserFits at h ⊢
  rw [hc, hs, hd, ht]
  split at h
  · exact h
  · exact h
  · obtain ⟨h1, h2⟩ := hop (.inl ‹_›)
    exact ⟨h.1, h.2.1, h1.trans h.2.2.1, fun h' => h.2.2.2 (h2 h')⟩
  · obtain ⟨h1, h2⟩ := hop (.inr ‹_›)
    exact ⟨h.1, h.2.1, h1.trans h.2.2.1, fun h' => h.2.2.2 (h2 h')⟩
  · exact ⟨h.1, h.2.1, hch h.2.2⟩
  · exact ⟨h.1, h.2.1, hch h.2.2⟩
  · exact ⟨h.1, h.2.1, hg h.2.2⟩
  · exact ⟨h.1, h.2.1, hg h.2.2.1, hseen h.2.2.2⟩
  · exact ⟨h.1, h.2.1, hg h.2.2.1, hdone h.2.2.1 h.2.2.2⟩
  · exact ⟨h.1, h.2.1, hg h.2.2.1, hdone h.2.2.1 h.2.2.2⟩
  · exact ⟨h.1, h.2.1, hg h.2.2.1, hdone h.2.2.1 h.2.2.2.1, hst h.2.2.2.2.1, h.2.2.2.2.2⟩
  · split_ifs at h ⊢
    · exact ⟨h.1, hg h.2.1, hdone h.2.1 h.2.2.1, hst h.2.2.2.1, h.2.2.2.2⟩
    · exact hb h
  · exact h

/-- The position of the reader still fits after a move of another thread. -/
theorem Side.ReaderFits.mono (h : x.ReaderFits) (hr : x'.reader = x.reader)
    (hs : x'.closeSent = x.closeSent) (hseen : x.peerCloseSeen = true → x'.peerCloseSeen = true)
    (hf : x.finisher = .idle → x'.finisher = .idle)
    (hst : ∀ t, x.reader = .handle t → x.state = .established → x'.state = .established) :
    x'.ReaderFits := by
  unfold ReaderFits at h ⊢
  rw [hr, hs]
  split at h
  case h_9 t ht => exact hst t ht h
  case h_10 => exact ⟨hseen h.1, hf h.2⟩
  case h_11 => exact ⟨hseen h.1, hf h.2.1, h.2.2⟩
  all_goals exact h

/-- The position of `finishPeerClose` still fits after a move of another thread. -/
theorem Side.FinisherFits.mono (h : x.FinisherFits) (hf : x'.finisher = x.finisher)
    (hs : x'.closeSent = x.closeSent) (ha : x'.ackSent = x.ackSent) (hd : x'.ackDone = x.ackDone)
    (hst : x.state = .closed → x'.state = .closed) (ht : x.tClosed = true → x'.tClosed = true)
    (hp : x'.peerCloseDone = x.peerCloseDone ∨ x'.peerCloseDone = none)
    (hw : x'.Waits → x.Waits ∧ x'.peerCloseDone = x.peerCloseDone) : x'.FinisherFits := by
  have hnone : x.peerCloseDone = none → x'.peerCloseDone = none := by
    intro h'
    rcases hp with hp | hp
    · rw [hp, h']
    · exact hp
  unfold FinisherFits at h ⊢
  rw [hf, hs, ha, hd]
  split at h
  · exact ⟨h.1, h.2.1, hnone h.2.2⟩
  · exact ⟨h.1, h.2.1, h.2.2.1, hnone h.2.2.2⟩
  · exact ⟨h.1, h.2.1, h.2.2.1, hnone h.2.2.2⟩
  · exact h
  · exact h
  · exact ⟨h.1, h.2.1, h.2.2.1, hst h.2.2.2⟩
  · refine ⟨h.1, h.2.1, ?_⟩
    split_ifs at h ⊢
    · intro h'
      rw [(hw h').2]
      exact h.2.2 (hw h').1
    · exact ⟨hst h.2.2.1, ht h.2.2.2⟩
  · exact h

/-- A side that has answered its peer's close. -/
theorem local_of_begun (hw : x.WriterFits) (hc : x.CloserFits) (hf : x.FinisherFits)
    (hr : x.ReaderFits) (hb : x.Begun) (hseen : x.peerCloseSeen = true) (ho : ¬x.Opening)
    (hst : x.state = .closing ∨ x.state = .closed)
    (hcd : x.state = .closed →
      (x.closeSent = true ∧ x.ackGot = true ∧ (x.peerCloseSeen = true → x.ackDone = some true)) ∨
      (x.closeSent = false ∧ x.ackDone = some true))
    (hdo : x.tClosed = true →
      x.state = .closed ∧ (x.closeSent = true → x.closer = .returned true))
    (hch : x.closeAck = true → x.ackGot = true) : x.Local := by
  have he : x.state ≠ .established := by rcases hst with h | h <;> simp [h]
  exact ⟨hw, hc, hf, hr, fun _ => ⟨hseen, ho⟩, fun _ => .inl hb, .inr hst,
    ⟨fun h => absurd h he, fun h => absurd hb h.2.2⟩, hcd, hdo, fun _ => he, hch⟩

theorem Side.Local.not_established (h : x.Local) (hb : x.Begun) :
    x.state = .closing ∨ x.state = .closed := by
  rcases h.state with hs | hs
  · exact absurd hb (h.established.mp hs).2.2
  · exact hs

end Etp.Close
