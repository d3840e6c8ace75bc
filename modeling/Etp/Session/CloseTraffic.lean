import Etp.Session.CloseMoves

/-!
# The moves of the reader, the writer and the applications

The threads that carry frames keep the invariant, those of the protocol and the
ordinary ones; with the moves of `CloseWith` and `finishPeerClose` this makes
every orderly move keep it (`inv_move`).
-/

namespace Etp.Close

open SessionWriter Side List

variable {x y x' y' : Side} {item : SendItem FrameType} {w : SessionWriter FrameType}

/-! ## The reader -/

/-- The reader is not about to answer its peer's close. -/
def Reader.plain : Reader → Bool
  | .begin | .spawn _ => false
  | _ => true

theorem begun_iff (h : x.reader.plain = true) : x.Begun ↔ x.finisher ≠ .idle :=
  ⟨fun hb => hb.elim id fun ⟨c, hc⟩ => by simp [hc, Reader.plain] at h, .inl⟩

variable {l : List FrameType}

/-- A move of the reader by which nothing of the protocol is taken in. -/
theorem Inv.reader_move (h : Inv x y) {r : Reader}
    (hold : x.reader.plain = true) (hnew : r.plain = true)
    (hfit : ({ x with reader := r, inbox := l } : Side).ReaderFits)
    (harr : ({ x with reader := r, inbox := l } : Side).arrived = x.arrived)
    (hhon : ∀ t ∈ r.hand ++ l, t ∈ x.reader.hand ++ x.inbox)
    (hserved : r = .readErr ∨ r = .returned true → x.Served y) :
    Inv { x with reader := r, inbox := l } y := by
  have hb : ({ x with reader := r, inbox := l } : Side).Begun ↔ x.Begun := by
    rw [begun_iff hold, begun_iff hnew]
  refine ⟨{ h.here with
      writer := h.here.writer.congr rfl rfl rfl
      closer := ?_
      reader := hfit
      begun := fun h' => h.here.begun (hb.mp h')
      seen := fun h' => .inl (hb.mpr ((h.here.seen h').resolve_right fun h' => ?_))
      established := by rw [hb]; exact h.here.established }, h.there,
    { h.inward with
      line := by rw [harr]; exact h.inward.line
      honest := fun t ht => h.inward.honest t (hhon t ht)
      served := hserved }, h.outward.congr_right rfl rfl rfl rfl⟩
  · exact h.here.closer.mono rfl rfl rfl rfl id id id (fun _ => id) id (fun _ => ⟨rfl, hb.mp⟩)
      hb.mpr
  · simp [h', Reader.plain] at hold

/-- Such a move by which the reader keeps what it has in its hands. -/
theorem Inv.reader_keep (h : Inv x y) {old r : Reader} (hr : x.reader = old)
    (hold : old.plain = true) (hnew : r.plain = true)
    (hfit : ({ x with reader := r } : Side).ReaderFits) (hhand : r.hand = old.hand)
    (hserved : r = .readErr ∨ r = .returned true → x.Served y) :
    Inv { x with reader := r } y := by
  refine h.reader_move (l := x.inbox) (hr ▸ hold) hnew hfit ?_ ?_ hserved
  · simp [arrived, hr, hhand]
  · simp [hr, hhand]

/-- The peer has closed its transport, and all it wrote was read. -/
theorem Inv.served_of_eof (h : Inv x y) (hr : x.reader = .read) (hi : x.inbox = [])
    (ht : y.tClosed = true) : x.Served y := by
  obtain ⟨-, -, -, hyack, hyclose⟩ := h.outward.spent (.inr (.inr (.inl ht)))
  have hpend : y.pending = [] := pending_nil hyclose fun ha => hyack (h.closeSent_of_ackSent ha)
  have hun : x.unseen y = [] := by
    rw [← h.inward.line, hpend, arrived, hr, hi]; rfl
  have hseen : y.closeSent = true → x.peerCloseSeen = true := by
    intro hs
    by_contra hn
    simp [unseen, hs, hn] at hun
  have hgot : y.ackSent = true → x.ackGot = true := by
    intro hs
    by_contra hn
    simp [unseen, hs, hn] at hun
  have hacked : y.ackDone = some true → y.ackSent = true := by
    intro hd
    have := h.there.finisher
    unfold FinisherFits at this
    split at this <;> simp_all
  refine ⟨?_, hseen⟩
  cases hs : x.closeSent with
  | true => exact .inl ⟨rfl, hgot (hacked (hyack hs))⟩
  | false =>
    refine .inr ⟨rfl, ?_⟩
    rcases h.there.closed (h.there.down ht).1 with ⟨hc, -⟩ | ⟨-, ha⟩
    · exact hseen hc
    · have := h.closeSent_of_ackSent (hacked ha)
      simp [hs] at this

variable {t : FrameType}

section Inv

variable (h : Inv x y)
include h

theorem inv_read {rest : List FrameType} (hr : x.reader = .read) (hi : x.inbox = t :: rest) :
    Inv { x with inbox := rest, reader := .got t } y := by
  refine h.reader_move (hr ▸ rfl) rfl trivial ?_ ?_ (by simp)
  · simp [arrived, hr, hi, Reader.hand]
  · simp [hr, hi, Reader.hand]

theorem inv_readFails (hr : x.reader = .read)
    (ht : x.tClosed = true ∨ (x.inbox = [] ∧ y.tClosed = true)) :
    Inv { x with reader := .readErr } y := by
  refine h.reader_keep hr rfl rfl trivial rfl fun _ => ?_
  rcases ht with ht | ⟨hi, ht⟩
  · exact h.served_of_closed (h.here.down ht).1
  · exact h.served_of_eof hr hi ht

/-- The close of the peer is in the hands of the reader: it was not seen before. -/
theorem Inv.close_in_hand (hh : x.arrived = .close :: l) :
    y.closeSent = true ∧ x.peerCloseSeen = false ∧
      l ++ y.pending = if y.ackSent && !x.ackGot then [.closeAck] else [] := by
  have := h.inward.line
  rw [hh, unseen] at this
  cases hs : y.closeSent <;> cases hp : x.peerCloseSeen <;> simp_all
  all_goals split at this <;> simp_all

/-- The acknowledgement is in the hands of the reader: it is the last frame. -/
theorem Inv.ack_in_hand (hh : x.arrived = .closeAck :: l) :
    y.ackSent = true ∧ x.ackGot = false ∧ (y.closeSent = true → x.peerCloseSeen = true) ∧
      l ++ y.pending = [] := by
  have := h.inward.line
  rw [hh, unseen] at this
  cases hs : y.closeSent <;> cases hp : x.peerCloseSeen <;> cases ha : y.ackSent <;>
    cases hg : x.ackGot <;> simp_all

/-- The close of the peer passes the gates. -/
theorem inv_seen (hr : x.reader = .stateGate .close) :
    Inv { x with peerCloseSeen := true, reader := .begin } y ∧ x.peerCloseSeen = false := by
  obtain ⟨hsent, hseen, hline⟩ := h.close_in_hand (l := x.inbox.filterMap ctl)
    (by simp [arrived, hr, Reader.hand, ctl])
  refine ⟨?_, hseen⟩
  obtain ⟨hw, hcl, hfi, hre, hbe, hse, hst, hes, hcd, hdo, hon, hch⟩ := h.here
  obtain ⟨l1, l2, l3, l4, l5, l6, l7⟩ := h.inward
  have hidle : x.finisher = .idle := by
    by_contra hf
    have := (hbe (.inl hf)).1
    simp [hseen] at this
  have hnb : ∀ {z : Side}, z.finisher = x.finisher → z.reader = .begin → ¬z.Begun := by
    intro z h1 h2 hb
    rcases hb with hb | ⟨c, hb⟩
    · exact hb (h1.trans hidle)
    · simp [h2] at hb
  have hxb : ¬x.Begun := fun hb => by
    have := (hbe hb).1
    simp [hseen] at this
  -- The acknowledgement of its own close was not received before the peer's close.
  have hgot : x.ackGot = false := by
    by_contra hg
    have := l5 (by simpa using hg) hsent
    simp [hseen] at this
  refine ⟨⟨hw.congr rfl rfl rfl, ?_, hfi, ⟨rfl, hidle⟩, fun hb => absurd hb (hnb rfl rfl),
      fun _ => .inr rfl, hst, ?_, fun hs => ?_, hdo, hon, hch⟩, h.there,
    ⟨?_, ?_, fun _ => hsent, l4, fun _ _ => rfl, l6, by simp⟩,
    h.outward.congr_right rfl rfl rfl rfl⟩
  · exact hcl.mono rfl rfl rfl rfl id id (fun _ => rfl) (fun hg => by simp [hgot] at hg) id
      (fun _ => ⟨rfl, fun hb => absurd hb (hnb rfl rfl)⟩) (fun hb => absurd hb hxb)
  · exact ⟨fun he => ⟨(hes.mp he).1, (hes.mp he).2.1, hnb rfl rfl⟩,
      fun he => hes.mpr ⟨he.1, he.2.1, hxb⟩⟩
  · rcases hcd hs with ⟨-, hg, -⟩ | hr
    · simp [hgot] at hg
    · exact .inr hr
  · simpa [arrived, unseen, Reader.hand] using hline
  · intro t ht
    exact l2 t (mem_append_right _ (by simpa [Reader.hand] using ht))

/-- `beginPeerClose`, outside the opening of its own close: a collision is
    noticed exactly when the own close was sent. -/
theorem inv_begin (hr : x.reader = .begin) (hop : ¬x.Opening) : Inv x.beginPeerClose y := by
  obtain ⟨hw, hcl, hfi, hre, hbe, hse, hst, hes, hcd, hdo, hon, hch⟩ := h.here
  obtain ⟨l1, l2, l3, l4, l5, l6, l7⟩ := h.inward
  simp only [ReaderFits, hr] at hre
  obtain ⟨hseen, hidle⟩ := hre
  simp only [FinisherFits, hidle] at hfi
  have hxb : ¬x.Begun := by
    rintro (hb | ⟨c, hb⟩)
    · exact hb hidle
    · simp [hr] at hb
  have hx' : x.beginPeerClose = { x with state := .closing, reader := .spawn x.closeSent } := by
    unfold beginPeerClose
    rcases hst with hs | hs | hs
    · have := (hes.mp hs).1
      simp [hs, this]
    · have hsent : x.closeSent = true := by
        by_contra hn
        have := hes.mpr ⟨by simpa using hn, hop, hxb⟩
        simp [hs] at this
      simp [hs, hsent]
    · -- A closed session has acknowledged its peer's close already.
      rcases hcd hs with ⟨-, -, hd⟩ | ⟨-, hd⟩
      · simp [hfi.2.1] at hd
        simp [hseen] at hd
      · simp [hfi.2.1] at hd
  have hclosed : x.state ≠ .closed := by
    intro hs
    rcases hcd hs with ⟨-, -, hd⟩ | ⟨-, hd⟩
    · have := hd hseen
      simp [hfi.2.1] at this
    · simp [hfi.2.1] at hd
  rw [hx']
  refine ⟨local_of_begun (hw.congr rfl rfl rfl) ?_ ?_ ⟨hseen, hidle, rfl⟩ (.inr ⟨_, rfl⟩) hseen hop
      (.inl rfl) (by simp) (fun ht => absurd (hdo ht).1 hclosed) hch, h.there,
    ⟨?_, ?_, l3, l4, l5, fun hs => ?_, by simp⟩, h.outward.congr_right rfl rfl rfl rfl⟩
  · exact hcl.mono rfl rfl rfl rfl id id id (fun _ => id) (fun hs => absurd hs hclosed)
      (fun ho => absurd ho hop) fun _ => .inr ⟨_, rfl⟩
  · simpa [FinisherFits, hidle] using hfi
  · refine Eq.trans ?_ l1
    simp [arrived, hr, Reader.hand]
  · intro t ht
    exact l2 t (by simpa [hr, Reader.hand] using ht)
  · obtain ⟨-, h2⟩ := l6 hs
    exact ⟨by simp, h2⟩

/-- `finishPeerClose` is started. -/
theorem inv_spawn {c : Bool} (hr : x.reader = .spawn c) :
    Inv { x with finisher := .send c, reader := .handled } y := by
  obtain ⟨hw, hcl, hfi, hre, hbe, hse, hst, hes, hcd, hdo, hon, hch⟩ := h.here
  obtain ⟨l1, l2, l3, l4, l5, l6, l7⟩ := h.inward
  obtain ⟨hseen, hop⟩ := hbe (.inr ⟨c, hr⟩)
  simp only [ReaderFits, hr] at hre
  obtain ⟨-, hidle, hc⟩ := hre
  simp only [FinisherFits, hidle] at hfi
  refine ⟨local_of_begun (hw.congr rfl rfl rfl) ?_ ⟨hc, hfi⟩ trivial (.inl (by simp)) hseen hop
      (h.here.not_established (.inr ⟨c, hr⟩)) hcd hdo hch, h.there,
    ⟨?_, ?_, l3, l4, l5, l6, by simp⟩, h.outward.congr_right rfl rfl rfl rfl⟩
  · exact hcl.mono rfl rfl rfl rfl id id id (fun _ => id) id (fun ho => absurd ho hop)
      fun _ => .inl (by simp)
  · refine Eq.trans ?_ l1
    simp [arrived, hr, Reader.hand]
  · intro t ht
    exact l2 t (by simpa [hr, Reader.hand] using ht)

/-- The acknowledgement of its own close reaches the side. -/
theorem inv_acked (hr : x.reader = .acked) :
    Inv { x with closeAck := true, ackGot := true, reader := .handled } y := by
  obtain ⟨hack, hgot, hseen, hline⟩ := h.ack_in_hand (l := x.inbox.filterMap ctl)
    (by simp [arrived, hr, Reader.hand, ctl])
  have hsent := h.closeSent_of_ackSent hack
  obtain ⟨hw, hcl, hfi, hre, hbe, hse, hst, hes, hcd, hdo, hon, hch⟩ := h.here
  obtain ⟨l1, l2, l3, l4, l5, l6, l7⟩ := h.inward
  have hb : ({ x with closeAck := true, ackGot := true, reader := .handled } : Side).Begun ↔
      x.Begun := by
    rw [begun_iff rfl, begun_iff (hr ▸ rfl)]
  refine ⟨⟨hw.congr rfl rfl rfl, ?_, hfi, trivial, fun h' => hbe (hb.mp h'), fun h' => ?_, hst, ?_,
      fun hs => ?_, hdo, hon, fun _ => rfl⟩, h.there,
    ⟨?_, ?_, l3, fun _ => hack, fun _ => hseen, l6, by simp⟩, h.outward.congr_right rfl rfl rfl rfl⟩
  · exact hcl.mono rfl rfl rfl rfl (fun _ => rfl) (fun _ _ => rfl) id
      (fun hg => by simp [hgot] at hg) id (fun _ => ⟨rfl, hb.mp⟩) hb.mpr
  · exact .inl (hb.mpr ((hse h').elim id fun h' => by simp [hr] at h'))
  · rw [hb]; exact hes
  · rcases hcd hs with ⟨-, hg, -⟩ | ⟨hc, -⟩
    · simp [hgot] at hg
    · simp [hsent] at hc
  · refine hline.trans ?_
    cases hs : y.closeSent with
    | false => simp [unseen, hs]
    | true => simp [unseen, hseen hs]
  · intro t ht
    exact l2 t (mem_append_right _ (by simpa [Reader.hand] using ht))

end Inv

/-- A frame in the hands of the reader is of the protocol or ordinary; what the
    gates do with it, in an orderly run. -/
theorem authGate_eq (hg : orderly .reader x) (hr : x.reader = .authGate t)
    (ht : ordinary t = true ∨ ctl t ≠ none) : x.authGate t = .stateGate t := by
  simp only [orderly, hr] at hg
  cases t <;> simp_all [ordinary, ctl, authGate, ensureAuthenticatedFor, Except.toBool]

theorem stateGate_ordinary (hg : orderly .reader x) (hr : x.reader = .stateGate t)
    (ht : ordinary t = true) :
    x.state = .established ∧ x.stateGate t = { x with reader := .handle t } := by
  simp only [orderly, hr] at hg
  cases t <;> simp_all [ordinary, stateGate, stateAdmits]

/-- A run that ends with a failed read has received all it ever will. -/
theorem inv_readErr (h : Inv x y) (hr : x.reader = .readErr) :
    x.state ≠ .established ∧ Inv { x with reader := .returned true } y := by
  have hserved := h.inward.served (.inl hr)
  refine ⟨fun he => ?_, h.reader_keep hr rfl rfl trivial rfl fun _ => hserved⟩
  obtain ⟨hc, -, hb⟩ := h.here.established.mp he
  rcases hserved.1 with ⟨h1, -⟩ | ⟨-, h1⟩
  · simp [hc] at h1
  · rcases h.here.seen h1 with h2 | h2
    · exact hb h2
    · simp [hr] at h2

/-- What a closed session has read is not of the protocol. -/
theorem inv_got (h : Inv x y) (hr : x.reader = .got t) (hs : x.state = .closed) :
    Inv { x with reader := .returned true } y := by
  have hserved := h.served_of_closed hs
  have hnil : x.arrived = [] := by
    have := h.inward.line
    rw [h.unseen_of_served hserved, append_eq_nil_iff] at this
    exact this.1
  refine h.reader_move (l := x.inbox) (hr ▸ rfl) rfl trivial ?_ ?_ fun _ => hserved
  · rw [hnil]
    simp only [arrived, hr, Reader.hand, cons_append, nil_append] at hnil
    simp only [arrived, Reader.hand, nil_append]
    rw [filterMap_cons] at hnil
    split at hnil <;> simp_all
  · simpa [hr, Reader.hand] using fun t ht => .inr ht

/-- The gate on the state lets every frame through that an orderly run brings to it. -/
theorem inv_stateGate (h : Inv x y) (hg : orderly .reader x) (hr : x.reader = .stateGate t) :
    Inv (x.stateGate t) y := by
  have hst := h.here.state
  rcases h.inward.honest t (by simp [hr, Reader.hand]) with ht | ht
  · obtain ⟨he, heq⟩ := stateGate_ordinary hg hr ht
    rw [heq]
    refine h.reader_move (l := x.inbox) (hr ▸ rfl) rfl he ?_ ?_ (by simp)
    · simp [arrived, hr, Reader.hand, ctl_of_ordinary ht]
    · simpa [hr, Reader.hand] using fun t ht => .inr ht
  · have htc : t = .close ∨ t = .closeAck := by cases t <;> simp_all [ctl]
    rcases htc with rfl | rfl
    · obtain ⟨hinv, hseen⟩ := inv_seen h hr
      have heq : x.stateGate .close = { x with peerCloseSeen := true, reader := .begin } := by
        rcases hst with h' | h' | h' <;> simp [stateGate, stateAdmits, h', hseen]
      rw [heq]
      exact hinv
    · -- Only the own close is acknowledged, and it has moved the state.
      obtain ⟨hack, -⟩ := h.ack_in_hand (l := x.inbox.filterMap ctl)
        (by simp [arrived, hr, Reader.hand, ctl])
      have hsent := h.closeSent_of_ackSent hack
      have hne : x.state ≠ .established := fun he => by
        simp [(h.here.established.mp he).1] at hsent
      have heq : x.stateGate .closeAck = { x with reader := .acked } := by
        rcases hst with h' | h' | h' <;> simp_all [stateGate, stateAdmits]
      rw [heq]
      exact h.reader_keep hr rfl rfl trivial rfl (by simp)

theorem inv_reader (h : Inv x y) (hg : orderly .reader x) (hm : x.readerStep = some x') :
    Inv x' y := by
  have hre := h.here.reader
  unfold readerStep at hm
  unfold ReaderFits at hre
  cases hr : x.reader with
  | readErr =>
    obtain ⟨hne, hinv⟩ := inv_readErr h hr
    have hx' : x' = { x with reader := .returned true } := by
      rcases h.here.state with h' | h' | h' <;> simp_all
    exact hx' ▸ hinv
  | got t =>
    simp only [hr] at hm
    split at hm <;> obtain rfl := Option.some.inj hm
    · exact inv_got h hr ‹_›
    · exact h.reader_keep hr rfl rfl trivial rfl (by simp)
  | authGate t =>
    simp only [hr, authGate_eq hg hr (h.inward.honest t (by simp [hr, Reader.hand]))] at hm
    obtain rfl := Option.some.inj hm
    exact h.reader_keep hr rfl rfl trivial rfl (by simp)
  | handled =>
    simp only [hr] at hm
    split at hm <;> obtain rfl := Option.some.inj hm
    · exact h.reader_keep hr rfl rfl trivial rfl fun _ => h.served_of_closed ‹_›
    · exact h.reader_keep hr rfl rfl trivial rfl (by simp)
  | stateGate t =>
    obtain rfl : x.stateGate t = x' := by simpa [hr] using hm
    exact inv_stateGate h hg hr
  | handle t =>
    obtain rfl : { x with reader := .handled } = x' := by simpa [hr] using hm
    exact h.reader_keep hr rfl rfl trivial rfl (by simp)
  | begin =>
    obtain rfl : x.beginPeerClose = x' := by simpa [hr] using hm
    simp only [orderly, hr] at hg
    exact inv_begin h hr fun ho => ho.elim hg.1 hg.2
  | spawn c =>
    obtain rfl : { x with finisher := .send c, reader := .handled } = x' := by simpa [hr] using hm
    exact inv_spawn h hr
  | acked =>
    obtain rfl : { x with closeAck := true, ackGot := true, reader := .handled } = x' := by
      simpa [hr] using hm
    exact inv_acked h hr
  | read | returned ok => simp [hr] at hm
  | lost | lostState | rejecting | erring | failing | failingState | failingClose =>
    simp [hr] at hre

/-! ## The moves of the writer -/

theorem inv_pop (h : Inv x y) (hf : x.writer.inFlight = none)
    (hp : x.writer.popLocked = (some item, w)) :
    Inv { x with writer := { w with inFlight := some item } } y := by
  have hw := h.here.writer
  have hpop : OnlyIn ctl .critical { w with inFlight := some item } ∧
      outflow ctl .critical { w with inFlight := some item } = outflow ctl .critical x.writer :=
    outflow_pop hw.critical hf hp
  have hcons : w.Consistent := consistent_popLoop hw.consistent hp
  have hstat : w.controlOnly = x.writer.controlOnly ∧ w.closed = x.writer.closed ∧
      w.err = x.writer.err := popLoop_status hp
  obtain ⟨p, rest, hq, hqueue, -⟩ := popLocked_eq_some hp
  refine h.rewriter x.budget ⟨⟨hcons.items, hcons.bytes, hcons.schedule⟩, hpop.1,
    hpop.2.trans hw.out, fun hd => ?_, fun q i hi => ?_, fun i hi => ?_⟩ hstat
  · simp [(hw.direct hd).2] at hq
  · by_cases hqp : q = p
    · subst hqp
      simp only [hqueue, Function.update_self] at hi
      exact hw.honest q i (hq ▸ mem_cons_of_mem _ hi)
    · simp only [hqueue, Function.update_of_ne hqp] at hi
      exact hw.honest q i hi
  · obtain rfl := Option.mem_some_iff.mp hi
    exact hw.honest p item (hq ▸ mem_cons_self)

/-- The close is written before the acknowledgement. -/
theorem pending_eq_cons (h : x.pending = t :: l) :
    (t = .close ∧ x.closeSent = true ∧ x.closeDone = none ∧
      (x.signal .close true).pending = l) ∨
    (t = .closeAck ∧ x.ackSent = true ∧ x.ackDone = none ∧
      (x.signal .closeAck true).pending = l) := by
  unfold pending at h
  by_cases hc : (x.closeSent && x.closeDone.isNone) = true
  · rw [if_pos hc, cons_append, nil_append, List.cons.injEq] at h
    simp only [Bool.and_eq_true, Option.isNone_iff_eq_none] at hc
    exact .inl ⟨h.1.symm, hc.1, hc.2, by simpa [pending, Side.signal] using h.2⟩
  · rw [if_neg hc, nil_append] at h
    by_cases ha : (x.ackSent && x.ackDone.isNone) = true
    · rw [if_pos ha, List.cons.injEq] at h
      simp only [Bool.and_eq_true, Option.isNone_iff_eq_none] at ha
      exact .inr ⟨h.1.symm, ha.1, ha.2, by simpa [pending, Side.signal, hc] using h.2⟩
    · simp [ha] at h

/-- The writer tells `CloseWith` that its close was written. -/
theorem local_closeDone (h : x.Local) (hs : x.closeSent = true) (hd : x.closeDone = none)
    (hw : ({ x.signal .close true with writer := w }).WriterFits)
    (ho : w.controlOnly = x.writer.controlOnly) :
    ({ x.signal .close true with writer := w } : Side).Local := by
  refine { h with writer := hw, closer := ?_, only := fun hc => h.only (ho ▸ hc) }
  have := h.closer
  unfold CloserFits at this ⊢
  split at this <;> simp_all [Side.signal]

/-- The writer tells `finishPeerClose` that its acknowledgement was written. -/
theorem local_ackDone (h : x.Local) (hs : x.ackSent = true) (hd : x.ackDone = none)
    (hw : ({ x.signal .closeAck true with writer := w }).WriterFits)
    (ho : w.controlOnly = x.writer.controlOnly) :
    ({ x.signal .closeAck true with writer := w } : Side).Local := by
  refine ⟨hw, ?_, ?_, h.reader, h.begun, h.seen, h.state, h.established, fun hc => ?_, h.down,
    fun hc => h.only (ho ▸ hc), h.ack⟩
  · exact h.closer.mono rfl rfl rfl rfl id id id (fun _ _ _ => rfl) id (fun _ => ⟨rfl, id⟩) id
  · have := h.finisher
    unfold FinisherFits at this ⊢
    split at this <;> simp_all [Side.signal]
  · exact (h.closed hc).imp (fun hl => ⟨hl.1, hl.2.1, fun _ => rfl⟩) fun hr => ⟨hr.1, rfl⟩

theorem signal_of_ctl_none (ht : ctl t = none) (ok : Bool) : x.signal t ok = x := by
  unfold Side.signal
  split <;> simp_all [ctl]

theorem inv_write (h : Inv x y) (hf : x.writer.inFlight = some item) :
    Inv { x.signal item.data true with writer := { x.writer with inFlight := none } }
      { y with inbox := y.inbox ++ [item.data] } := by
  have hw := h.here.writer
  have hhon := hw.writing item hf
  have hout := hw.out
  rw [outflow_write hf] at hout
  have hspent := h.inward.spent
  -- The writer, once the first of the frames of the protocol is written.
  have fits : ∀ {z : Side}, z.cfg = x.cfg → z.writer = { x.writer with inFlight := none } →
      z.pending = outflow ctl .critical { x.writer with inFlight := none } → z.WriterFits := by
    intro z hz hzw hzp
    refine ⟨?_, ?_, ?_, ?_, ?_, ?_⟩
    all_goals simp only [hz, hzw]
    · exact ⟨hw.consistent.items, hw.consistent.bytes, hw.consistent.schedule⟩
    · exact hw.critical
    · exact hzp.symm
    · exact fun hd => ⟨trivial, (hw.direct hd).2⟩
    · exact hw.honest
    · simp
  cases hc : ctl item.data with
  | none =>
    rw [signal_of_ctl_none hc]
    rw [hc] at hout
    exact h.deliver (h.here.rewriter x.budget (fits rfl rfl hout.symm) rfl) rfl rfl rfl rfl rfl rfl
      rfl (by simp [hc]; rfl) hhon hspent
  | some t =>
    rw [hc] at hout
    rcases pending_eq_cons hout.symm with ⟨rfl, hs, hd, hp⟩ | ⟨rfl, hs, hd, hp⟩
    · have hdata : item.data = .close := by
        cases hi : item.data <;> simp_all [ctl]
      rw [hdata] at hhon ⊢
      refine h.deliver (local_closeDone h.here hs hd (fits rfl rfl hp) rfl) rfl rfl rfl rfl rfl rfl
        rfl (hout.symm.trans (congrArg _ hp.symm)) hhon fun hs => ?_
      obtain ⟨h1, h2, h3, h4, h5⟩ := hspent hs
      exact ⟨h1, h2, h3, h4, fun _ => rfl⟩
    · have hdata : item.data = .closeAck := by
        cases hi : item.data <;> simp_all [ctl]
      rw [hdata] at hhon ⊢
      refine h.deliver (local_ackDone h.here hs hd (fits rfl rfl hp) rfl) rfl rfl rfl rfl rfl rfl
        rfl (hout.symm.trans (congrArg _ hp.symm)) hhon fun hs => ?_
      obtain ⟨h1, h2, h3, h4, h5⟩ := hspent hs
      exact ⟨h1, h2, h3, fun _ => rfl, h5⟩

/-- A transport that is closed at one end only loses ordinary frames. -/
theorem inv_writeFails {e : Err} (h : Inv x y) (hf : x.writer.inFlight = some item)
    (ht : x.tClosed = true ∨ y.tClosed = true) : Inv (x.failWriter item e) y := by
  obtain ⟨hne, hop, hsome, hack, hclose⟩ := h.inward.spent (.inr (.inr ht))
  have hw := h.here.writer
  have hp : x.pending = [] :=
    pending_nil hclose fun ha => hack (h.inward.seen (h.here.begun (ackSent_begun h.here ha)).1)
  have hctl : ctl item.data = none := by
    have := hw.out
    rw [hp, outflow_write hf, append_eq_nil_iff] at this
    simpa using this.1
  have heq : x.failWriter item e = { x with writer := x.writer.writeFailed e } := by
    unfold failWriter
    rw [signal_of_ctl_none hctl, dropQueue_eq (hw.picked_of_pending hp)]
    rcases h.here.state with hs | hs | hs
    · exact absurd hs hne
    · simp [hs]
    · simp [hs]
  rw [heq]
  refine h.frame (h.here.rewriter x.budget ?_ rfl) rfl rfl rfl rfl rfl rfl rfl rfl
    fun _ => ⟨hne, hop, hsome, hack, hclose⟩
  refine ⟨⟨rfl, rfl, hw.consistent.schedule⟩, fun _ _ => rfl, hp.symm, fun _ => ⟨rfl, fun _ => rfl⟩,
    fun p i hi => ?_, fun i hi => ?_⟩
  · simp [writeFailed, releaseQueuedLocked] at hi
  · simp [writeFailed] at hi

/-! ## Ordinary frames -/

theorem inv_app {n : ℕ} {ok : Bool} (h : Inv x y) (ho : ordinary item.data = true)
    (hs : Sends item x y x' y' ok) : Inv { x' with budget := n } y' := by
  have hw := h.here.writer
  have hctl := ctl_of_ordinary ho
  cases hs with
  | queued w he hq =>
    rw [enqueue_eq_queued hq]
    exact h.rewriter n (hw.push he (.inl hctl) (.inl ho) rfl rfl (by simp [hctl]; rfl))
      ⟨rfl, rfl, rfl⟩
  | refused e he hq => exact h.rewriter n (hw.congr rfl rfl rfl) ⟨rfl, rfl, rfl⟩
  | directFails he ht => exact h.rewriter n (hw.congr rfl rfl rfl) ⟨rfl, rfl, rfl⟩
  | direct he ht =>
    rw [signal_of_ctl_none hctl]
    exact h.deliver (h.here.rewriter n (hw.congr rfl rfl rfl) rfl) rfl rfl rfl rfl rfl rfl rfl
      (by simp [hctl]; rfl) (.inl ho) h.inward.spent

/-- Where a frame is being handled its replies are not refused. -/
theorem Inv.reply_accepted (h : Inv x y) (hr : x.reader = .handle t) :
    ¬Sends item x y x' y' false := by
  have he : x.state = .established := by
    have := h.here.reader
    simpa only [ReaderFits, hr] using this
  intro hs
  cases hs with
  | refused e hen hq =>
    rcases of_enqueue_refused hq with ⟨ho, -⟩ | hcl | herr
    · exact h.here.only ho he
    · exact (h.inward.spent (.inl hcl)).1 he
    · exact (h.inward.spent (.inr (.inl herr))).1 he
  | directFails hen ht => exact (h.inward.spent (.inr (.inr ht))).1 he

/-! ## The step -/

/-- An orderly move keeps the invariant. -/
theorem inv_move {th : Thread} (h : Inv x y) (hg : orderly th x) (hm : Move th x y x' y') :
    Inv x' y' := by
  have hre := h.here.reader
  have hcl := h.here.closer
  cases hm with
  | closer _ _ _ hm => exact inv_closer h hg hm
  | sendClose _ _ _ _ ok hc hs => exact inv_sendClose h hc hs
  | closeFails _ _ hc ht => simp [CloserFits, hc, ht] at hcl
  | finisher _ _ _ hm => exact inv_finisher h hm
  | sendAck _ _ _ _ c hf hs => exact inv_sendAck h hf hs
  | ackRefused _ _ _ _ c hf hs => exact absurd hs (h.ack_accepted hf)
  | read _ _ t rest hr ht hi => exact inv_read h hr hi
  | readFails _ _ hr ht => exact inv_readFails h hr ht
  | reader _ _ _ hm => exact inv_reader h hg hm
  | rejectAuth _ _ _ _ size ok hr hs => simp [ReaderFits, hr] at hre
  | sendError _ _ _ _ size ok hr hs => simp [ReaderFits, hr] at hre
  | replyRefused _ _ _ _ t item hr ho hs => exact absurd hs (h.reply_accepted hr)
  | rateLimited | handlerFails | fatalError => exact hg.elim
  | pop _ _ item w hf hp => exact inv_pop h hf hp
  | write _ _ item hf ht => exact inv_write h hf
  | writeFails _ _ item e hf ht => exact inv_writeFails h hf ht
  | app _ _ _ _ item n ok hb ho hs => exact inv_app h ho hs

end Etp.Close
