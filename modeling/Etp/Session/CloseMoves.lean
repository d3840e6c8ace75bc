import Etp.Session.CloseInvariant

/-!
# The moves of `CloseWith` and `finishPeerClose`

The two goroutines that send the frames of the protocol keep the invariant.
`CloseWith` sends its close while nothing of the protocol is inside its writer
(`Inv.opening`), which is what an answer to the peer's close in between would
break; `finishPeerClose` sends its acknowledgement through a writer that is
still open (`Inv.acking`).
-/

namespace Etp.Close

open SessionWriter Side

variable {x y x' y' : Side} {w : SessionWriter FrameType}

/-! ## `CloseWith` -/

/-- A side that has sent its close. -/
theorem local_of_sent (hw : x.WriterFits) (hc : x.CloserFits) (hf : x.FinisherFits)
    (hr : x.ReaderFits) (hb : x.Begun → x.peerCloseSeen = true)
    (hse : x.peerCloseSeen = true → x.Begun ∨ x.reader = .begin) (hs : x.closeSent = true)
    (ho : ¬x.Opening) (hst : x.state = .closing ∨ x.state = .closed)
    (hcd : x.state = .closed →
      x.ackGot = true ∧ (x.peerCloseSeen = true → x.ackDone = some true))
    (hdo : x.tClosed = true → x.state = .closed ∧ x.closer = .returned true)
    (hch : x.closeAck = true → x.ackGot = true) : x.Local := by
  have he : x.state ≠ .established := by rcases hst with h | h <;> simp [h]
  exact ⟨hw, hc, hf, hr, fun h => ⟨hb h, ho⟩, hse, .inr hst,
    ⟨fun h => absurd h he, fun h => by simp [hs] at h⟩, fun h => .inl ⟨hs, hcd h⟩,
    fun h => ⟨(hdo h).1, fun _ => (hdo h).2⟩, fun _ => he, hch⟩

theorem Side.Local.sent_state (h : x.Local) (hs : x.closeSent = true) :
    x.state = .closing ∨ x.state = .closed :=
  h.state.resolve_left fun he => by simp [(h.established.mp he).1] at hs

section Inv

variable (h : Inv x y)
include h

/-- A move of `CloseWith` after it has sent its close, up to the closing of the
    transport. Its writer is closed only once nothing is left to send. -/
theorem Inv.closer_move {c : Closer} {k : Bool} {p : Option Bool} {st : SessionState}
    (hs : x.closeSent = true) (hret : x.closer ≠ .returned true)
    (hw : ({ x with closer := c, closeAck := k, peerCloseDone := p, state := st, writer := w } :
      Side).WriterFits)
    (hcl : ({ x with closer := c, closeAck := k, peerCloseDone := p, state := st, writer := w } :
      Side).CloserFits)
    (hc : c ≠ .closing ∧ c ≠ .send)
    (hst : st = x.state ∨
      st = .closed ∧ x.ackGot = true ∧ (x.peerCloseSeen = true → x.ackDone = some true))
    (hk : k = true → x.ackGot = true) (hp : p = x.peerCloseDone ∨ p = none)
    (hwait : ({ x with closer := c } : Side).Waits → x.Waits ∧ p = x.peerCloseDone)
    (hclosed : w.closed = x.writer.closed ∧ w.err = x.writer.err ∨ x.Spent y) :
    Inv { x with closer := c, closeAck := k, peerCloseDone := p, state := st, writer := w } y := by
  have ht : x.tClosed = false := by
    by_contra ht
    exact hret ((h.here.down (by simpa using ht)).2 hs)
  have hstate := h.here.sent_state hs
  have hstate' : st = .closing ∨ st = .closed := by
    rcases hst with rfl | ⟨rfl, -⟩
    · exact hstate
    · exact .inr rfl
  have hmono : x.state = .closed → st = .closed := by
    intro h'
    rcases hst with rfl | ⟨rfl, -⟩
    · exact h'
    · rfl
  have hop : ¬({ x with
      closer := c
      closeAck := k
      peerCloseDone := p
      state := st
      writer := w } : Side).Opening := fun h' => h'.elim hc.1 hc.2
  refine h.frame (local_of_sent hw hcl ?_ ?_ (fun hb => (h.here.begun hb).1) h.here.seen hs hop
    hstate' (fun h' => ?_) (fun h' => by simp [ht] at h') hk) rfl rfl rfl rfl rfl rfl rfl rfl
    fun h' => ?_
  · exact h.here.finisher.mono rfl rfl rfl rfl hmono id hp hwait
  · refine h.here.reader.mono rfl rfl id id fun _ _ he => ?_
    rcases hstate with h' | h' <;> simp [h'] at he
  · rcases hst with rfl | ⟨-, h1, h2⟩
    · rcases h.here.closed h' with ⟨-, h1, h2⟩ | ⟨h1, -⟩
      · exact ⟨h1, h2⟩
      · simp [hs] at h1
    · exact ⟨h1, h2⟩
  · have hspent : x.Spent y := by
      rcases hclosed with ⟨h1, h2⟩ | hspent
      · rw [Down, h1, h2] at h'
        exact h.inward.spent h'
      · exact hspent
    refine ⟨?_, hop, hspent.2.2⟩
    rcases hstate' with h' | h' <;> simp [h']

/-- `beginLocalClose` of an established session. -/
theorem inv_start (hc : x.closer = .start) (he : x.state = .established)
    (hr : ∀ t, x.reader ≠ .handle t) : Inv { x with closer := .closing, state := .closing } y := by
  obtain ⟨hw, hcl, hfi, hre, hbe, hse, hst, hes, hcd, hdo, hon, hch⟩ := h.here
  simp only [CloserFits, hc] at hcl
  have hb := (hes.mp he).2.2
  have hne : x.state ≠ .closed := by simp [he]
  refine h.frame ⟨hw.congr rfl rfl rfl, ⟨hcl.1, hcl.2, rfl, hb⟩, ?_, ?_, fun h' => absurd h' hb,
    hse, .inr (.inl rfl), ?_, by simp, fun ht => absurd (hdo ht).1 hne, by simp, hch⟩
    rfl rfl rfl rfl rfl rfl rfl rfl fun hs => ?_
  · refine hfi.mono rfl rfl rfl rfl (fun h' => absurd h' hne) id (.inl rfl) fun hw => ?_
    simp [Waits] at hw
  · exact hre.mono rfl rfl id id fun t ht => absurd ht (hr t)
  · exact ⟨by simp, fun h' => absurd (.inl rfl) h'.2.1⟩
  · exact absurd he (h.inward.spent hs).1

/-- `beginLocalClose` of a session that is closing or closed: its peer's close was answered. -/
theorem inv_skip (hc : x.closer = .start) (he : x.state ≠ .established) :
    Inv { x with closer := .returned true } y := by
  obtain ⟨hw, hcl, hfi, hre, hbe, hse, hst, hes, hcd, hdo, hon, hch⟩ := h.here
  simp only [CloserFits, hc] at hcl
  have hop : ¬x.Opening := by simp [Opening, hc]
  have hb : x.Begun := by
    by_contra hb
    exact he (hes.mpr ⟨hcl.1, hop, hb⟩)
  refine h.frame (local_of_begun (hw.congr rfl rfl rfl) ?_ ?_ hre hb (hbe hb).1
    (by simp [Opening]) (hst.resolve_left he) hcd (fun ht => ⟨(hdo ht).1, fun _ => rfl⟩) hch)
    rfl rfl rfl rfl rfl rfl rfl rfl fun hs => ?_
  · simp only [CloserFits, hcl.1, Bool.false_eq_true, if_false]
    exact hb
  · refine hfi.mono rfl rfl rfl rfl id id (.inl rfl) fun hw => ?_
    simp [Waits] at hw
  · exact ⟨he, by simp [Opening], (h.inward.spent hs).2.2⟩

/-- `writer.beginClosing` before the close is sent: nothing of the protocol is lost. -/
theorem inv_closing (hc : x.closer = .closing) : Inv { x.beginClosing with closer := .send } y := by
  obtain ⟨hw, hcl, hfi, hre, hbe, hse, hst, hes, hcd, hdo, hon, hch⟩ := h.here
  simp only [CloserFits, hc] at hcl
  have hp : x.pending = [] := pending_nil (by simp [hcl.1])
    (fun ha => absurd (ackSent_begun h.here ha) hcl.2.2.2)
  obtain ⟨w, heq, hw', hclosed, herr⟩ := beginClosing_eq hw hp
  have hne : x.state ≠ .established := by simp [hcl.2.2.1]
  rw [heq]
  refine h.frame ⟨hw'.congr rfl rfl rfl, hcl, ?_, hre, fun hb => absurd hb hcl.2.2.2, hse, hst,
    ⟨fun h' => absurd h' hne, fun h' => absurd (.inr rfl) h'.2.1⟩, hcd,
    fun ht => ?_, fun _ => hne, hch⟩ rfl rfl rfl rfl rfl rfl rfl rfl fun hs => ?_
  · refine hfi.mono rfl rfl rfl rfl id id (.inl rfl) fun hw => ?_
    simp [Waits] at hw
  · exact ⟨(hdo ht).1, by simp [hcl.1]⟩
  · rw [Down, hclosed, herr] at hs
    exact absurd (.inl hc) (h.inward.spent hs).2.1

/-- Closing the transport of a closed session. -/
theorem inv_closeTransport (hc : x.closer = .closeTransport true) :
    Inv { x with tClosed := true, closer := .returned true } y := by
  have hcl := h.here.closer
  simp only [CloserFits, hc] at hcl
  obtain ⟨hs, hd, hg, ha, hst, -⟩ := hcl
  have hop : ¬({ x with tClosed := true, closer := .returned true } : Side).Opening := by
    simp [Opening]
  obtain ⟨l1, l2, l3, l4, l5, l6, l7⟩ := h.inward
  refine ⟨local_of_sent (h.here.writer.congr rfl rfl rfl) ?_ ?_ ?_ (fun hb => (h.here.begun hb).1)
      h.here.seen hs hop (.inr hst) (fun _ => ⟨hg, ha⟩) (fun _ => ⟨hst, rfl⟩) h.here.ack,
    h.there, ⟨l1, l2, l3, l4, l5, fun _ => ?_, l7⟩, h.link_down hst rfl rfl rfl⟩
  · simp only [CloserFits, hs, if_true]
    exact ⟨hd, hg, ha, hst, trivial⟩
  · refine h.here.finisher.mono rfl rfl rfl rfl id (fun _ => rfl) (.inl rfl) fun hw => ?_
    simp [Waits] at hw
  · exact h.here.reader.mono rfl rfl id id fun _ _ => id
  · exact ⟨by simp [hst], hop, .inr (l4 hg), fun hy => ha (l5 hg hy), fun _ => hd⟩

theorem inv_closer (hg : orderly .closer x) (hm : x.closerStep = some x') : Inv x' y := by
  have hw := h.here.writer
  have hcl := h.here.closer
  unfold closerStep at hm
  cases hc : x.closer with
  | start =>
    by_cases he : x.state = .established
    · simp only [hc, he, Option.some.injEq] at hm
      subst hm
      exact inv_start h hc he (hg hc)
    · have hm' : x' = { x with closer := .returned true } := by
        rcases h.here.state with h' | h' | h' <;> simp_all
      subst hm'
      exact inv_skip h hc he
  | closing =>
    simp only [hc, Option.some.injEq] at hm
    subst hm
    exact inv_closing h hc
  | waitSent =>
    simp only [CloserFits, hc] at hm hcl
    have hm' : x.closeDone = some true ∧ x' = { x with closer := .waitAck } := by
      cases hd : x.closeDone with
      | none => simp [hd] at hm
      | some ok => cases ok <;> simp_all
    obtain ⟨hd, rfl⟩ := hm'
    exact h.closer_move hcl.1 (by simp [hc]) (hw.congr rfl rfl rfl)
      ⟨hcl.1, hd, hcl.2.2⟩ (by simp) (.inl rfl) h.here.ack (.inl rfl)
      (fun _ => ⟨.inl hc, rfl⟩) (.inl ⟨rfl, rfl⟩)
  | waitAck =>
    simp only [CloserFits, hc] at hm hcl
    by_cases hack : x.closeAck = true
    · rw [if_pos hack, Option.some.injEq] at hm
      subst hm
      exact h.closer_move hcl.1 (by simp [hc]) (hw.congr rfl rfl rfl)
        ⟨hcl.1, hcl.2.1, h.here.ack hack⟩ (by simp) (.inl rfl) (by simp) (.inl rfl)
        (fun _ => ⟨.inr (.inl hc), rfl⟩) (.inl ⟨rfl, rfl⟩)
    · simp [hack] at hm
  | checkPeer =>
    simp only [CloserFits, hc, Option.some.injEq] at hm hcl
    subst hm
    refine h.closer_move hcl.1 (by simp [hc]) (hw.congr rfl rfl rfl)
      ?_ ?_ (.inl rfl) h.here.ack (.inl rfl) (fun _ => ⟨.inr (.inr (.inl hc)), rfl⟩)
      (.inl ⟨rfl, rfl⟩)
    · cases hs : x.peerCloseSeen <;> simp [CloserFits, hcl]
    · cases x.peerCloseSeen <;> simp
  | waitPeer =>
    simp only [CloserFits, hc] at hm hcl
    have hm' : x.ackDone = some true ∧
        x' = { x with peerCloseDone := none, closer := .closeWriter true } := by
      have hfi := h.here.finisher
      cases hd : x.peerCloseDone with
      | none => simp [hd] at hm
      | some ok =>
        unfold FinisherFits at hfi
        split at hfi <;> simp_all [Waits]
    obtain ⟨hdone, rfl⟩ := hm'
    exact h.closer_move hcl.1 (by simp [hc]) (hw.congr rfl rfl rfl)
      ⟨hcl.1, hcl.2.1, hcl.2.2.1, fun _ => hdone⟩ (by simp) (.inl rfl) h.here.ack (.inr rfl)
      (by simp [Waits]) (.inl ⟨rfl, rfl⟩)
  | closeWriter acked =>
    cases acked with
    | false => simp [CloserFits, hc] at hcl
    | true =>
      simp only [CloserFits, hc] at hm hcl
      obtain ⟨hs, hd, hg, ha⟩ := hcl
      have hp : x.pending = [] := pending_nil (fun _ => hd)
        (fun h' => ha (h.here.begun (ackSent_begun h.here h')).1)
      obtain ⟨w, heq, hw', -⟩ := closeWriter_eq hw hp
      rw [heq, Option.some.injEq] at hm
      subst hm
      have hop : ¬x.Opening := by simp [Opening, hc]
      refine h.closer_move hs (by simp [hc]) (hw'.congr rfl rfl rfl) ⟨hs, hd, hg, ha⟩ (by simp)
        (.inl rfl) h.here.ack (.inl rfl) (by simp [Waits]) (.inr ⟨?_, hop, ?_⟩)
      · rcases h.here.sent_state hs with h' | h' <;> simp [h']
      · exact ⟨.inr (h.inward.got hg), fun hy => ha (h.inward.order hg hy), fun _ => hd⟩
  | setClosed acked =>
    cases acked with
    | false => simp [CloserFits, hc] at hcl
    | true =>
      simp only [CloserFits, hc, Option.some.injEq] at hm hcl
      obtain ⟨hs, hd, hg, ha⟩ := hcl
      subst hm
      have ht : x.tClosed = false := by
        by_contra ht
        have := (h.here.down (by simpa using ht)).2 hs
        simp [hc] at this
      exact h.closer_move hs (by simp [hc]) (hw.congr rfl rfl rfl)
        ⟨hs, hd, hg, ha, rfl, ht⟩ (by simp) (.inr ⟨rfl, hg, ha⟩) h.here.ack (.inl rfl)
        (by simp [Waits]) (.inl ⟨rfl, rfl⟩)
  | closeTransport acked =>
    cases acked with
    | false => simp [CloserFits, hc] at hcl
    | true =>
      simp only [hc, Option.some.injEq] at hm
      subst hm
      exact inv_closeTransport h hc
  | returned ok => simp [hc] at hm
  | idle | send => simp [hc] at hm
  | sendFailed | waitFailed | sendErr | peerErr | peerErrClose | closeErr =>
    simp [CloserFits, hc] at hcl

/-! ## Sending the close -/

/-- A side that still has to send its close has a peer that has not seen anything. -/
theorem Inv.opening (ho : x.Opening) :
    x.closeSent = false ∧ x.ackSent = false ∧ x.ackGot = false ∧ x.pending = [] ∧
      y.arrived = [] ∧ y.peerCloseSeen = false ∧ y.ackGot = false ∧
      ¬y.Down x ∧ ¬x.Down y ∧ ¬(y.reader = .readErr ∨ y.reader = .returned true) ∧
      ¬(x.reader = .readErr ∨ x.reader = .returned true) := by
  have hcl : x.closeSent = false ∧ ¬x.Begun := by
    have := h.here.closer
    rcases ho with ho | ho <;> simp only [CloserFits, ho] at this <;> exact ⟨this.1, this.2.2.2⟩
  have hack : x.ackSent = false := by
    by_contra ha
    exact hcl.2 (ackSent_begun h.here (by simpa using ha))
  have hpend : x.pending = [] := by simp [pending, hcl.1, hack]
  have hseen : y.peerCloseSeen = false := by
    by_contra hs
    have := h.outward.seen (by simpa using hs)
    simp [hcl.1] at this
  have hgot : y.ackGot = false := by
    by_contra hs
    have := h.outward.got (by simpa using hs)
    simp [hack] at this
  have hxgot : x.ackGot = false := by
    by_contra hs
    have := h.closeSent_of_ackSent (h.inward.got (by simpa using hs))
    simp [hcl.1] at this
  refine ⟨hcl.1, hack, hxgot, hpend, ?_, hseen, hgot, fun hs => ?_,
    fun hs => (h.inward.spent hs).2.1 ho, fun hr => ?_, fun hr => ?_⟩
  · have := h.outward.line
    rw [hpend, List.append_nil] at this
    simpa [unseen, hcl.1, hack] using this
  · have := (h.outward.spent hs).2.2.1
    simp [hcl.1, hack] at this
  · have := (h.outward.served hr).1
    simp [hseen, hgot] at this
  · have := (h.inward.served hr).1
    simp only [hcl.1, Bool.false_eq_true, false_and, true_and, false_or] at this
    rcases h.here.seen this with hb | hb
    · exact hcl.2 hb
    · simp [hb] at hr

end Inv

/-- A side that has just sent its close. -/
theorem local_sendClose {d : Option Bool} (h : x.Local) (hc : x.closer = .send)
    (hg : x.ackGot = false) (hd : d ≠ some false)
    (hw : ({ x with writer := w, closeDone := d, closer := .waitSent, closeSent := true } :
      Side).WriterFits) :
    ({ x with writer := w, closeDone := d, closer := .waitSent, closeSent := true } :
      Side).Local := by
  have hcl := h.closer
  simp only [CloserFits, hc] at hcl
  obtain ⟨-, -, hst, hb⟩ := hcl
  have hidle : x.finisher = .idle := by
    by_contra hf
    exact hb (.inl hf)
  have hclosed : x.state ≠ .closed := by simp [hst]
  refine local_of_sent hw ⟨rfl, hd, by simp [hg]⟩ ?_ ?_ (fun h' => absurd h' hb) h.seen rfl
    (by simp [Opening]) (.inl hst) (fun h' => absurd h' hclosed)
    (fun h' => absurd (h.down h').1 hclosed) h.ack
  · have hfi := h.finisher
    simp only [FinisherFits, hidle] at hfi ⊢
    exact hfi
  · have hre := h.reader
    unfold ReaderFits at hre ⊢
    split at hre
    case h_9 => simp [hst] at hre
    case h_10 hr => simpa [hr] using hre
    case h_11 c hr => exact absurd (.inr ⟨c, hr⟩) hb
    case h_12 => exact hre.elim
    all_goals simp [*]

theorem inv_sendClose {ok : Bool} (h : Inv x y) (hc : x.closer = .send)
    (hs : Sends (controlItem .close) x y x' y' ok) :
    Inv { x' with closer := if ok then .waitSent else .sendFailed, closeSent := ok } y' := by
  obtain ⟨hsent, hack, hxgot, hpend, harr, hseen, hgot, hspenty, hspentx, hservedy, hservedx⟩ :=
    h.opening (.inr hc)
  have hw := h.here.writer
  have hdone : x.closeDone = none := by
    have hcl := h.here.closer
    simp only [CloserFits, hc] at hcl
    exact hcl.2.1
  obtain ⟨l1, l2, l3, l4, l5, -, -⟩ := h.inward
  obtain ⟨m1, m2, m3, m4, m5, -, -⟩ := h.outward
  cases hs with
  | refused e he hq =>
    rcases of_enqueue_refused hq with ⟨-, hp | hp⟩ | hcl | herr
    · exact absurd rfl hp
    · exact absurd rfl hp
    · exact absurd (.inl hcl) hspentx
    · exact absurd (.inr (.inl herr)) hspentx
  | directFails he ht =>
    exact absurd (.inr (.inr ht)) hspentx
  | queued w he hq =>
    rw [enqueue_eq_queued hq]
    refine ⟨local_sendClose (x := x) h.here hc hxgot (by simp [hdone])
        (hw.push he (.inr rfl) (.inr (by decide)) rfl rfl ?_), h.there,
      ⟨l1, l2, l3, l4, l5, fun hs => absurd hs hspentx, fun hs => absurd hs hservedx⟩,
      ⟨?_, m2, fun _ => rfl, m4, fun hg => by simp [hgot] at hg, fun hs => absurd hs hspenty,
        fun hs => absurd hs hservedy⟩⟩
    · simp [pending, hsent, hack, hdone, controlItem, ctl]
    · simp [harr, pending, unseen, hack, hseen, hdone]
  | direct he ht =>
    have hp : ({ x.signal .close true with
        closer := .waitSent
        closeSent := true } : Side).pending = [] := by
      simp [pending, signal, hack]
    refine ⟨local_sendClose (x := x) (d := some true) h.here hc hxgot (by simp)
        (hw.congr rfl (hp.trans hpend.symm) rfl),
      h.there.inbox _,
      ⟨l1, l2, l3, l4, l5, fun hs => absurd hs hspentx, fun hs => absurd hs hservedx⟩,
      ⟨?_, honest_inbox m2 (.inr (by decide)), fun _ => rfl, m4, fun hg => by simp [hgot] at hg,
        fun hs => absurd hs hspenty, fun hs => absurd hs hservedy⟩⟩
    rw [arrived_inbox, harr]
    exact (congrArg _ hp).trans (by simp [unseen, signal, controlItem, ctl, hseen, hack])

/-- A side that still has to acknowledge the close of its peer has a writer that works. -/
theorem Inv.acking {c : Bool} (h : Inv x y) (hf : x.finisher = .send c) :
    y.closeSent = true ∧ x.peerCloseSeen = true ∧ x.ackSent = false ∧ x.ackDone = none ∧
      y.ackGot = false ∧ ¬x.Down y := by
  have hfi := h.here.finisher
  simp only [FinisherFits, hf] at hfi
  obtain ⟨hseen, hop⟩ := h.here.begun (.inl (by simp [hf]))
  have hsent := h.inward.seen hseen
  refine ⟨hsent, hseen, hfi.2.1, hfi.2.2.1, ?_, fun hs => ?_⟩
  · by_contra hg
    have := h.outward.got (by simpa using hg)
    simp [hfi.2.1] at this
  · have := (h.inward.spent hs).2.2.2.1 hsent
    simp [hfi.2.2.1] at this

theorem inv_sendAck {c : Bool} (h : Inv x y) (hf : x.finisher = .send c)
    (hs : Sends (controlItem .closeAck) x y x' y' true) :
    Inv { x' with finisher := .waitSent c, ackSent := true } y' := by
  obtain ⟨hsent, hseen, hack, hdone, hgot, hspentx⟩ := h.acking hf
  obtain ⟨hw, hcl, hfi, hre, hbe, hse, hst, hes, hcd, hdo, hon, hch⟩ := h.here
  obtain ⟨l1, l2, l3, l4, l5, l6, l7⟩ := h.inward
  obtain ⟨m1, m2, m3, m4, m5, m6, m7⟩ := h.outward
  simp only [FinisherFits, hf] at hfi
  have hbegun : ∀ {z : Side}, z.finisher = .waitSent c → z.Begun := fun h' => .inl (by simp [h'])
  have hopen : ¬x.Opening := (hbe (.inl (by simp [hf]))).2
  have hstate := h.here.not_established (.inl (by simp [hf]))
  have hidle : x.finisher = .idle → Finisher.waitSent c = .idle := fun h' => by simp [hf] at h'
  have hm6 : y.Down x → x.closeSent = true ∧ y.Spent x := by
    intro hs
    have := m6 hs
    exact ⟨this.2.2.1.elim id fun h' => by simp [hack] at h', this⟩
  cases hs with
  | queued w he hq =>
    rw [enqueue_eq_queued hq]
    have hp : ({ x with
        writer := x.writer.push (controlItem .closeAck)
        finisher := .waitSent c
        ackSent := true } : Side).pending = x.pending ++ [.closeAck] := by
      simp [pending, hack, hdone]
    refine ⟨local_of_begun (hw.push he (.inr rfl) (.inr (by decide)) rfl rfl hp)
        (hcl.mono rfl rfl rfl rfl id id id (fun _ => id) id (fun ho => absurd ho hopen)
          fun _ => hbegun rfl)
        ⟨hfi.1, rfl, by simp [hdone], hfi.2.2.2⟩ (hre.mono rfl rfl id hidle fun _ _ => id)
        (hbegun rfl) hseen hopen hstate hcd hdo hch, h.there,
      ⟨l1, l2, l3, l4, l5, fun hs => absurd hs hspentx, l7⟩,
      ⟨?_, m2, m3, fun _ => rfl, m5, fun hs => ?_, m7⟩⟩
    · rw [hp, ← List.append_assoc, m1]
      simp [unseen, hack, hgot]
    · obtain ⟨h1, h2⟩ := hm6 hs
      exact ⟨h2.1, h2.2.1, .inl h1, h2.2.2.2⟩
  | direct he ht =>
    have hp : ({ x.signal .closeAck true with
        finisher := .waitSent c
        ackSent := true } : Side).pending = x.pending := by simp [pending, signal, hack]
    refine ⟨local_of_begun (hw.congr rfl hp rfl)
        (hcl.mono rfl rfl rfl rfl id id id (fun _ _ _ => rfl) id (fun ho => absurd ho hopen)
          fun _ => hbegun rfl)
        ⟨hfi.1, rfl, by simp [signal, controlItem], hfi.2.2.2⟩
        (hre.mono rfl rfl id hidle fun _ _ => id) (hbegun rfl) hseen hopen hstate ?_ hdo hch,
      h.there.inbox _,
      ⟨l1, l2, l3, l4, l5, fun hs => absurd hs hspentx, l7⟩,
      ⟨?_, honest_inbox m2 (.inr (by decide)), m3, fun _ => rfl, m5, fun hs => ?_, m7⟩⟩
    · intro hs
      rcases hcd hs with ⟨h1, h2, -⟩ | ⟨h1, -⟩
      · exact .inl ⟨h1, h2, fun _ => rfl⟩
      · exact .inr ⟨h1, rfl⟩
    · have hnil := hw.pending_direct he
      rw [hnil, List.append_nil] at m1
      rw [arrived_inbox, m1]
      refine (congrArg _ (hp.trans hnil)).trans ?_
      simp [unseen, signal, controlItem, ctl, hack, hgot]
    · obtain ⟨h1, h2⟩ := hm6 hs
      exact ⟨h2.1, h2.2.1, .inl h1, h2.2.2.2⟩

/-- An acknowledgement is not refused. -/
theorem Inv.ack_accepted {c : Bool} (h : Inv x y) (hf : x.finisher = .send c) :
    ¬Sends (controlItem .closeAck) x y x' y' false := by
  obtain ⟨-, -, -, -, -, hspent⟩ := h.acking hf
  intro hs
  cases hs with
  | refused e he hq =>
    rcases of_enqueue_refused hq with ⟨-, hp | hp⟩ | hcl | herr
    · exact absurd rfl hp
    · exact absurd rfl hp
    · exact hspent (.inl hcl)
    · exact hspent (.inr (.inl herr))
  | directFails he ht => exact hspent (.inr (.inr ht))

/-! ## `finishPeerClose` -/

/-- A `CloseWith` that has not sent its close, and will not, does not mind the
    transport being closed. -/
theorem closerFits_unsent (h : x.CloserFits) (hs : x.closeSent = false) (ho : ¬x.Opening)
    (hc : x'.closer = x.closer) (hs' : x'.closeSent = x.closeSent)
    (hd : x'.closeDone = x.closeDone) (hb : x'.Begun) : x'.CloserFits := by
  unfold CloserFits at h ⊢
  rw [hc, hs', hd]
  split at h
  case h_3 => exact absurd (.inl ‹_›) ho
  case h_4 => exact absurd (.inr ‹_›) ho
  all_goals simp_all

theorem inv_finisher (h : Inv x y) (hm : x.finisherStep = some x') : Inv x' y := by
  obtain ⟨hw, hcl, hfi, hre, hbe, hse, hst, hes, hcd, hdo, hon, hch⟩ := h.here
  have hspent := h.inward.spent
  unfold finisherStep at hm
  unfold FinisherFits at hfi
  by_cases hidle : x.finisher = .idle
  · simp [hidle] at hm
  have hbegun : x.Begun := .inl hidle
  obtain ⟨hseen, hopen⟩ := hbe hbegun
  have hstate := h.here.not_established hbegun
  have hreader : ∀ {z : Side}, z.reader = x.reader → z.closeSent = x.closeSent →
      z.peerCloseSeen = x.peerCloseSeen → z.ReaderFits := by
    intro z h1 h2 h3
    refine hre.mono h1 h2 (by rw [h3]; exact id) (fun h' => absurd h' hidle) fun _ _ he => ?_
    rcases hstate with h' | h' <;> simp [h'] at he
  cases hf : x.finisher with
  | waitSent c =>
    simp only [hf] at hm hfi
    obtain ⟨rfl, hack, hne, -⟩ := hfi
    have hd : x.ackDone = some true := by
      cases hd : x.ackDone with
      | none => simp [hd] at hm
      | some ok => cases ok <;> simp_all
    simp only [hd, Option.some.injEq] at hm
    subst hm
    have hb : ∀ {z : Side}, z.finisher = (if x.closeSent then .finished else .closeWriter) →
        z.Begun := by
      intro z hz
      refine .inl ?_
      rw [hz]
      split <;> simp
    refine h.frame (local_of_begun (hw.congr rfl (by simp [pending, hd]) rfl)
      (hcl.mono rfl rfl rfl rfl id id id (fun _ _ _ => rfl) id (fun ho => absurd ho hopen)
        fun _ => hb rfl) ?_ (hreader rfl rfl rfl) (hb rfl) hseen hopen hstate ?_ hdo hch)
      rfl rfl rfl rfl rfl rfl (by simp [pending, hd]) rfl ?_
    · cases hs : x.closeSent <;> simp [FinisherFits, hack]
    · simpa [hd] using hcd
    · intro hs
      obtain ⟨h1, h2, h3, -, h5⟩ := hspent hs
      exact ⟨h1, h2, h3, fun _ => rfl, h5⟩
  | closeWriter =>
    simp only [hf] at hm hfi
    obtain ⟨hsent, hack, hd⟩ := hfi
    obtain ⟨w, heq, hw', honly⟩ := closeWriter_eq hw (pending_nil (by simp [hsent]) fun _ => hd)
    rw [heq, Option.some.injEq] at hm
    subst hm
    refine h.frame (local_of_begun (hw'.congr rfl rfl rfl)
      (hcl.mono rfl rfl rfl rfl id id id (fun _ => id) id (fun ho => absurd ho hopen)
        fun _ => .inl (by simp)) ⟨hsent, hack, hd⟩ (hreader rfl rfl rfl) (.inl (by simp)) hseen
        hopen hstate hcd hdo hch) rfl rfl rfl rfl rfl rfl rfl rfl fun _ => ?_
    refine ⟨?_, hopen, .inl (h.inward.seen hseen), fun _ => hd, fun h' => ?_⟩
    · rcases hstate with h' | h' <;> simp [h']
    · simp [hsent] at h'
  | setClosed =>
    simp only [hf, Option.some.injEq] at hm hfi
    obtain ⟨hsent, hack, hd⟩ := hfi
    subst hm
    refine h.frame (local_of_begun (hw.congr rfl rfl rfl)
      (hcl.mono rfl rfl rfl rfl id id id (fun _ => id) (fun _ => rfl) (fun ho => absurd ho hopen)
        fun _ => .inl (by simp)) ⟨hsent, hack, hd, rfl⟩ (hreader rfl rfl rfl) (.inl (by simp)) hseen
        hopen (.inr rfl) (fun _ => .inr ⟨hsent, hd⟩) (fun ht => ⟨rfl, (hdo ht).2⟩) hch)
      rfl rfl rfl rfl rfl rfl rfl rfl fun hs => ?_
    obtain ⟨-, h2⟩ := hspent hs
    exact ⟨by simp, h2⟩
  | closeTransport =>
    simp only [hf, Option.some.injEq] at hm hfi
    obtain ⟨hsent, hack, hd, hclosed⟩ := hfi
    subst hm
    obtain ⟨l1, l2, l3, l4, l5, l6, l7⟩ := h.inward
    refine ⟨local_of_begun (hw.congr rfl rfl rfl)
        (closerFits_unsent hcl hsent hopen rfl rfl rfl (.inl (by simp)))
        ⟨hack, hd, by simp [hsent, hclosed]⟩ (hreader rfl rfl rfl) (.inl (by simp)) hseen
        hopen hstate hcd (fun _ => ⟨hclosed, by simp [hsent]⟩) hch, h.there,
      ⟨l1, l2, l3, l4, l5, fun _ => ?_, l7⟩, h.link_down hclosed rfl rfl rfl⟩
    exact ⟨by simp [hclosed], hopen, .inl (h.inward.seen hseen), fun _ => hd,
      fun h' => by simp [hsent] at h'⟩
  | idle => exact absurd hf hidle
  | send c | finished => simp [hf] at hm
  | failed | failedClose => simp [hf] at hfi

end Etp.Close
