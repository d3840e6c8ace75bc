import Etp.Lib.Run
import Etp.Transfer.Link

/-!
# A transfer while it opens

The receiver opens a transfer in a goroutine of its own and goes on reading, so that a
chunk or an end may find the transfer unknown, which fails it. What holds the sender
back is the window of the receiver, which comes when the transfer is open: where flow
control was negotiated, `registerOutgoing` starts with none (`awaitsWindow`).

* `Sender.Held`: a sender that waits for its first window has sent no chunk and no end;
* `opening_known`: where flow control was negotiated, and there is something to send,
  nothing of a transfer that is not open is answered as unknown;
* `empty_unknown`: a transfer of no bytes waits for no window. Its end may come before it is open.
-/

namespace Etp.Transfer

open Relation

variable {m : TransferBegin} {D : Bytes} {H : Bytes → Bytes}

/-- The capabilities that `validateOutgoingTransfer` asks for, of both sides. -/
def transferCapabilities : ℕ :=
  capabilityTransfers ||| capabilityTransferCommit ||| capabilityAck

/-- Whether `validateOutgoingTransfer` lets transfers start with these capabilities. -/
def mayTransfer (caps remoteCaps : ℕ) : Bool :=
  caps &&& transferCapabilities == transferCapabilities &&
    remoteCaps &&& transferCapabilities == transferCapabilities

/-- Whether `registerOutgoing` awaits the window of the receiver: `maxInFlightChunks` is
    that of the remote hello, zero if there was none. -/
def awaitsWindow (remoteCaps maxInFlightChunks : ℕ) : Bool :=
  remoteCaps &&& capabilityFlowControl != 0 && decide (0 < maxInFlightChunks)

/-! ## The sender waits -/

/-- An answer that gives no window and acknowledges nothing: the transfer was refused, or
    could not be opened. -/
def Reply.Declines (x : Reply) : Prop :=
  ∃ n : Nack, x = .nack n ∧ (n.reason = .protocolError ∨ n.reason = .writeFailed)

/-- The positions before the first chunk, and at the end. -/
def Body.Early : Body → Prop
  | .begin | .next 0 | .returned _ => True
  | _ => False

namespace Sender

/-- A sender that waits for its first window. -/
structure Held (s : Sender) : Prop where
  window : s.ot.hasRemoteWindow = true ∧ s.ot.remoteWindowChunks = 0
  pending : s.ot.pending = []
  unfinished : s.ot.doneSending = false
  body : s.body.Early
  reader : ∀ c rest, s.reader ≠ .resending (c :: rest)
  monitor : s.monitor = []

variable {s s' : Sender}

theorem Held.blocked (h : s.Held) (n : ℕ) : s.ot.blocked n = true := by
  simp [OutgoingTransfer.blocked, h.window.1, h.window.2]

/-- The window, the pending chunks and the end decide about the record. -/
theorem Held.record {ot : OutgoingTransfer} (h : s.Held)
    (hwindow : ot.hasRemoteWindow = true ∧ ot.remoteWindowChunks = 0) (hpending : ot.pending = [])
    (hunfinished : ot.doneSending = false) : ({ s with ot := ot } : Sender).Held :=
  ⟨hwindow, hpending, hunfinished, h.body, h.reader, h.monitor⟩

theorem Held.move {b : Body} (h : s.Held) (hb : b.Early) : ({ s with body := b } : Sender).Held :=
  { h with body := hb }

theorem Held.reading {r : SenderReader} (h : s.Held) (hr : ∀ c rest, r ≠ .resending (c :: rest)) :
    ({ s with reader := r } : Sender).Held :=
  { h with reader := hr }

theorem Held.declined (h : s.Held) {x : Reply} (hx : x.Declines) : (s.handleReply x).Held := by
  obtain ⟨n, rfl, hreason⟩ := hx
  rw [handleReply]
  split
  · exact h
  · simp only [OutgoingTransfer.handleNack]
    split
    · exact { h with reader := by simp [afterReply] }
    · rcases hreason with hreason | hreason <;> simp only [OutgoingTransfer.applyNack, hreason]
      · exact { h with reader := by simp }
      · exact { h with reader := by simp }

theorem Held.ticked (h : s.Held) (commit : Bool) (late : ℕ → Bool) :
    (s.tick commit late).Held := by
  simp only [tick, OutgoingTransfer.expire, h.unfinished, h.pending, OutgoingTransfer.charge,
    Bool.false_and, Bool.or_false, Bool.false_eq_true, if_false]
  split
  · exact { h with monitor := rfl }
  · exact ⟨h.window, rfl, rfl, h.body, h.reader, rfl⟩

/-- As long as it waits, a sender sends nothing but the announcement. -/
theorem Held.step (hsize : 0 < m.totalSize) (h : s.Held) {a : Label} (hstep : Step m D s a s')
    (hx : ∀ x, a = .receive x → x.Declines) : s'.Held ∧ ∀ f, a = .send f → f = .begin m := by
  have hbody := h.body
  cases hstep with
  | begin =>
    refine ⟨h.move trivial, ?_⟩
    rintro f hf
    cases hf
    rfl
  | push k _ _ _ hblocked =>
    rw [h.blocked] at hblocked
    cases hblocked
  | encode k payload hencoding =>
    rw [hencoding] at hbody
    exact hbody.elim
  | finish k hnext hle =>
    -- something is to be sent, and no chunk was
    rw [hnext] at hbody
    cases k with
    | zero =>
      rw [TransferBegin.offset, Piece.offset_zero] at hle
      omega
    | succ k => exact hbody.elim
  | sendEnd hend =>
    rw [hend] at hbody
    exact hbody.elim
  | acked hwaiting =>
    rw [hwaiting] at hbody
    exact hbody.elim
  | giveUp e => exact ⟨h.move trivial, by simp⟩
  | unregister => exact ⟨{ h with }, by simp⟩
  | reply x => exact ⟨h.declined (hx x rfl), by simp⟩
  | resend c rest hreader => exact absurd hreader (h.reader c rest)
  | resent => exact ⟨h.reading (by simp), by simp⟩
  | tick commit late => exact ⟨h.ticked commit late, by simp⟩
  | task t rest hmonitor =>
    rw [h.monitor] at hmonitor
    cases hmonitor
  | skip t rest hmonitor =>
    rw [h.monitor] at hmonitor
    cases hmonitor
  | fail e => exact ⟨h.record h.window h.pending h.unfinished, by simp⟩

end Sender

namespace Link

variable {l l' : Link}

/-- A transfer that is not open: nothing of it is on its way but the announcement. -/
structure Held (m : TransferBegin) (l : Link) : Prop where
  sender : l.snd.Held
  down : ∀ f ∈ l.down, f = .begin m
  early : l.early = []
  up : ∀ x ∈ l.up, x.Declines
  answers : ∀ x ∈ l.answers, x.Declines

theorem Held.answer {x : Reply} (h : l.Held m) (hx : x.Declines) : (l.answer x).Held m :=
  ⟨h.sender, h.down, h.early, List.forall_mem_append.mpr ⟨h.up, List.forall_mem_singleton.mpr hx⟩,
    List.forall_mem_append.mpr ⟨h.answers, List.forall_mem_singleton.mpr hx⟩⟩

theorem Held.step (hsize : 0 < m.totalSize) (h : l.Held m) (hrcv : l.rcv = none)
    (hstep : Step H m D l l') (hrcv' : l'.rcv = none) : l'.Held m := by
  cases hstep with
  | sender s hs =>
    exact { h with sender := (h.sender.step hsize hs nofun).1 }
  | request s f hs =>
    obtain ⟨hheld, hbegin⟩ := h.sender.step hsize hs nofun
    have hdown := List.forall_mem_append.mpr
      ⟨h.down, List.forall_mem_singleton.mpr (hbegin f rfl)⟩
    exact ⟨hheld, hdown, h.early, h.up, h.answers⟩
  | handled s x rest hup hs =>
    have hx : x.Declines := h.up x (by simp [hup])
    refine ⟨(h.sender.step hsize hs ?_).1, h.down, h.early, fun y hy => ?_, h.answers⟩
    · rintro y hy
      cases hy
      exact hx
    · exact h.up y (by simp [hup, hy])
  | announced m' rest hdown =>
    exact { h with down := fun f hf => h.down f (by simp [hdown, hf]) }
  | refused m' rest hdown =>
    have hanswer := h.answer (x := .nack ⟨0, 0, .protocolError⟩) ⟨_, rfl, .inl rfl⟩
    exact ⟨h.sender, fun f hf => h.down f (by simp [hdown, hf]), h.early, hanswer.up,
      hanswer.answers⟩
  | unknown f rest hdown hf =>
    exact absurd (h.down f (by simp [hdown])) (hf m)
  | early x rest hearly =>
    rw [h.early] at hearly
    cases hearly
  | opened => cases hrcv'
  | openFails =>
    have hanswer := h.answer (x := .nack ⟨0, 0, .writeFailed⟩) ⟨_, rfl, .inr rfl⟩
    exact ⟨h.sender, h.down, h.early, hanswer.up, hanswer.answers⟩
  | openLost => exact { h with }
  | receiver r => simp_all
  | reply r => simp_all
  | received r => simp_all
  | outside r => simp_all

/-- A transfer that is open stays so. -/
theorem closed_before (hstep : Step H m D l l') (hrcv' : l'.rcv = none) : l.rcv = none := by
  cases hstep <;> first | exact hrcv' | cases hrcv'

/-- In every run of a transfer that has something to send, where flow control was
    negotiated: as long as the transfer is not open, nothing was answered as unknown,
    nor is about to be. -/
theorem opening_known {id retryLimit maxInFlight maxInFlightBytes remoteCaps : ℕ}
    {maxInFlightChunks : ℕ} (hflow : awaitsWindow remoteCaps maxInFlightChunks = true)
    (hsize : 0 < m.totalSize)
    (hrun : ReflTransGen (Step H m D) (start (registerOutgoing id retryLimit maxInFlight
      maxInFlightBytes (awaitsWindow remoteCaps maxInFlightChunks) m)) l) (hrcv : l.rcv = none) :
    l.early = [] ∧ ∀ n : Nack, .nack n ∈ l.answers → n.reason ≠ .transferUnknown := by
  have hinv : l.rcv = none → l.Held m := by
    refine Run.invariant (fun l => l.rcv = none → l.Held m) (fun _ => ?_) ?_ hrun
    · exact ⟨⟨⟨hflow, rfl⟩, rfl, rfl, trivial, nofun, rfl⟩, nofun, rfl, nofun, nofun⟩
    · intro l l' h hstep hrcv'
      have hrcv := closed_before hstep hrcv'
      exact (h hrcv).step hsize hrcv hstep hrcv'
  refine ⟨(hinv hrcv).early, fun n hn => ?_⟩
  obtain ⟨n', heq, hreason⟩ := (hinv hrcv).answers _ hn
  cases heq
  rcases hreason with hreason | hreason <;> rw [hreason] <;> decide

/-- The default capabilities let transfers start, and a window is awaited; a transfer of
    no bytes still sends its end at once. It finds the transfer opening, and the answer
    fails the transfer. -/
theorem empty_unknown : mayTransfer defaultCapabilities defaultCapabilities = true ∧
    ∃ l l' : Link, ReflTransGen (Step id (announce [] 1 0 []) [])
      (start (registerOutgoing 1 3 4 4 (awaitsWindow defaultCapabilities 4)
        (announce [] 1 0 []))) l ∧ l.opening = some (announce [] 1 0 []) ∧
      l.early = [.nack ⟨0, 0, .transferUnknown⟩] ∧
      ReflTransGen (Step id (announce [] 1 0 []) []) l l' ∧ l'.rcv.isSome = true ∧
      l'.snd.ot.failed = some "remote rejected transfer=1 reason=3" :=
  ⟨by decide, _, _,
    .head (.request _ _ _ (.begin _ rfl rfl)) <|
    .head (.announced _ _ _ rfl rfl rfl rfl rfl) <|
    .head (.sender _ _ (.finish _ 0 rfl (Nat.le_refl 0))) <|
    .head (.request _ _ _ (.sendEnd _ rfl)) <|
    .single (.unknown _ _ _ rfl nofun rfl rfl rfl), rfl, rfl,
    .head (.early _ _ _ rfl) <|
    .head (.opened _ _ 4 rfl) <|
    .single (.handled _ _ _ _ rfl (.reply _ _ rfl)), rfl, rfl⟩

/-- A byte is announced and its transfer is opening. -/
theorem byte_opening : ∃ l : Link, ReflTransGen (Step id (announce [7] 1 0 []) [7])
    (start (registerOutgoing 1 3 4 4 (awaitsWindow defaultCapabilities 4)
      (announce [7] 1 0 []))) l ∧
      l.rcv = none ∧ l.opening = some (announce [7] 1 0 []) :=
  ⟨_, .head (.request _ _ _ (.begin _ rfl rfl)) <|
    .single (.announced _ _ _ rfl rfl rfl rfl rfl), rfl, rfl⟩

theorem opening_known_byte : ∃ l : Link, ReflTransGen (Step id (announce [7] 1 0 []) [7])
    (start (registerOutgoing 1 3 4 4 (awaitsWindow defaultCapabilities 4)
      (announce [7] 1 0 []))) l ∧
      l.opening = some (announce [7] 1 0 []) ∧ l.early = [] ∧
      ∀ n : Nack, .nack n ∈ l.answers → n.reason ≠ .transferUnknown := by
  obtain ⟨l, hrun, hrcv, hopening⟩ := byte_opening
  exact ⟨l, hrun, hopening, opening_known (by decide) (by decide) hrun hrcv⟩

end Link

end Etp.Transfer
