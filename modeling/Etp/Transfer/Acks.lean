import Etp.Transfer.Integrity
import Etp.Transfer.SendWindow

/-!
# The order of acknowledgements

Two goroutines of the receiver acknowledge chunks: the runner what it has
written, and the reader, for a duplicate, what was written by then. Each takes
the counters in one step and sends the frame in another, so that a frame may
overtake one with smaller counters. The sender takes an acknowledgement that is
behind what it has counted for an error, which ends its session
(`Link.overtaken_ack_refused`).

Along the runs in which the acknowledgements are sent in the order of their
counters (`Link.InOrder`), every one of them is accepted (`Link.acks_accepted`).
-/

namespace Etp.Transfer

open Relation List

variable {m : TransferBegin} {D : Bytes} {H : Bytes → Bytes}

/-! ## The receiver -/

namespace Receiver

variable {r r' : Receiver}

/-- Only a chunk moves the cursor of the accepted ones, to behind itself. -/
theorem accepted_data (reserve : Bool) (c : Chunk) :
    (r.handleData reserve c).tr.acceptedNextChunk = r.tr.acceptedNextChunk ∨
      (r.handleData reserve c).tr.acceptedNextChunk = c.chunkID + 1 := by
  have hrecord : (r.tr.handleData reserve c).1.acceptedNextChunk = r.tr.acceptedNextChunk ∨
      (r.tr.handleData reserve c).1.acceptedNextChunk = c.chunkID + 1 := by
    rcases r.tr.handleData_cases reserve c with heq | heq | ⟨-, -, hid, -, -, -, -, heq⟩
    · exact .inl (by rw [heq])
    · exact .inl (by rw [heq])
    · exact .inr (by rw [heq, hid])
  simp only [handleData]
  split_ifs
  · exact .inl rfl
  · exact .inl rfl
  · split
    all_goals
      rename_i heq
      rw [heq] at hrecord
      exact hrecord

theorem accepted_step {l : Label} (hs : Step H r l r') :
    r'.tr.acceptedNextChunk = r.tr.acceptedNextChunk ∨
      ∃ c, l = .receive (.data c) ∧ r'.tr.acceptedNextChunk = c.chunkID + 1 := by
  cases hs with
  | data reserve c _ => exact (accepted_data reserve c).imp id fun h => ⟨c, rfl, h⟩
  | finish _ =>
    refine .inl ?_
    simp only [handleEnd]
    split_ifs <;> rfl
  | endClosing _ =>
    refine .inl ?_
    simp only [IncomingTransfer.closeQueue]
    split_ifs <;> rfl
  | endWaitFails e _ _ => exact .inl (IncomingTransfer.stop_accepted _ e)
  | endDone _ =>
    refine .inl ?_
    simp only [endDone]
    split <;> rfl
  | endVerify _ =>
    refine .inl ?_
    simp only [endVerify]
    split_ifs <;> rfl
  | endCommitted err _ _ => cases err <;> exact .inl rfl
  | account c _ =>
    refine .inl ?_
    simp only [account]
    split <;> rfl
  | failing c e _ => exact .inl (IncomingTransfer.stop_accepted _ e)
  | reply | forget | endWaited | closed | endTimedOut | late | take | drained | taken | written |
    ack | window | noWindow | otherWindow | nack | finishing | abort | suspend | exit =>
    exact .inl rfl

end Receiver

/-! ## The link -/

namespace Link

variable {l l' : Link} {a b : ℕ}

/-- The chunk behind those an answer acknowledges. -/
def ackEnd : Reply → Option ℕ
  | .ack x => some (x.chunkTo + 1)
  | _ => none

/-- The frames towards the receiver, and what it has accepted, are chunks below `b`. -/
structure Bounded (b : ℕ) (l : Link) : Prop where
  down : ∀ c, .data c ∈ l.down → c.chunkID < b
  accepted : ∀ r, l.rcv = some r → r.tr.acceptedNextChunk ≤ b

/-- The acknowledgements on their way do not go back, and are not behind `a`, which
    was acknowledged before. -/
structure AcksOrdered (m : TransferBegin) (a : ℕ) (l : Link) : Prop where
  answers : ∀ x, .ack x ∈ l.answers → AckOf m l.written x
  seen : ∀ x, .ack x ∈ l.up → .ack x ∈ l.answers
  last : a = 0 ∨ ∃ x, .ack x ∈ l.answers ∧ x.chunkTo + 1 = a
  ahead : ∀ x, .ack x ∈ l.up → a ≤ x.chunkTo + 1
  sorted : (l.up.filterMap ackEnd).Pairwise (· ≤ ·)

theorem AcksOrdered.same (h : l.AcksOrdered m a) (hup : l'.up = l.up)
    (hans : l'.answers = l.answers) (hw : l.written ≤ l'.written) : l'.AcksOrdered m a := by
  obtain ⟨h1, h2, h3, h4, h5⟩ := h
  rw [← hup] at h2 h4 h5
  rw [← hans] at h1 h2 h3
  exact ⟨fun x hx => (h1 x hx).mono hw, h2, h3, h4, h5⟩

/-- Fewer bytes, fewer chunks. -/
theorem AckOf.le_of_received {n : ℕ} {x y : Ack} (hm : m.Covers D) (hn : n ≤ m.chunkCount)
    (hx : AckOf m n x) (hy : AckOf m n y) (h : y.receivedBytes ≤ x.receivedBytes) :
    y.chunkTo ≤ x.chunkTo := by
  by_contra hlt
  have := hy.2.1
  have hoff : m.offset (x.chunkTo + 1) < m.offset (y.chunkTo + 1) :=
    hm.offset_lt (by omega) (by omega)
  rw [hx.2.2, hy.2.2] at h
  omega

variable {reply : Reply}

/-- An answer is sent that is not behind the acknowledgements before it. -/
theorem AcksOrdered.answer (hm : m.Covers D) (h : l.AcksOrdered m a) (hn : l.written ≤ m.chunkCount)
    (hfit : ∀ x, reply = .ack x → AckOf m l.written x)
    (hord : ∀ x, reply = .ack x → ∀ y, .ack y ∈ l.answers → y.receivedBytes ≤ x.receivedBytes)
    (hup : l'.up = l.up ++ [reply]) (hans : l'.answers = l.answers ++ [reply])
    (hw : l.written ≤ l'.written) : l'.AcksOrdered m a := by
  have hle : ∀ x, reply = .ack x → ∀ y, .ack y ∈ l.answers → y.chunkTo ≤ x.chunkTo :=
    fun x hx y hy => AckOf.le_of_received hm hn (hfit x hx) (h.answers y hy) (hord x hx y hy)
  refine ⟨fun x hx => ?_, fun x hx => ?_, ?_, fun x hx => ?_, ?_⟩
  · rw [hans, mem_append, mem_singleton] at hx
    exact (hx.elim (h.answers x) fun hx => hfit x hx.symm).mono hw
  · rw [hup, mem_append] at hx
    rw [hans, mem_append]
    exact hx.imp (h.seen x) id
  · refine h.last.imp id fun ⟨x, hx, heq⟩ => ⟨x, ?_, heq⟩
    rw [hans]
    exact mem_append_left _ hx
  · rw [hup, mem_append, mem_singleton] at hx
    rcases hx with hx | rfl
    · exact h.ahead x hx
    · rcases h.last with rfl | ⟨y, hy, rfl⟩
      · exact Nat.zero_le _
      · exact Nat.succ_le_succ (hle x rfl y hy)
  · rw [hup, filterMap_append, pairwise_append]
    refine ⟨h.sorted, ?_, fun i hi j hj => ?_⟩
    · cases reply with
      | ack x => exact pairwise_singleton _ _
      | nack _ => exact .nil
      | window _ _ => exact .nil
      | state _ => exact .nil
    · cases reply with
      | ack x =>
        obtain rfl : j = x.chunkTo + 1 := by simpa [ackEnd] using hj
        obtain ⟨z, hz, heq⟩ := mem_filterMap.mp hi
        cases z with
        | ack y =>
          cases heq
          exact Nat.succ_le_succ (hle x rfl y (h.seen y hz))
        | nack _ => cases heq
        | window _ _ => cases heq
        | state _ => cases heq
      | nack _ => simp [ackEnd] at hj
      | window _ _ => simp [ackEnd] at hj
      | state _ => simp [ackEnd] at hj

/-- An answer is handled. -/
theorem AcksOrdered.handled {rest : List Reply} (h : l.AcksOrdered m a) (hup : l.up = reply :: rest)
    (hup' : l'.up = rest) (hans : l'.answers = l.answers) (hw : l.written ≤ l'.written) :
    l'.AcksOrdered m a ∧
      ∀ x, reply = .ack x → l'.AcksOrdered m (x.chunkTo + 1) := by
  obtain ⟨h1, h2, h3, h4, h5⟩ := h
  rw [hup] at h2 h4 h5
  rw [← hans] at h1 h2 h3
  have hsorted : (l'.up.filterMap ackEnd).Pairwise (· ≤ ·) := by
    rw [hup']
    cases reply with
    | ack x =>
      rw [filterMap_cons_some (rfl : ackEnd (.ack x) = some (x.chunkTo + 1))] at h5
      exact (pairwise_cons.mp h5).2
    | nack _ => exact h5
    | window _ _ => exact h5
    | state _ => exact h5
  have hseen : ∀ x, .ack x ∈ l'.up → .ack x ∈ l'.answers := fun x hx =>
    h2 x (mem_cons_of_mem _ (hup' ▸ hx))
  have hans' : ∀ x, .ack x ∈ l'.answers → AckOf m l'.written x := fun x hx => (h1 x hx).mono hw
  refine ⟨⟨hans', hseen, h3, fun x hx => h4 x (mem_cons_of_mem _ (hup' ▸ hx)), hsorted⟩, ?_⟩
  rintro x rfl
  refine ⟨hans', hseen, .inr ⟨x, h2 x mem_cons_self, rfl⟩, fun y hy => ?_, hsorted⟩
  rw [filterMap_cons_some (rfl : ackEnd (.ack x) = some (x.chunkTo + 1))] at h5
  exact (pairwise_cons.mp h5).1 _ (mem_filterMap.mpr ⟨.ack y, hup' ▸ hy, rfl⟩)

/-- What was written never goes back, and is accepted. -/
theorem written_le (hm : m.Covers D) (h : l.Inv m D H) (hs : Step H m D l l') :
    l.written ≤ l'.written := by
  have hmoved : ∀ r r' : Receiver, l.rcv = some r → l'.rcv = some r' →
      r.tr.nextChunk ≤ r'.tr.nextChunk → l.written ≤ l'.written := by
    intro r r' hr hr' hle
    simpa only [written, hr, hr'] using hle
  cases hs with
  | opened m' k ho => simp [written, (h.opening m' ho).2]
  | receiver r r' hr hs =>
    exact hmoved r r' hr rfl ((h.receiver r hr).next_le hm hs)
  | reply r r' x hr hs =>
    exact hmoved r r' hr rfl ((h.receiver r hr).next_le hm hs)
  | received r r' f rest hdown hr hs =>
    exact hmoved r r' hr rfl ((h.receiver r hr).next_le hm hs)
  | outside r r' hr hs =>
    exact hmoved r r' hr rfl (Nat.le_of_eq (inv_outside (h.receiver r hr) hs).2.1.symm)
  | sender | request | handled | announced | refused | unknown | early | openFails | openLost =>
    exact Nat.le_refl _

theorem Inv.written_le_accepted (h : l.Inv m D H) (hb : l.Bounded b) :
    l.written ≤ b ∧ l.written ≤ m.chunkCount := by
  cases hr : l.rcv with
  | none => simp [written, hr]
  | some r =>
    have hc := (h.receiver r hr).counted
    have := hb.accepted r hr
    simp only [written, hr]
    exact ⟨Nat.le_trans hc.next_le this, Nat.le_trans hc.next_le hc.accepted_le⟩

/-- The frames and the cursor of the receiver stay below what was pushed. -/
theorem bounded_step (h : l.Bounded b) (hs : Step H m D l l')
    (hsend : ∀ c, l'.down = l.down ++ [.data c] → c.chunkID < b) : l'.Bounded b := by
  obtain ⟨h1, h2⟩ := h
  have hrest : ∀ f rest, l.down = f :: rest → ∀ c, Request.data c ∈ rest → c.chunkID < b :=
    fun f rest hd c hc => h1 c (hd ▸ mem_cons_of_mem _ hc)
  have hmoved : ∀ r r' : Receiver, l.rcv = some r →
      r'.tr.acceptedNextChunk = r.tr.acceptedNextChunk →
      ∀ x, some r' = some x → x.tr.acceptedNextChunk ≤ b := by
    rintro r r' hr heq x ⟨⟩
    exact heq ▸ h2 r hr
  cases hs with
  | request s f hs =>
    refine ⟨fun c hc => ?_, h2⟩
    rcases mem_append.mp hc with hc | hc
    · exact h1 c hc
    · obtain rfl := mem_singleton.mp hc
      exact hsend c rfl
  | announced m' rest hd | refused m' rest hd | unknown f rest hd =>
    exact ⟨hrest _ _ hd, h2⟩
  | opened m' k _ =>
    refine ⟨h1, fun r hr => ?_⟩
    cases hr
    exact Nat.zero_le _
  | receiver r r' hr hs =>
    exact ⟨h1, hmoved r r' hr ((Receiver.accepted_step hs).resolve_right fun ⟨_, hc, _⟩ =>
      nomatch hc)⟩
  | reply r r' x hr hs =>
    exact ⟨h1, hmoved r r' hr ((Receiver.accepted_step hs).resolve_right fun ⟨_, hc, _⟩ =>
      nomatch hc)⟩
  | received r r' f rest hd hr hs =>
    refine ⟨hrest f rest hd, ?_⟩
    rcases Receiver.accepted_step hs with heq | ⟨c, hc, heq⟩
    · exact hmoved r r' hr heq
    · rintro x ⟨⟩
      cases hc
      exact heq ▸ h1 c (hd ▸ mem_cons_self)
  | outside r r' hr hs =>
    refine ⟨h1, hmoved r r' hr ?_⟩
    cases hs with
    | stop e => exact IncomingTransfer.stop_accepted _ e
    | suspend e => exact IncomingTransfer.suspend_accepted _ e
    | unlist => rfl
    | cancel => rfl
  | sender | handled | early | openFails | openLost => exact ⟨h1, h2⟩

theorem Bounded.mono {b' : ℕ} (h : l.Bounded b) (hb : b ≤ b') : l.Bounded b' :=
  ⟨fun c hc => Nat.lt_of_lt_of_le (h.down c hc) hb,
    fun r hr => Nat.le_trans (h.accepted r hr) hb⟩

/-- The condition on a step: an acknowledgement is sent only when none with more
    bytes was sent before it. -/
def InOrder (l l' : Link) : Prop :=
  ∀ x, l'.answers = l.answers ++ [.ack x] →
    ∀ y, .ack y ∈ l.answers → y.receivedBytes ≤ x.receivedBytes

/-- The invariant along the steps that send acknowledgements in order. -/
structure Paced (m : TransferBegin) (D : Bytes) (H : Bytes → Bytes) (a b : ℕ) (l : Link) :
    Prop where
  inv : l.Inv m D H
  window : l.snd.Window m D a b
  bounded : l.Bounded b
  acks : l.AcksOrdered m a

/-- An acknowledgement on its way is of chunks that were pushed. -/
theorem Paced.ack_fits {x : Ack} (h : l.Paced m D H a b) (hx : .ack x ∈ l.up) : AckOf m b x := by
  have hfit : AckOf m l.written x := h.inv.up _ hx
  exact hfit.mono (h.inv.written_le_accepted h.bounded).1

theorem paced_handled {rest : List Reply} (hm : m.Covers D) (h : l.Paced m D H a b)
    (hup : l.up = reply :: rest) (hr : l.snd.reader = .ready) :
    ∃ a b, ({ l with snd := l.snd.handleReply reply, up := rest } : Link).Paced m D H a b := by
  have hs : Step H m D l { l with snd := l.snd.handleReply reply, up := rest } :=
    .handled l _ reply rest hup (.reply _ _ hr)
  have hinv := inv_step hm h.inv hs
  have hb := bounded_step h.bounded hs fun c hc => absurd hc (by simp)
  obtain ⟨hacks, hacks'⟩ := h.acks.handled hup
    (rfl : ({ l with snd := l.snd.handleReply reply, up := rest } : Link).up = rest) rfl
    (Nat.le_refl _)
  have hother : (∀ x, reply ≠ .ack x) →
      ∃ a b, ({ l with snd := l.snd.handleReply reply, up := rest } : Link).Paced m D H a b :=
    fun hne => ⟨a, b, hinv, Sender.window_reply h.window hne, hb, hacks⟩
  cases reply with
  | ack x =>
    have hmem : .ack x ∈ l.up := hup ▸ mem_cons_self
    have hwin := Sender.window_ack hm h.window (h.ack_fits hmem) (h.acks.ahead x hmem)
    by_cases hreg : l.snd.registered = true
    · rw [if_pos hreg] at hwin
      exact ⟨_, b, hinv, hwin, hb, hacks' x rfl⟩
    · rw [if_neg hreg] at hwin
      exact ⟨a, b, hinv, hwin, hb, hacks⟩
  | nack _ => exact hother (by simp)
  | window _ _ => exact hother (by simp)
  | state _ => exact hother (by simp)

/-- A step that sends acknowledgements in order keeps the invariant. -/
theorem paced_step (hm : m.Covers D) (h : l.Paced m D H a b) (hs : Step H m D l l')
    (hord : InOrder l l') : ∃ a b, l'.Paced m D H a b := by
  have hinv := inv_step hm h.inv hs
  have hw := written_le hm h.inv hs
  -- The steps of the receiver leave the sender and its window as they are.
  have hsame : l'.snd = l.snd → (∀ c, l'.down ≠ l.down ++ [.data c]) → l'.AcksOrdered m a →
      ∃ a b, l'.Paced m D H a b := fun hsnd hdown hacks =>
    ⟨a, b, hinv, hsnd ▸ h.window, bounded_step h.bounded hs fun c hc => absurd hc (hdown c), hacks⟩
  have hans : ∀ reply, l'.up = l.up ++ [reply] → l'.answers = l.answers ++ [reply] →
      l'.AcksOrdered m a := by
    intro reply hup hans
    refine h.acks.answer hm (h.inv.written_le_accepted h.bounded).2 (fun x hx => ?_)
      (fun x hx => hord x (hx ▸ hans)) hup hans hw
    subst hx
    exact inv_answer h.inv hs hans
  have hshort : ∀ (f : Request) (rest : List Request), l.down = f :: rest →
      ∀ c, rest ≠ l.down ++ [.data c] := by
    intro f rest hd c heq
    have := congrArg List.length heq
    simp [hd] at this
    omega
  cases hs with
  | sender s hs =>
    obtain ⟨b', hle, hwin⟩ := Sender.window_step hm h.window hs nofun
    exact ⟨a, b', hinv, hwin, bounded_step (H := H) (h.bounded.mono hle) (.sender l s hs)
      fun c hc => absurd hc (by simp), h.acks.same rfl rfl hw⟩
  | request s f hs =>
    obtain ⟨b', hle, hwin⟩ := Sender.window_step hm h.window hs nofun
    refine ⟨a, b', hinv, hwin, bounded_step (H := H) (h.bounded.mono hle) (.request l s f hs)
      fun c hc => (h.window.sends hs ?_).trans_le hle, h.acks.same rfl rfl hw⟩
    simpa using hc
  | handled s reply rest hup hs =>
    cases hs with
    | reply _ hr => exact paced_handled hm h hup hr
  | announced m' rest hd => exact hsame rfl (hshort _ _ hd) (h.acks.same rfl rfl hw)
  | refused m' rest hd => exact hsame rfl (hshort _ _ hd) (hans _ rfl rfl)
  | unknown f rest hd => exact hsame rfl (hshort _ _ hd) (h.acks.same rfl rfl hw)
  | early x rest _ => exact hsame rfl (fun c => by simp [answer]) (hans x rfl rfl)
  | openFails m' _ => exact hsame rfl (fun c => by simp [answer]) (hans _ rfl rfl)
  | reply r r' x _ _ => exact hsame rfl (fun c => by simp [answer]) (hans x rfl rfl)
  | received r r' f rest hd => exact hsame rfl (hshort _ _ hd) (h.acks.same rfl rfl hw)
  | opened | openLost | receiver | outside =>
    exact hsame rfl (fun c => by simp) (h.acks.same rfl rfl hw)

theorem paced_start {ot : OutgoingTransfer} (hp : ot.pending = []) (hc : ot.completed = false)
    (ha : ot.ackedBytes = 0) (ht : ot.totalBytes = m.totalSize)
    (hn : ot.chunkCount = m.chunkCount) : (start ot).Paced m D H 0 0 := by
  refine ⟨inv_start ot hp hc, ⟨?_, ?_, ht, hn, Nat.zero_le _, rfl, ⟨?_, ?_⟩⟩, ⟨?_, ?_⟩,
    ⟨?_, ?_, .inl rfl, ?_, .nil⟩⟩
  · simp only [start, hp]
    rfl
  · simp [start, ha, TransferBegin.offset]
  all_goals simp [start]

/-- Along every run whose acknowledgements are sent in order, each of them that
    reaches the sender is accepted. -/
theorem acks_accepted (H : Bytes → Bytes) (D : Bytes) (chunkSize flags : ℕ)
    (checksum : Bytes) (id retryLimit maxInFlight maxInFlightBytes : ℕ) (hasRemoteWindow : Bool)
    (l : Link) (x : Ack) (rest : List Reply) :
    let m := announce D chunkSize flags checksum
    let ot := registerOutgoing id retryLimit maxInFlight maxInFlightBytes hasRemoteWindow m
    ReflTransGen (Run.Guarded (Step H m D) InOrder) (start ot) l → l.up = .ack x :: rest →
      (l.snd.ot.handleAck x).2 = none ∧ (l.snd.ot.handleAck x).1.failed = l.snd.ot.failed := by
  intro m ot hrun hup
  by_cases hsend : m.sendable = true
  · have hm : m.Covers D := covers_announce hsend
    obtain ⟨a, b, h⟩ : ∃ a b, l.Paced m D H a b :=
      Run.invariant (fun l => ∃ a b, l.Paced m D H a b) ⟨0, 0, paced_start rfl rfl rfl rfl rfl⟩
        (fun _ _ ⟨_, _, h⟩ hs => paced_step hm h hs.1 hs.2) hrun
    have hmem : .ack x ∈ l.up := hup ▸ mem_cons_self
    obtain ⟨-, -, -, -, h1, h2⟩ := handleAck_window hm h.window.chunks h.window.acked
      h.window.totalBytes h.window.chunkCount h.window.bound (h.ack_fits hmem)
      (h.acks.ahead x hmem)
    exact ⟨h1, h2⟩
  · have hsend : m.sendable = false := by simpa using hsend
    have hu : l.Unsent := Run.invariant _ (unsent_start ot rfl rfl)
      (fun _ _ h hs => (unsent_step hsend h hs).1) (Run.of_guarded hrun)
    simp [hu.up] at hup

/-- A step that sends nothing back meets the condition. -/
theorem silent (hs : Step H m D l l') (h : l'.answers = l.answers) :
    Run.Guarded (Step H m D) InOrder l l' :=
  ⟨hs, fun x hx => absurd (h.symm.trans hx) (by simp)⟩

/-- The bytes that an answer acknowledges. -/
def acked : Reply → ℕ
  | .ack a => a.receivedBytes
  | _ => 0

theorem answered {x : Reply} (hs : Step H m D l l') (hx : l'.answers = l.answers ++ [x])
    (h : ∀ y ∈ l.answers, acked y ≤ acked x) : Run.Guarded (Step H m D) InOrder l l' := by
  refine ⟨hs, fun a ha y hy => ?_⟩
  obtain rfl : x = .ack a := by simpa using hx.symm.trans ha
  exact h _ hy

/-- Two chunks are sent, and the first of them again. The runner acknowledges the first chunk, and
    the reader is about to answer its duplicate. -/
def duplicated : { l // ReflTransGen
    (Run.Guarded (Step id (announce [7, 8] 1 0 []) [7, 8]) InOrder)
    (start (registerOutgoing 1 3 2 2 false (announce [7, 8] 1 0 []))) l } :=
  ⟨_,
    .head (silent (.request _ _ _ (.begin _ rfl rfl)) rfl) <|
    .head (silent (.announced _ _ _ rfl rfl rfl rfl rfl) rfl) <|
    .head (silent (.opened _ _ 2 rfl) rfl) <|
    .head (silent (.sender _ _ (.push _ 0 rfl (by decide) rfl rfl)) rfl) <|
    .head (silent (.request _ _ _ (.encode _ 0 [7] rfl rfl fun _ => rfl)) rfl) <|
    .head (silent (.sender _ _ (.push _ 1 rfl (by decide) rfl rfl)) rfl) <|
    .head (silent (.request _ _ _ (.encode _ 1 [8] rfl rfl fun _ => rfl)) rfl) <|
    .head (silent (.sender _ _ (.tick _ false (fun k => k == 0) rfl rfl)) rfl) <|
    .head (silent (.request _ _ _ (.task _ _ _ rfl rfl)) rfl) <|
    .head (silent (.received _ _ _ _ _ rfl rfl (.data _ true _ rfl)) rfl) <|
    .head (silent (.received _ _ _ _ _ rfl rfl (.data _ true _ rfl)) rfl) <|
    .head (silent (.receiver _ _ _ rfl (.take _ _ _ rfl rfl)) rfl) <|
    .head (silent (.receiver _ _ _ rfl (.taken _ _ rfl)) rfl) <|
    .head (silent (.receiver _ _ _ rfl (.written _ _ 1 none rfl)) rfl) <|
    .head (silent (.receiver _ _ _ rfl (.account _ _ rfl)) rfl) <|
    .head (answered (.reply _ _ _ _ rfl (.ack _ _ rfl)) rfl (by decide)) <|
    .head (silent (.receiver _ _ _ rfl (.noWindow _ rfl)) rfl) <|
    .single (silent (.received _ _ _ _ _ rfl rfl (.data _ true _ rfl)) rfl)⟩

/-- The answers are in the order of their bytes; that to the second chunk is still to be handled. -/
theorem duplicate_acked : ∃ l x, ReflTransGen
    (Run.Guarded (Step id (announce [7, 8] 1 0 []) [7, 8]) InOrder)
    (start (registerOutgoing 1 3 2 2 false (announce [7, 8] 1 0 []))) l ∧
      l.answers.map acked = [1, 1, 2] ∧ l.up = [.ack x] :=
  ⟨_, _, duplicated.2.trans <|
    .head (answered (.reply _ _ _ _ rfl (.reply _ _ _ rfl)) rfl (by decide)) <|
    .head (silent (.receiver _ _ _ rfl (.take _ _ _ rfl rfl)) rfl) <|
    .head (silent (.receiver _ _ _ rfl (.taken _ _ rfl)) rfl) <|
    .head (silent (.receiver _ _ _ rfl (.written _ _ 1 none rfl)) rfl) <|
    .head (silent (.receiver _ _ _ rfl (.account _ _ rfl)) rfl) <|
    .head (answered (.reply _ _ _ _ rfl (.ack _ _ rfl)) rfl (by decide)) <|
    .head (silent (.handled _ _ _ _ rfl (.reply _ _ rfl)) rfl) <|
    .single (silent (.handled _ _ _ _ rfl (.reply _ _ rfl)) rfl), rfl, rfl⟩

theorem duplicate_ack_accepted : ∃ l x, ReflTransGen
    (Run.Guarded (Step id (announce [7, 8] 1 0 []) [7, 8]) InOrder)
    (start (registerOutgoing 1 3 2 2 false (announce [7, 8] 1 0 []))) l ∧
      l.answers.map acked = [1, 1, 2] ∧ l.up = [.ack x] ∧
      (l.snd.ot.handleAck x).2 = none ∧ (l.snd.ot.handleAck x).1.failed = l.snd.ot.failed := by
  obtain ⟨l, x, hrun, hacked, hup⟩ := duplicate_acked
  exact ⟨l, x, hrun, hacked, hup, acks_accepted id [7, 8] 1 0 [] 1 3 2 2 false l x [] hrun hup⟩

/-- The reader answers a duplicate of the first chunk with what was written by then,
    and the runner overtakes it: the sender has handled the acknowledgement of both
    chunks when that of the first one arrives. -/
theorem overtaken_ack_refused :
    ∃ l x rest, ReflTransGen (Step id (announce [7, 8] 1 0 []) [7, 8])
      (start (registerOutgoing 1 3 2 2 false (announce [7, 8] 1 0 []))) l ∧
        l.up = .ack x :: rest ∧ l.snd.registered = true ∧ l.snd.ot.failed = none ∧
        (l.snd.ot.handleAck x).2 = some "ack counters exceed outgoing transfer" :=
  ⟨_, _, _, (Run.of_guarded duplicated.2).trans <|
    .head (.receiver _ _ _ rfl (.take _ _ _ rfl rfl)) <|
    .head (.receiver _ _ _ rfl (.taken _ _ rfl)) <|
    .head (.receiver _ _ _ rfl (.written _ _ 1 none rfl)) <|
    .head (.receiver _ _ _ rfl (.account _ _ rfl)) <|
    .head (.reply _ _ _ _ rfl (.ack _ _ rfl)) <|
    .head (.reply _ _ _ _ rfl (.reply _ _ _ rfl)) <|
    .head (.handled _ _ _ _ rfl (.reply _ _ rfl)) <|
    .single (.handled _ _ _ _ rfl (.reply _ _ rfl)), rfl, rfl, rfl, rfl⟩

end Link

end Etp.Transfer
