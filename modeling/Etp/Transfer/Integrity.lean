import Etp.Lib.Run
import Etp.Transfer.Link
import Etp.Transfer.SenderInvariant

/-!
# Integrity of a transfer

When the transfer of a byte string `D` ends without an error, the writer of the
receiver was given `D`, all of it and nothing else, and was closed without an
error before the receiver said so (`Link.returned_delivered`). This holds for
every interleaving of the two sessions.

The invariant of a link ties the two ends together by two facts about the
receiver: how many chunks it has written, and whether it has completed the
transfer. All frames on their way are right relative to these.
-/

namespace Etp.Transfer

open Relation List

variable {m : TransferBegin} {D : Bytes} {H : Bytes → Bytes}

namespace Link

variable {l l' : Link}

/-- How many chunks were written. -/
def written (l : Link) : ℕ :=
  match l.rcv with
  | some r => r.tr.nextChunk
  | none => 0

/-- The receiver has completed the transfer. -/
def Done (m : TransferBegin) (D : Bytes) (H : Bytes → Bytes) (l : Link) : Prop :=
  ∃ r, l.rcv = some r ∧ r.Completed m D H

/-- The invariant of a transfer of `D`. -/
structure Inv (m : TransferBegin) (D : Bytes) (H : Bytes → Bytes) (l : Link) : Prop where
  sender : l.snd.Fits m D l.written (l.Done m D H)
  receiver : ∀ r, l.rcv = some r → r.Inv m D H
  opening : ∀ m', l.opening = some m' → m' = m ∧ l.rcv = none
  down : ∀ f ∈ l.down, f.Fits m D l.written
  up : ∀ reply ∈ l.up, reply.Fits m l.written (l.Done m D H)
  early : ∀ reply ∈ l.early, reply.Fits m l.written (l.Done m D H)

/-- The invariant where the receiver, and what it has written, is as before. -/
theorem Inv.same {s : Sender} (h : l.Inv m D H) (hrcv : l'.rcv = l.rcv) (hsnd : l'.snd = s)
    (hs : s.Fits m D l.written (l.Done m D H))
    (hopen : ∀ m', l'.opening = some m' → m' = m ∧ l.rcv = none)
    (hdown : ∀ f ∈ l'.down, f.Fits m D l.written)
    (hup : ∀ reply ∈ l'.up, reply.Fits m l.written (l.Done m D H))
    (hearly : ∀ reply ∈ l'.early, reply.Fits m l.written (l.Done m D H)) : l'.Inv m D H := by
  have hw : l'.written = l.written := by rw [written, written, hrcv]
  have hd : l'.Done m D H = l.Done m D H := by rw [Done, Done, hrcv]
  exact ⟨hw ▸ hd ▸ hsnd ▸ hs, fun r hr => h.receiver r (hrcv ▸ hr), hrcv ▸ hopen, hw ▸ hdown,
    hw ▸ hd ▸ hup, hw ▸ hd ▸ hearly⟩

/-- The invariant where the receiver moves on. -/
theorem Inv.moved {r r' : Receiver} (h : l.Inv m D H) (hr : l.rcv = some r)
    (hr' : r'.Inv m D H) (hn : r.tr.nextChunk ≤ r'.tr.nextChunk)
    (hc : r.Completed m D H → r'.Completed m D H) {down : List Request} {up answers : List Reply}
    (hdown : ∀ f ∈ down, f.Fits m D l.written)
    (hup : ∀ reply ∈ up, reply.Fits m l.written (l.Done m D H)) :
    ({ l with rcv := some r', down := down, up := up, answers := answers } : Link).Inv m D H := by
  have hw : l.written ≤ r'.tr.nextChunk := by
    simpa only [written, hr] using hn
  have hd : l.Done m D H → ∃ x, some r' = some x ∧ x.Completed m D H := by
    rintro ⟨x, hx, hcx⟩
    obtain rfl : r = x := Option.some.inj (hr.symm.trans hx)
    exact ⟨r', rfl, hc hcx⟩
  refine ⟨h.sender.mono hw hd, fun x hx => ?_, fun m' hm' => ?_, fun f hf => (hdown f hf).mono hw,
    fun reply hmem => (hup reply hmem).mono hw hd,
    fun reply hmem => (h.early reply hmem).mono hw hd⟩
  · cases hx
    exact hr'
  · have := (h.opening m' hm').2
    simp [hr] at this

variable {reply : Reply}

/-- What the receiver says about an answer, for the link. -/
theorem fits_of_replyFits {r : Receiver} (hr : l.rcv = some r) (h : r.ReplyFits m D H reply) :
    reply.Fits m l.written (l.Done m D H) := by
  cases reply with
  | ack a =>
    simp only [Reply.Fits, written, hr]
    exact h
  | state s => exact fun hs => ⟨r, hr, h hs⟩
  | nack _ => trivial
  | window _ _ => trivial

/-- A transfer that is opened has a receiver at its beginning. -/
theorem inv_opened {n : ℤ} {early : List Reply}
    (he : ∀ reply ∈ early, reply.Fits m 0 False) : (opened n m early).Inv m D H := by
  refine ⟨⟨rfl, Nat.le_refl _, Nat.zero_le _, ?_, ?_, nofun, ?_, nofun⟩,
    fun _ _ _ => .inr ⟨rfl, rfl⟩, ?_, trivial, nofun, nofun, nofun, fun _ => ?_⟩
  · simp [opened, newIncomingTransfer, TransferBegin.offset]
  · simp [opened, newIncomingTransfer, TransferBegin.offset]
  · simp [opened, newIncomingTransfer]
  · by_cases hnil : early = []
    · simp [Receiver.ReaderFits, opened, hnil]
    · simp only [Receiver.ReaderFits, opened, if_neg hnil]
      intro reply hmem
      cases reply with
      | ack a => exact he _ hmem
      | state s => exact fun hs => (he _ hmem hs).elim
      | nack _ => trivial
      | window _ _ => trivial
  · simp only [opened]
    split_ifs <;> rfl

/-- What comes from outside keeps the invariant of the receiver. -/
theorem inv_outside {r r' : Receiver} (h : r.Inv m D H) (hs : Outside r r') :
    r'.Inv m D H ∧ r'.tr.nextChunk = r.tr.nextChunk ∧
      (r.Completed m D H → r'.Completed m D H) := by
  have hhalt : ∀ tr', r.tr.Halted tr' → ({ r with tr := tr' } : Receiver).Inv m D H ∧
      tr'.nextChunk = r.tr.nextChunk ∧
      (r.Completed m D H → ({ r with tr := tr' } : Receiver).Completed m D H) := by
    intro tr' ht
    have hi := h.halt ht
    obtain ⟨e, b, rfl⟩ := ht
    exact ⟨hi, rfl, id⟩
  cases hs with
  | stop e => exact hhalt _ (r.tr.halted_stop h.counted.closed e)
  | suspend e => exact hhalt _ (r.tr.halted_suspend h.counted.closed e)
  | unlist | cancel => exact ⟨h.frame id id h.counted.closed, rfl, id⟩

/-- The next frame towards the receiver is right for it. -/
theorem Inv.requestFits {r : Receiver} {f : Request} {rest : List Request} (h : l.Inv m D H)
    (hd : l.down = f :: rest) (hr : l.rcv = some r) : r.RequestFits m D (.receive f) := by
  have hf := h.down f (hd ▸ mem_cons_self)
  cases f with
  | begin _ => trivial
  | data c =>
    simp only [Request.Fits, written, hr] at hf
    exact hf
  | finish => trivial

/-- The answers that are on their way, and one more. -/
theorem Inv.up_answer (h : l.Inv m D H) (hr : reply.Fits m l.written (l.Done m D H)) :
    ∀ x ∈ l.up ++ [reply], x.Fits m l.written (l.Done m D H) :=
  forall_mem_append.mpr ⟨h.up, forall_mem_singleton.mpr hr⟩

theorem inv_step (hm : m.Covers D) (h : l.Inv m D H) (hs : Step H m D l l') : l'.Inv m D H := by
  cases hs with
  | sender s hs =>
    exact h.same rfl rfl (Sender.fits_step h.sender hs nofun) h.opening h.down h.up h.early
  | request s f hs =>
    have hdown := forall_mem_append.mpr
      ⟨h.down, forall_mem_singleton.mpr (h.sender.sends hs rfl)⟩
    exact h.same rfl rfl (Sender.fits_step h.sender hs nofun) h.opening hdown h.up h.early
  | handled s reply rest hup hs =>
    have hall : ∀ x ∈ reply :: rest, x.Fits m l.written (l.Done m D H) := hup ▸ h.up
    refine h.same rfl rfl (Sender.fits_step h.sender hs fun x hx => ?_) h.opening h.down
      (fun x hx => hall x (mem_cons_of_mem _ hx)) h.early
    cases hx
    exact hall _ mem_cons_self
  | announced m' rest hdown hrcv _ _ _ =>
    have hall : ∀ f ∈ Request.begin m' :: rest, f.Fits m D l.written := hdown ▸ h.down
    refine h.same rfl rfl h.sender (fun x hx => ?_)
      (fun f hf => hall f (mem_cons_of_mem _ hf)) h.up h.early
    cases hx
    exact ⟨hall _ mem_cons_self, hrcv⟩
  | refused m' rest hdown _ _ _ =>
    exact h.same rfl rfl h.sender h.opening
      (fun f hf => h.down f (hdown ▸ mem_cons_of_mem _ hf)) (h.up_answer trivial) h.early
  | unknown f rest hdown _ _ _ _ =>
    refine h.same rfl rfl h.sender h.opening
      (fun f hf => h.down f (hdown ▸ mem_cons_of_mem _ hf)) h.up fun x hx => ?_
    rw [mem_singleton.mp hx]
    cases f <;> trivial
  | early reply rest he =>
    exact h.same rfl rfl h.sender h.opening h.down
      (h.up_answer (h.early reply (he ▸ mem_cons_self)))
      fun x hx => h.early x (he ▸ mem_cons_of_mem _ hx)
  | opened m' k hopen =>
    obtain ⟨rfl, hrcv⟩ := h.opening m' hopen
    have hw : l.written ≤ 0 := by simp [written, hrcv]
    have hd : l.Done m' D H → False := fun ⟨r, hr, _⟩ => by simp [hrcv] at hr
    refine ⟨h.sender.mono hw fun hx => (hd hx).elim, fun r hr => ?_, nofun,
      fun f hf => (h.down f hf).mono hw, fun x hx => (h.up x hx).mono hw fun hx => (hd hx).elim,
      nofun⟩
    cases hr
    exact inv_opened fun x hx => (h.early x hx).mono hw hd
  | openFails m' _ => exact h.same rfl rfl h.sender nofun h.down (h.up_answer trivial) h.early
  | openLost m' _ => exact h.same rfl rfl h.sender nofun h.down h.up h.early
  | receiver r r' hr hs =>
    have hi := h.receiver r hr
    exact h.moved hr (Receiver.inv_step (l := .internal) hm hi trivial hs) (hi.next_le hm hs)
      (fun hc => hc.step hi hs) h.down h.up
  | reply r r' reply hr hs =>
    have hi := h.receiver r hr
    exact h.moved hr (Receiver.inv_step (l := .send reply) hm hi trivial hs) (hi.next_le hm hs)
      (fun hc => hc.step hi hs) h.down (h.up_answer (fits_of_replyFits hr (hi.sends hs)))
  | received r r' f rest hdown hr hs =>
    have hi := h.receiver r hr
    exact h.moved hr (Receiver.inv_step hm hi (h.requestFits hdown hr) hs) (hi.next_le hm hs)
      (fun hc => hc.step hi hs) (fun f hf => h.down f (hdown ▸ mem_cons_of_mem _ hf)) h.up
  | outside r r' hr hs =>
    obtain ⟨h1, h2, h3⟩ := inv_outside (h.receiver r hr) hs
    exact h.moved hr h1 (Nat.le_of_eq h2.symm) h3 h.down h.up

/-- An answer is right before it is sent. -/
theorem inv_answer (h : l.Inv m D H) (hs : Step H m D l l')
    (ha : l'.answers = l.answers ++ [reply]) : reply.Fits m l.written (l.Done m D H) := by
  have hnone : l.answers ≠ l.answers ++ [reply] := by simp
  have hlast : ∀ x, l.answers ++ [x] = l.answers ++ [reply] → x = reply := by simp
  cases hs with
  | refused m' rest _ _ _ _ =>
    obtain rfl := hlast _ ha
    trivial
  | early x rest he =>
    obtain rfl := hlast x ha
    exact h.early x (he ▸ mem_cons_self)
  | openFails m' _ =>
    obtain rfl := hlast _ ha
    trivial
  | reply r r' x hr hs =>
    obtain rfl := hlast x ha
    exact fits_of_replyFits hr ((h.receiver r hr).sends hs)
  | sender | request | handled | announced | unknown | opened | openLost | receiver | received |
    outside => exact absurd ha hnone

theorem inv_start (ot : OutgoingTransfer) (hp : ot.pending = []) (hc : ot.completed = false) :
    (start ot).Inv m D H := by
  refine ⟨⟨?_, ?_, ⟨?_, ?_⟩, ?_, ?_⟩, ?_, ?_, ?_, ?_, ?_⟩ <;> simp [start, hp, hc]

/-- In every run, a chunk on its way is that of `D` or was written before, and only what was
    written is acknowledged. -/
theorem in_flight_fits {i r n k : ℕ} {w : Bool} (hm : m.Covers D)
    (hrun : ReflTransGen (Step H m D) (start (registerOutgoing i r n k w m)) l) :
    (∀ f ∈ l.down, f.Fits m D l.written) ∧ ∀ x ∈ l.up, x.Fits m l.written (l.Done m D H) := by
  have hi := Run.invariant _ (inv_start _ rfl rfl) (fun _ _ => inv_step hm) hrun
  exact ⟨hi.down, hi.up⟩

theorem in_flight_fits_byte : ∃ l : Link, l.down = [.data ⟨0, [7], true⟩] ∧
    ∀ f ∈ l.down, f.Fits (announce [7] 1 0 []) [7] l.written :=
  ⟨_, rfl, (in_flight_fits (H := id) (i := 1) (r := 1) (n := 1) (k := 1) (w := false)
    (covers_announce rfl) ((run_opened _ 1 rfl).trans (run_sent rfl (by decide) rfl rfl))).1⟩

/-! ## Transfers that are not sent -/

/-- Nothing was sent, and nothing will be. -/
structure Unsent (l : Link) : Prop where
  body : ∀ b, l.snd.body = b → b = .begin ∨ ∃ e, b = .returned (some e)
  pending : l.snd.ot.pending = []
  doneSending : l.snd.ot.doneSending = false
  reader : l.snd.reader = .ready
  monitor : l.snd.monitor = []
  rcv : l.rcv = none
  opening : l.opening = none
  early : l.early = []
  down : l.down = []
  up : l.up = []

/-- A transfer that is not valid is not sent. -/
theorem unsent_step (hm : m.sendable = false) (h : l.Unsent) (hs : Step H m D l l') :
    l'.Unsent ∧ l'.answers = l.answers := by
  obtain ⟨h1, h2, h3, h4, h5, h6, h7, h8, h9, h10⟩ := h
  cases hs with
  | sender s hs =>
    refine ⟨?_, rfl⟩
    cases hs with
    | push k hb | finish k hb | acked hb => simpa using h1 _ hb
    | giveUp e _ => exact ⟨by simp, h2, h3, h4, h5, h6, h7, h8, h9, h10⟩
    | unregister err hb => exact ⟨h1, h2, h3, h4, h5, h6, h7, h8, h9, h10⟩
    | resent hr => simp [h4] at hr
    | tick commit late _ _ =>
      obtain ⟨-, e1, e2⟩ := l.snd.ot.expire_spec commit late
      obtain ⟨e3, e4⟩ := l.snd.ot.expire_unsent commit late h3
      simp only [h2, map_nil, map_eq_nil_iff, not_mem_nil] at e1 e2
      refine ⟨h1, e1, e3, h4, ?_, h6, h7, h8, h9, h10⟩
      simp [Sender.tick, e4, eq_nil_iff_forall_not_mem.mpr e2]
    | skip t rest hmon _ => simp [h5] at hmon
    | fail e => exact ⟨h1, h2, h3, h4, h5, h6, h7, h8, h9, h10⟩
  | request s f hs =>
    cases hs with
    | begin hb hsend => simp [hm] at hsend
    | encode k p hb | sendEnd hb => simpa using h1 _ hb
    | resend c rest hr => simp [h4] at hr
    | task t rest hmon _ => simp [h5] at hmon
  | handled s reply rest hup hs => simp [h10] at hup
  | announced m' rest hd | refused m' rest hd | unknown f rest hd => simp [h9] at hd
  | early reply rest he => simp [h8] at he
  | opened m' k ho | openFails m' ho | openLost m' ho => simp [h7] at ho
  | receiver r r' hr | reply r r' x hr | outside r r' hr => simp [h6] at hr
  | received r r' f rest hd hr => simp [h6] at hr

theorem unsent_start (ot : OutgoingTransfer) (hp : ot.pending = [])
    (hd : ot.doneSending = false) : (start ot).Unsent := by
  refine ⟨fun b hb => .inl hb.symm, hp, hd, rfl, rfl, rfl, rfl, rfl, rfl, rfl⟩

/-! ## Integrity -/

/-- The writer of the receiver was given `D`, by calls that took all they were given, and was then
    closed without an error; the checksum is that of what it was given. -/
def Delivered (m : TransferBegin) (D : Bytes) (H : Bytes → Bytes) (l : Link) : Prop :=
  ∃ (r : Receiver) (chunks : List Bytes), l.rcv = some r ∧
    r.calls = (chunks.map fun p => Call.write p p.length none) ++ [.close none] ∧
    chunks.flatten = D ∧ (m.checksummed = true → H chunks.flatten = m.checksum)

theorem Done.delivered (hm : m.Covers D) (h : l.Done m D H) : l.Delivered m D H := by
  obtain ⟨r, hr, hc⟩ := h
  refine ⟨r, Piece.pieces m.chunkSize D m.chunkCount, hr, hc.2.1, hm.flatten, fun hsum => ?_⟩
  rw [hm.flatten]
  exact hc.2.2.1 hsum

/-- The transfer has ended well: the call that sends it has returned nil, or it is about to be
    reported as completed. -/
def Finished (m : TransferBegin) (D : Bytes) (H : Bytes → Bytes) (l : Link) : Prop :=
  l.snd.body = .returned none ∨
    ∃ l' s, Step H m D l l' ∧ l'.answers = l.answers ++ [.state s] ∧ s.failure = none

theorem Finished.delivered {chunkSize flags : ℕ} {checksum : Bytes} {ot : OutgoingTransfer}
    (hfin : l.Finished (announce D chunkSize flags checksum) D H) (hp : ot.pending = [])
    (hc : ot.completed = false) (hd : ot.doneSending = false)
    (hrun : ReflTransGen (Step H (announce D chunkSize flags checksum) D) (start ot) l) :
    l.Delivered (announce D chunkSize flags checksum) D H := by
  by_cases hsend : (announce D chunkSize flags checksum).sendable = true
  · have hm := covers_announce hsend
    have hi := Run.invariant _ (inv_start ot hp hc) (fun _ _ => inv_step hm) hrun
    rcases hfin with hret | ⟨l', s, hs, ha, hf⟩
    · exact (hi.sender.completed (hi.sender.returned hret)).delivered hm
    · exact Done.delivered hm (inv_answer hi hs ha hf)
  · -- nothing of a transfer that is not announced is answered, and its call fails
    have hsend := Bool.not_eq_true _ ▸ hsend
    have hu : l.Unsent :=
      Run.invariant _ (unsent_start ot hp hd) (fun _ _ h hs => (unsent_step hsend h hs).1) hrun
    rcases hfin with hret | ⟨l', s, hs, ha, hf⟩
    · simpa using hu.body _ hret
    · have := (unsent_step hsend hu hs).2
      simp [this] at ha

/-- What a transfer of `D` that ends well has done, for every run of the two
    sessions; and the same is so before it is reported as completed. -/
theorem returned_delivered (H : Bytes → Bytes) (D : Bytes) (chunkSize flags : ℕ)
    (checksum : Bytes) (id retryLimit maxInFlight maxInFlightBytes : ℕ) (hasRemoteWindow : Bool)
    (l : Link) :
    let m := announce D chunkSize flags checksum
    let ot := registerOutgoing id retryLimit maxInFlight maxInFlightBytes hasRemoteWindow m
    ReflTransGen (Step H m D) (start ot) l →
      (l.snd.body = .returned none → l.Delivered m D H) ∧
      ∀ l' s, Step H m D l l' → l'.answers = l.answers ++ [.state s] → s.failure = none →
        l.Delivered m D H := by
  intro m ot hrun
  refine ⟨fun hret => ?_, fun l' s hs ha hf => ?_⟩
  · exact Finished.delivered (.inl hret) rfl rfl rfl hrun
  · exact Finished.delivered (.inr ⟨l', s, hs, ha, hf⟩) rfl rfl rfl hrun

/-- A byte is sent, written, acknowledged and committed, with or without a checksum. -/
theorem byte_run {flags : ℕ} {checksum : Bytes}
    (hsum : flags = 0 ∧ checksum = List.replicate 32 0 ∨ flags = 1 ∧ checksum = [7]) :
    ∃ l r, ReflTransGen (Step id (announce [7] 1 flags checksum) [7])
      (start (registerOutgoing 1 1 1 1 false (announce [7] 1 flags checksum))) l ∧
      l.snd.body = .returned none ∧ l.rcv = some r ∧
      r.calls = [.write [7] 1 none, .close none] := by
  rcases hsum with ⟨rfl, rfl⟩ | ⟨rfl, rfl⟩ <;> exact ⟨_, _,
    .trans (run_opened _ 1 rfl) <|
    .trans (run_sent rfl (by decide) rfl rfl) <|
    .head (.received _ _ _ _ _ rfl rfl (.data _ true _ rfl)) <|
    .head (.receiver _ _ _ rfl (.take _ _ _ rfl rfl)) <|
    .head (.receiver _ _ _ rfl (.taken _ _ rfl)) <|
    .head (.receiver _ _ _ rfl (.written _ _ 1 none rfl)) <|
    .head (.receiver _ _ _ rfl (.account _ _ rfl)) <|
    .head (.reply _ _ _ _ rfl (.ack _ _ rfl)) <|
    .head (.receiver _ _ _ rfl (.noWindow _ rfl)) <|
    .head (.handled _ _ _ _ rfl (.reply _ _ rfl)) <|
    .head (.sender _ _ (.finish _ 1 rfl (by decide))) <|
    .head (.request _ _ _ (.sendEnd _ rfl)) <|
    .head (.received _ _ _ _ _ rfl rfl (.finish _ rfl)) <|
    .head (.receiver _ _ _ rfl (.endClosing _ rfl)) <|
    .head (.receiver _ _ _ rfl (.drained _ rfl rfl rfl)) <|
    .head (.receiver _ _ _ rfl (.finishing _ rfl)) <|
    .head (.receiver _ _ _ rfl (.exit _ rfl)) <|
    .head (.receiver _ _ _ rfl (.endWaited _ rfl rfl)) <|
    .head (.receiver _ _ _ rfl (.endDone _ rfl)) <|
    .head (.receiver _ _ _ rfl (.endVerify _ rfl)) <|
    .head (.receiver _ _ _ rfl (.closed _ _ none rfl)) <|
    .head (.receiver _ _ _ rfl (.endCommitted _ _ rfl rfl)) <|
    .head (.reply _ _ _ _ rfl (.reply _ _ _ rfl)) <|
    .head (.handled _ _ _ _ rfl (.reply _ _ rfl)) <|
    .single (.sender _ _ (.acked _ rfl (.inr ⟨rfl, rfl⟩))), rfl, rfl, rfl⟩

theorem byte_delivered : ∃ l, ReflTransGen (Step id (announce [7] 1 1 [7]) [7])
    (start (registerOutgoing 1 1 1 1 false (announce [7] 1 1 [7]))) l ∧
      l.snd.body = .returned none ∧ l.Delivered (announce [7] 1 1 [7]) [7] id := by
  obtain ⟨l, -, hrun, hret, -⟩ := byte_run (.inr ⟨rfl, rfl⟩)
  exact ⟨l, hrun, hret, (returned_delivered id [7] 1 1 [7] 1 1 1 1 false l hrun).1 hret⟩

end Link

end Etp.Transfer
