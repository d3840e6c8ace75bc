import Etp.Lib.Run
import Etp.Transfer.Link

/-!
# The slot of a transfer whose writer fails

A transfer takes one of the `MaxConcurrentTransfers` slots of its receiver as long as
it is `listed`. When a call of `Write` fails, the runner stops the transfer and tells
the sender, who gives up; but it is the end of the transfer that takes it off the
list. A sender that learns of the failure before it has sent the end does not send it
any more, and the slot is lost (`slot_lost`).

* `Receiver.Orderly`: the goroutines of a receiver come to the verdict of an end only
  when the runner has finished and no call of `Write` has failed, and from an end that
  has begun there is no way back to the frames of a transfer that is still listed;
* `slot_freed`: where the end is being handled, or is on its way and every chunk has
  been accepted, when the writer fails, the slot is given back.
-/

namespace Etp.Transfer

open Relation IncomingTransfer

variable {m : TransferBegin} {D : Bytes} {H : Bytes → Bytes}

/-- A call of `Write` that has failed: with an error (a panic is one), or by taking less
    than it was given. -/
def Call.fails : Call → Bool
  | .write payload n err => err.isSome || n != payload.length
  | _ => false

/-- The end has waited for the runner. -/
def Reader.waited : Reader → Bool
  | .endDone | .endVerify | .endCommitting => true
  | _ => false

/-- The end has found that nothing has failed. -/
def Reader.clear : Reader → Bool
  | .endVerify | .endCommitting => true
  | _ => false

/-- The reader is inside an end, or will not handle another frame. -/
def Reader.busy : Reader → Bool
  | .ready | .replying _ => false
  | _ => true

theorem Reader.waited_of_clear {p : Reader} (h : p.clear = true) : p.waited = true := by
  cases p <;> first | rfl | cases h

namespace Receiver

/-- A call of `Write` has failed. -/
def broken (r : Receiver) : Bool := r.calls.any Call.fails

/-- How the goroutines of a receiver wait for one another. -/
structure Orderly (r : Receiver) : Prop where
  exited : r.tr.done = true → r.runner = .exited
  stopped : r.broken = true → (∃ c e, r.runner = .failing c e) ∨ r.tr.failed ≠ none
  waited : r.reader.waited = true ∨ r.committer ≠ .idle → r.runner = .exited
  clear : r.reader.clear = true ∨ r.committer ≠ .idle → r.broken = false
  ending : r.listed = true → r.tr.ending = true → r.reader.busy = true ∨ r.committer ≠ .idle

variable {r r' : Receiver}

section Moves

variable {tr : IncomingTransfer} {listed : Bool} {s : Option TransferState} {p : Reader}
  {k : Committer} {x y : Runner} {calls : List Call}

/-- The runner moves: as long as it has not exited, nobody has waited for it. -/
theorem Orderly.runs (h : r.Orderly) (hrunner : r.runner ≠ .exited)
    (hdone : tr.done = true → x = .exited) (hending : tr.ending = r.tr.ending)
    (hstopped : calls.any Call.fails = true → (∃ c e, x = .failing c e) ∨ tr.failed ≠ none) :
    ({ r with tr := tr, runner := x, calls := calls } : Receiver).Orderly := by
  have hnone : ¬(r.reader.waited = true ∨ r.committer ≠ .idle) := fun hw => hrunner (h.waited hw)
  exact ⟨hdone, hstopped, fun hw => absurd hw hnone,
    fun hw => absurd (hw.imp_left Reader.waited_of_clear) hnone,
    fun hl he => h.ending hl (hending ▸ he)⟩

/-- The runner moves on without a call of `Write`. -/
theorem Orderly.goes (h : r.Orderly) (hr : r.runner = y)
    (hy : y.going = true) (hdone : tr.done = r.tr.done) (hending : tr.ending = r.tr.ending)
    (hfailed : tr.failed = r.tr.failed) (hbroken : calls.any Call.fails = r.broken) :
    ({ r with tr := tr, runner := x, calls := calls } : Receiver).Orderly := by
  subst hr
  obtain ⟨hex, hfailing⟩ := Runner.ne_of_going hy
  refine h.runs hex (fun hd => absurd (h.exited (hdone ▸ hd)) hex) hending fun hb => .inr ?_
  rw [hfailed]
  exact (h.stopped (hbroken ▸ hb)).resolve_left fun ⟨c, e, hr⟩ => hfailing c e hr

/-- The reader moves within an end, or on to the next frame. -/
theorem Orderly.reads (h : r.Orderly) (hdone : tr.done = r.tr.done)
    (hbroken : calls.any Call.fails = r.broken) (hfailed : r.tr.failed ≠ none → tr.failed ≠ none)
    (hwaited : p.waited = true ∨ k ≠ .idle → r.runner = .exited)
    (hclear : p.clear = true ∨ k ≠ .idle → r.broken = false)
    (hending : listed = true → tr.ending = true → p.busy = true ∨ k ≠ .idle) :
    ({ r with
        tr := tr
        listed := listed
        remembered := s
        reader := p
        committer := k
        calls := calls } : Receiver).Orderly :=
  ⟨fun hd => h.exited (hdone ▸ hd), fun hb => (h.stopped (hbroken ▸ hb)).imp_right hfailed,
    hwaited, fun hw => hbroken.trans (hclear hw), hending⟩

end Moves

theorem stop_keeps (tr : IncomingTransfer) (e : Err) : (tr.stop e).done = tr.done ∧
    (tr.stop e).ending = tr.ending ∧ (tr.stop e).completeInput = tr.completeInput ∧
    (tr.stop e).failed ≠ none := by
  simp only [stop, closeQueue, completeInput]
  split <;> simp [cancel, fail]

theorem closeQueue_keeps (tr : IncomingTransfer) : tr.closeQueue.done = tr.done ∧
    tr.closeQueue.ending = tr.ending ∧ tr.closeQueue.completeInput = tr.completeInput ∧
    tr.closeQueue.failed = tr.failed := by
  simp only [closeQueue, completeInput]
  split <;> simp

/-- A chunk ends no transfer, and changes nothing about one that has all its chunks. -/
theorem handleData_keeps (tr : IncomingTransfer) (reserve : Bool) (c : Chunk) :
    (tr.handleData reserve c).1.done = tr.done ∧ (tr.handleData reserve c).1.ending = tr.ending ∧
    (tr.handleData reserve c).1.failed = tr.failed ∧
    (tr.completeInput = true → (tr.handleData reserve c).1.completeInput = true) := by
  rcases tr.handleData_cases reserve c with heq | heq | ⟨-, -, hid, hlt, -, -, -, heq⟩
  · rw [heq]
    exact ⟨rfl, rfl, rfl, id⟩
  · rw [heq]
    exact ⟨rfl, rfl, rfl, id⟩
  · rw [heq]
    refine ⟨rfl, rfl, rfl, fun hc => ?_⟩
    simp only [completeInput, Bool.and_eq_true, beq_iff_eq] at hc
    omega

section Orderly

variable (h : r.Orderly)
include h

theorem Orderly.data (hready : r.reader = .ready) (reserve : Bool) (c : Chunk) :
    (r.handleData reserve c).Orderly := by
  obtain ⟨tr, p, heq, htr, hp⟩ := r.handleData_eq reserve c
  obtain ⟨hdone, hending, hfailed, -⟩ := handleData_keeps r.tr reserve c
  have hrecord : tr.done = r.tr.done ∧ tr.ending = r.tr.ending ∧ tr.failed = r.tr.failed := by
    rcases htr with rfl | rfl
    · exact ⟨rfl, rfl, rfl⟩
    · exact ⟨hdone, hending, hfailed⟩
  have hreader : p.waited = false ∧ p.clear = false := by
    rcases hp with rfl | ⟨x, rfl⟩ | ⟨e, rfl⟩
    · simp [hready, Reader.waited, Reader.clear]
    · exact ⟨rfl, rfl⟩
    · exact ⟨rfl, rfl⟩
  rw [heq]
  refine h.reads hrecord.1 rfl (fun hf => hrecord.2.2 ▸ hf) (fun hw => ?_) (fun hw => ?_)
    fun hl he => .inr ((h.ending hl (hrecord.2.1 ▸ he)).resolve_left
      (by simp [hready, Reader.busy]))
  · exact h.waited (hw.imp (by simp [hreader.1]) id)
  · exact h.clear (hw.imp (by simp [hreader.2]) id)

/-- Where the reader has not waited, it is a commit that has. -/
theorem Orderly.quiet {p : Reader} (hp : p.waited = false) :
    p.waited = true ∨ r.committer ≠ .idle → r.runner = .exited := by
  rintro (hw | hc)
  · rw [hp] at hw
    cases hw
  · exact h.waited (.inr hc)

theorem Orderly.sound {p : Reader} (hp : p.clear = false) :
    p.clear = true ∨ r.committer ≠ .idle → r.broken = false := by
  rintro (hw | hc)
  · rw [hp] at hw
    cases hw
  · exact h.clear (.inr hc)

/-- Between frames, an end that has begun is left to a late commit. -/
theorem Orderly.late (hbusy : r.reader.busy = false) (hl : r.listed = true)
    (he : r.tr.ending = true) : r.committer ≠ .idle := by
  refine (h.ending hl he).resolve_left fun hb => ?_
  rw [hbusy] at hb
  cases hb

theorem Orderly.finish (hready : r.reader = .ready) : r.handleEnd.Orderly := by
  have hlate := h.late (by rw [hready]; rfl)
  simp only [handleEnd]
  split_ifs with hl
  · refine h.reads rfl rfl id (h.quiet rfl) (h.sound rfl) fun hl' _ => ?_
    rw [Bool.not_eq_true'] at hl
    exact absurd (hl.symm.trans hl') Bool.false_ne_true
  · exact h.reads rfl rfl id (h.quiet rfl) (h.sound rfl) fun hl he => .inr (hlate hl he)
  · exact h.reads rfl rfl id (h.quiet rfl) (h.sound rfl) fun _ _ => .inl rfl
  · exact h.reads rfl rfl id (h.quiet rfl) (h.sound rfl) fun hl he => .inr (hlate hl he)

/-- When the runner has exited, a failed call of `Write` has failed the transfer. -/
theorem Orderly.unbroken (hrunner : r.runner = .exited) (hfailed : r.tr.failed = none) :
    r.broken = false := by
  by_contra hb
  rcases h.stopped (by simpa using hb) with ⟨c, e, hr⟩ | hf
  · rw [hrunner] at hr
    cases hr
  · exact hf hfailed

theorem Orderly.decided (hreader : r.reader = .endDone) : r.endDone.Orderly := by
  have hrunner := h.waited (.inl (by rw [hreader]; rfl))
  simp only [endDone]
  split
  · exact h.reads rfl rfl id (h.quiet rfl) (h.sound rfl) nofun
  · rename_i hfailed
    exact h.reads rfl rfl id (fun _ => hrunner) (fun _ => h.unbroken hrunner hfailed)
      fun _ _ => .inl rfl

theorem Orderly.verified (hreader : r.reader = .endVerify) : (r.endVerify H).Orderly := by
  simp only [endVerify]
  split
  · refine h.reads rfl ?_ id (h.quiet rfl) (h.sound rfl) nofun
    simp [broken, Call.fails]
  · exact h.reads rfl rfl id (fun _ => h.waited (.inl (by rw [hreader]; rfl)))
      (fun _ => h.clear (.inl (by rw [hreader]; rfl))) fun _ _ => .inl rfl

theorem Orderly.committed (err : Option Err) : (r.endCommitted err).Orderly := by
  simp only [endCommitted]
  split <;> exact h.reads rfl rfl id nofun nofun nofun

/-- The runner goes on after a call of `Write`. -/
theorem Orderly.wrote {c : Chunk} (hrunner : r.runner = .writing c) (n : ℕ) (err : Option Err) :
    (r.written c n err).Orderly := by
  refine h.runs (by simp [hrunner]) (fun hd => absurd (h.exited hd) (by simp [hrunner])) rfl
    fun hb => ?_
  have hfailed (hb : r.broken = true) : r.tr.failed ≠ none :=
    (h.stopped hb).resolve_left (by simp [hrunner])
  cases err with
  | some e => exact .inl ⟨c, e, rfl⟩
  | none =>
    by_cases hn : n = c.payload.length
    · refine .inr (hfailed ?_)
      simpa [broken, written, Call.fails, hn] using hb
    · exact .inl ⟨c, "short write", by simp [hn]⟩

theorem Orderly.step {a : Label} (hstep : Step H r a r') : r'.Orderly := by
  cases hstep with
  | data reserve c hready => exact h.data hready reserve c
  | finish hready => exact h.finish hready
  | reply reply rest hreader =>
    have hlate := h.late (by rw [hreader]; rfl)
    have hp : ∀ p : Reader, p = (if rest = [] then .ready else .replying rest) →
        p.waited = false ∧ p.clear = false := by
      rintro p rfl
      split <;> exact ⟨rfl, rfl⟩
    exact h.reads rfl rfl id (h.quiet (hp _ rfl).1) (h.sound (hp _ rfl).2)
      fun hl he => .inr (hlate hl he)
  | forget => exact { h with }
  | endClosing hreader =>
    obtain ⟨hdone, -, -, hfailed⟩ := closeQueue_keeps r.tr
    exact h.reads hdone rfl (fun hf => hfailed ▸ hf) (h.quiet rfl) (h.sound rfl)
      fun _ _ => .inl rfl
  | endWaited hreader hdone =>
    exact h.reads rfl rfl id (fun _ => h.exited hdone) (h.sound rfl) fun _ _ => .inl rfl
  | endWaitFails e hreader =>
    obtain ⟨hdone, -, -, hfailed⟩ := stop_keeps r.tr e
    exact h.reads hdone rfl (fun _ => hfailed) (h.quiet rfl) (h.sound rfl) fun _ _ => .inl rfl
  | endDone hreader => exact h.decided hreader
  | endVerify hreader => exact h.verified hreader
  | closed late err hclosing =>
    have hc : r.committer ≠ .idle := by simp [hclosing]
    refine h.reads rfl ?_ id (fun _ => h.waited (.inr hc)) (fun _ => h.clear (.inr hc))
      fun _ _ => .inr (by simp)
    simp [broken, Call.fails]
  | endCommitted err => exact h.committed err
  | endTimedOut e hreader hclosing =>
    have hc : r.committer ≠ .idle := by simp [hclosing]
    exact h.reads rfl rfl (fun _ => by simp [reject, fail])
      (fun _ => h.waited (.inr hc)) (fun _ => h.clear (.inr hc))
      fun _ _ => .inr (by simp)
  | late err hclosed =>
    have hc : r.committer ≠ .idle := by simp [hclosed]
    refine h.reads rfl ?_ id (fun _ => h.waited (.inr hc)) (fun _ => h.clear (.inr hc)) ?_
    all_goals simp [broken, Call.fails]
  | written c n err hr => exact h.wrote hr n err
  | account c hr =>
    simp only [account]
    split <;> exact h.goes hr rfl rfl rfl rfl rfl
  | otherWindow => exact h
  | failing c e hr =>
    obtain ⟨hdone, hending, -, hfailed⟩ := stop_keeps r.tr e
    refine h.runs (by simp [hr]) (fun hd => ?_) hending fun _ => .inr hfailed
    exact absurd (h.exited (hdone ▸ hd)) (by simp [hr])
  | take _ _ hr | drained hr | taken _ hr | ack _ hr | window _ _ hr | noWindow hr | nack _ hr
  | finishing hr => exact h.goes hr rfl rfl rfl rfl rfl
  | abort hr | suspend hr =>
    exact h.goes hr rfl rfl rfl rfl (by simp [broken, Call.fails])
  | exit hr =>
    exact h.runs (by simp [hr]) (fun _ => rfl) rfl
      fun hb => .inr ((h.stopped hb).resolve_left (by simp [hr]))

end Orderly

/-- An end that has begun, and a transfer that has all its chunks, stay so. -/
structure Onward (r r' : Receiver) : Prop where
  listed : r'.listed = true → r.listed = true
  ending : r.tr.ending = true → r'.tr.ending = true
  complete : r.tr.completeInput = true → r'.tr.completeInput = true

theorem onward_data (r : Receiver) (reserve : Bool) (c : Chunk) :
    Onward r (r.handleData reserve c) := by
  obtain ⟨tr, p, heq, htr, -⟩ := r.handleData_eq reserve c
  obtain ⟨-, hending, -, hcomplete⟩ := handleData_keeps r.tr reserve c
  rw [heq]
  rcases htr with rfl | rfl
  · exact ⟨id, id, id⟩
  · exact ⟨id, fun he => hending ▸ he, hcomplete⟩

theorem onward_handleEnd (r : Receiver) : Onward r r.handleEnd := by
  simp only [handleEnd]
  split_ifs
  · exact ⟨id, id, id⟩
  · exact ⟨id, id, id⟩
  · exact ⟨id, fun _ => rfl, id⟩
  · exact ⟨id, id, id⟩

theorem onward_step {a : Label} (hstep : Step H r a r') : Onward r r' := by
  cases hstep with
  | data reserve c => exact onward_data r reserve c
  | finish => exact onward_handleEnd r
  | endClosing =>
    obtain ⟨-, hending, hcomplete, -⟩ := closeQueue_keeps r.tr
    exact ⟨id, fun he => hending ▸ he, fun hc => hcomplete ▸ hc⟩
  | endWaitFails e =>
    obtain ⟨-, hending, hcomplete, -⟩ := stop_keeps r.tr e
    exact ⟨id, fun he => hending ▸ he, fun hc => hcomplete ▸ hc⟩
  | endDone =>
    simp only [endDone]
    split
    · exact ⟨nofun, id, id⟩
    · exact ⟨id, id, id⟩
  | endVerify =>
    simp only [endVerify]
    split
    · exact ⟨nofun, id, id⟩
    · exact ⟨id, id, id⟩
  | endCommitted err =>
    simp only [endCommitted]
    split <;> exact ⟨nofun, id, id⟩
  | late => exact ⟨nofun, id, id⟩
  | account c =>
    simp only [account]
    split <;> exact ⟨id, id, id⟩
  | failing c e =>
    obtain ⟨-, hending, hcomplete, -⟩ := stop_keeps r.tr e
    exact ⟨id, fun he => hending ▸ he, fun hc => hcomplete ▸ hc⟩
  | _ => exact ⟨id, id, id⟩

end Receiver

namespace Link

variable {l l' : Link} {r r' : Receiver}

/-- The end of the transfer is being handled, or is on its way and nothing is missing. -/
def EndDue (l : Link) (r : Receiver) : Prop :=
  r.tr.ending = true ∨ (r.tr.completeInput = true ∧ .finish ∈ l.down)

/-- The condition on a step: when the writer fails, the end is due. -/
def FailsAtEnd (l l' : Link) : Prop :=
  ∀ r r', l.rcv = some r → l'.rcv = some r' → r.broken = false → r'.broken = true → l.EndDue r

/-- The invariant: the goroutines of the receiver are in order, and the end of a
    transfer whose writer has failed is due. -/
structure Leaving (l : Link) (r : Receiver) : Prop where
  orderly : r.Orderly
  due : r.broken = true → r.listed = true → l.EndDue r

/-- The receiver moves: an end that was due is still on its way, or was handled. -/
theorem Leaving.moves (h : l.Leaving r) (horderly : r'.Orderly) (honward : r.Onward r')
    (hguard : r.broken = false → r'.broken = true → l.EndDue r)
    (hdown : r'.listed = true → r.tr.completeInput = true → .finish ∈ l.down →
      .finish ∈ l'.down ∨ r'.tr.ending = true) : l'.Leaving r' := by
  refine ⟨horderly, fun hbroken hlisted => ?_⟩
  have hdue : l.EndDue r := by
    cases hb : r.broken with
    | false => exact hguard hb hbroken
    | true => exact h.due hb (honward.listed hlisted)
  rcases hdue with hending | ⟨hcomplete, hfinish⟩
  · exact .inl (honward.ending hending)
  · rcases hdown hlisted hcomplete hfinish with hfinish | hending
    · exact .inr ⟨honward.complete hcomplete, hfinish⟩
    · exact .inl hending

/-- Where the receiver is as before, and no end is lost. -/
theorem Leaving.same (h : l.Leaving r) (hdown : .finish ∈ l.down → .finish ∈ l'.down) :
    l'.Leaving r :=
  h.moves h.orderly ⟨id, id, id⟩ (fun hb hb' => absurd (hb.symm.trans hb') Bool.false_ne_true)
    fun _ _ hf => .inl (hdown hf)

theorem leaving_opened (maxInFlightChunks : ℤ) (m' : TransferBegin) (early : List Reply) :
    l'.Leaving (opened maxInFlightChunks m' early) := by
  refine ⟨⟨nofun, nofun, ?_, fun _ => rfl, nofun⟩, nofun⟩
  simp only [opened]
  split <;> exact nofun

/-- A frame is handled: an end that meets a transfer with all its chunks begins. -/
theorem received_finish {rest : List Request} {f : Request} (hdown : l.down = f :: rest)
    (hstep : Receiver.Step H r (.receive f) r') (hlisted : r'.listed = true)
    (hcomplete : r.tr.completeInput = true) (hfinish : .finish ∈ l.down) :
    .finish ∈ rest ∨ r'.tr.ending = true := by
  rw [hdown] at hfinish
  rcases List.mem_cons.mp hfinish with rfl | hrest
  · have hr := (Receiver.onward_step hstep).listed hlisted
    cases hstep
    refine .inr ?_
    by_cases hending : r.tr.ending = true <;>
      simp [Receiver.handleEnd, hr, hcomplete, hending]
  · exact .inl hrest

/-- The transfer is stopped or suspended from outside. -/
theorem Leaving.halted (h : l.Leaving r) {tr : IncomingTransfer}
    (hdown : .finish ∈ l.down → .finish ∈ l'.down) (hdone : tr.done = r.tr.done)
    (hending : tr.ending = r.tr.ending) (hcomplete : tr.completeInput = r.tr.completeInput)
    (hfailed : tr.failed ≠ none) : l'.Leaving { r with tr := tr } := by
  have horderly : ({ r with tr := tr } : Receiver).Orderly :=
    h.orderly.reads hdone rfl (fun _ => hfailed) h.orderly.waited h.orderly.clear
      fun hl he => h.orderly.ending hl (hending ▸ he)
  exact h.moves horderly ⟨id, fun he => hending.trans he, fun hc => hcomplete.trans hc⟩
    (fun hb hb' => absurd (hb.symm.trans hb') Bool.false_ne_true) fun _ _ hf => .inl (hdown hf)

theorem Leaving.outside (h : l.Leaving r) (hout : Outside r r')
    (hdown : .finish ∈ l.down → .finish ∈ l'.down) : l'.Leaving r' := by
  obtain ⟨hexited, hstopped, hwaited, hclear, hending⟩ := h.orderly
  cases hout with
  | unlist => exact ⟨⟨hexited, hstopped, hwaited, hclear, nofun⟩, nofun⟩
  | stop e =>
    obtain ⟨hd, he, hc, hf⟩ := Receiver.stop_keeps r.tr e
    exact h.halted hdown hd he hc hf
  | suspend e =>
    obtain ⟨hd, he, hc, hf⟩ := Receiver.stop_keeps { r.tr with suspendOnFailure := true } e
    exact h.halted hdown hd he hc hf
  | cancel =>
    exact h.moves ⟨hexited, hstopped, hwaited, hclear, hending⟩ ⟨id, id, id⟩
      (fun hb hb' => absurd (hb.symm.trans hb') Bool.false_ne_true) fun _ _ hf => .inl (hdown hf)

theorem Leaving.step (hstep : Run.Guarded (Step H m D) FailsAtEnd l l')
    (h : ∀ r, l.rcv = some r → l.Leaving r) (hrcv : l'.rcv = some r') : l'.Leaving r' := by
  obtain ⟨hstep, hguard⟩ := hstep
  cases hstep with
  | sender => exact (h r' hrcv).same id
  | request s f => exact (h r' hrcv).same fun hf => List.mem_append_left _ hf
  | handled => exact (h r' hrcv).same id
  | announced m' rest hdown hnone =>
    rw [hnone] at hrcv
    cases hrcv
  | refused m' rest hdown hnone =>
    exact absurd (hnone.symm.trans hrcv) nofun
  | unknown f rest hdown hf hnone =>
    rw [hnone] at hrcv
    cases hrcv
  | early => exact (h r' hrcv).same id
  | opened m' n =>
    cases hrcv
    exact leaving_opened n m' _
  | openFails => exact (h r' hrcv).same id
  | openLost => exact (h r' hrcv).same id
  | receiver r r₁ hr hs =>
    cases hrcv
    exact (h r hr).moves ((h r hr).orderly.step hs) (Receiver.onward_step hs)
      (hguard r r' hr rfl) fun _ _ hf => .inl hf
  | reply r r₁ x hr hs =>
    cases hrcv
    exact (h r hr).moves ((h r hr).orderly.step hs) (Receiver.onward_step hs)
      (hguard r r' hr rfl) fun _ _ hf => .inl hf
  | received r r₁ f rest hdown hr hs =>
    cases hrcv
    exact (h r hr).moves ((h r hr).orderly.step hs) (Receiver.onward_step hs)
      (hguard r r' hr rfl) (received_finish hdown hs)
  | outside r r₁ hr hout =>
    cases hrcv
    exact (h r hr).outside hout id

/-- A transfer that is over: its runner has finished, its sender has returned an error,
    and no frame of it is on its way or being handled. -/
structure Over (l : Link) (r : Receiver) : Prop where
  runner : r.runner = .exited
  returned : ∃ e, l.snd.body = .returned (some e)
  down : l.down = []
  up : l.up = []
  ready : r.reader = .ready

/-- In every run in which the writer fails only when the end is due: once a transfer
    whose writer has failed is over, it is not listed any more. -/
theorem slot_freed {ot : OutgoingTransfer}
    (hrun : ReflTransGen (Run.Guarded (Step H m D) FailsAtEnd) (start ot) l)
    (hrcv : l.rcv = some r) (hbroken : r.broken = true) (hover : l.Over r) : r.listed = false := by
  have hinv : ∀ r, l.rcv = some r → l.Leaving r :=
    Run.invariant (fun l => ∀ r, l.rcv = some r → l.Leaving r) (fun r hr => by cases hr)
      (fun l l' h hstep r hr => Leaving.step hstep h hr) hrun
  obtain ⟨horderly, hdue⟩ := hinv r hrcv
  by_contra hlisted
  rw [Bool.not_eq_false] at hlisted
  rcases hdue hbroken hlisted with hending | ⟨-, hfinish⟩
  · -- the end has begun, and only a commit is left of it; but nothing is committed
    have hcommit := horderly.late (by rw [hover.ready]; rfl) hlisted hending
    rw [horderly.clear (.inr hcommit)] at hbroken
    cases hbroken
  · rw [hover.down] at hfinish
    cases hfinish

/-- Two chunks, and a window of one: the writer fails on the first chunk, and the sender
    gives up before it has sent the end. The transfer is over and still listed. -/
theorem slot_lost : ∃ (l : Link) (r : Receiver),
    ReflTransGen (Step id (announce [7, 8] 1 0 []) [7, 8])
      (start (registerOutgoing 1 3 1 4 true (announce [7, 8] 1 0 []))) l ∧
    l.rcv = some r ∧ r.broken = true ∧ l.Over r ∧ r.listed = true :=
  ⟨_, _,
    .trans (run_opened _ 1 rfl) <|
    .head (.reply _ _ _ _ rfl (.otherWindow _ 4 1)) <|
    .head (.handled _ _ _ _ rfl (.reply _ _ rfl)) <|
    .trans (run_sent rfl (by decide) rfl rfl) <|
    .head (.received _ _ _ _ _ rfl rfl (.data _ true _ rfl)) <|
    .head (.receiver _ _ _ rfl (.take _ _ _ rfl rfl)) <|
    .head (.receiver _ _ _ rfl (.taken _ _ rfl)) <|
    .head (.receiver _ _ _ rfl (.written _ _ 0 (some "disk full") rfl)) <|
    .head (.receiver _ _ _ rfl (.failing _ _ _ rfl)) <|
    .head (.reply _ _ _ _ rfl (.nack _ _ rfl)) <|
    .head (.handled _ _ _ _ rfl (.reply _ _ rfl)) <|
    .head (.sender _ _ (.resent _ rfl)) <|
    .head (.sender _ _ (.giveUp _ "remote rejected transfer=1 reason=5" nofun)) <|
    .head (.receiver _ _ _ rfl (.drained _ rfl rfl rfl)) <|
    .head (.receiver _ _ _ rfl (.finishing _ rfl)) <|
    .head (.receiver _ _ _ rfl (.abort _ rfl)) <|
    .single (.receiver _ _ _ rfl (.exit _ rfl)),
    rfl, rfl, ⟨rfl, ⟨_, rfl⟩, rfl, rfl, rfl⟩, rfl⟩

/-- A step after which no call of `Write` has failed meets the condition. -/
theorem sound_step (hstep : Step H m D l l') (h : l'.rcv.all fun r => !r.broken) :
    Run.Guarded (Step H m D) FailsAtEnd l l' := by
  refine ⟨hstep, fun r r' _ hr' _ hb => ?_⟩
  rw [hr', Option.all_some, hb] at h
  cases h

/-- And so does one after the failure. -/
theorem broken_step (hstep : Step H m D l l') (h : l.rcv.all fun r => r.broken) :
    Run.Guarded (Step H m D) FailsAtEnd l l' := by
  refine ⟨hstep, fun r r' hr _ hb _ => ?_⟩
  rw [hr, Option.all_some, hb] at h
  cases h

/-- The writer fails on the only chunk of a transfer, when its end is on its way. -/
theorem byte_fails : ∃ (l : Link) (r : Receiver),
    ReflTransGen (Run.Guarded (Step id (announce [7] 1 0 []) [7]) FailsAtEnd)
      (start (registerOutgoing 1 3 1 4 false (announce [7] 1 0 []))) l ∧
    l.rcv = some r ∧ r.broken = true ∧ l.Over r := by
  refine ⟨_, _,
    .head (sound_step (.request _ _ _ (.begin _ rfl rfl)) rfl) <|
    .head (sound_step (.announced _ _ _ rfl rfl rfl rfl rfl) rfl) <|
    .head (sound_step (.opened _ _ 1 rfl) rfl) <|
    .head (sound_step (.sender _ _ (.push _ 0 rfl (by decide) rfl rfl)) rfl) <|
    .head (sound_step (.request _ _ _ (.encode _ 0 [7] rfl rfl fun _ => rfl)) rfl) <|
    .head (sound_step (.sender _ _ (.finish _ 1 rfl (by decide))) rfl) <|
    .head (sound_step (.request _ _ _ (.sendEnd _ rfl)) rfl) <|
    .head (sound_step (.received _ _ _ _ _ rfl rfl (.data _ true _ rfl)) rfl) <|
    .head (sound_step (.receiver _ _ _ rfl (.take _ _ _ rfl rfl)) rfl) <|
    .head (sound_step (.receiver _ _ _ rfl (.taken _ _ rfl)) rfl) <|
    .head ⟨.receiver _ _ _ rfl (.written _ _ 0 (some "disk full") rfl), ?_⟩ <|
    .head (broken_step (.receiver _ _ _ rfl (.failing _ _ _ rfl)) rfl) <|
    .head (broken_step (.reply _ _ _ _ rfl (.nack _ _ rfl)) rfl) <|
    .head (broken_step (.received _ _ _ _ _ rfl rfl (.finish _ rfl)) rfl) <|
    .head (broken_step (.receiver _ _ _ rfl (.endClosing _ rfl)) rfl) <|
    .head (broken_step (.receiver _ _ _ rfl (.drained _ rfl rfl rfl)) rfl) <|
    .head (broken_step (.receiver _ _ _ rfl (.finishing _ rfl)) rfl) <|
    .head (broken_step (.receiver _ _ _ rfl (.abort _ rfl)) rfl) <|
    .head (broken_step (.receiver _ _ _ rfl (.exit _ rfl)) rfl) <|
    .head (broken_step (.receiver _ _ _ rfl (.endWaited _ rfl rfl)) rfl) <|
    .head (broken_step (.receiver _ _ _ rfl (.endDone _ rfl)) rfl) <|
    .head (broken_step (.reply _ _ _ _ rfl (.reply _ _ _ rfl)) rfl) <|
    .head (broken_step (.reply _ _ _ _ rfl (.reply _ _ _ rfl)) rfl) <|
    .head (broken_step (.handled _ _ _ _ rfl (.reply _ _ rfl)) rfl) <|
    .head (broken_step (.sender _ _ (.resent _ rfl)) rfl) <|
    .head (broken_step (.sender _ _ (.acked _ rfl (.inl rfl))) rfl) <|
    .head (broken_step (.handled _ _ _ _ rfl (.reply _ _ rfl)) rfl) <|
    .single (broken_step (.handled _ _ _ _ rfl (.reply _ _ rfl)) rfl),
    rfl, rfl, ⟨rfl, ⟨_, rfl⟩, rfl, rfl, rfl⟩⟩
  rintro _ _ ⟨⟩ - - -
  exact .inr ⟨rfl, by decide⟩

theorem slot_freed_byte : ∃ (l : Link) (r : Receiver),
    ReflTransGen (Run.Guarded (Step id (announce [7] 1 0 []) [7]) FailsAtEnd)
      (start (registerOutgoing 1 3 1 4 false (announce [7] 1 0 []))) l ∧
    l.rcv = some r ∧ r.broken = true ∧ l.Over r ∧ r.listed = false := by
  obtain ⟨l, r, hrun, hrcv, hbroken, hover⟩ := byte_fails
  exact ⟨l, r, hrun, hrcv, hbroken, hover, slot_freed hrun hrcv hbroken hover⟩

end Link

end Etp.Transfer
