import Etp.Transfer.Slot

/-!
# What a failed writer does to the other transfers

The transfers that one session receives, from peers that send what they like. One
goroutine handles the frames of all of them (`Receiving.Step`), and an error of
`HandleFrame` is the end of the session: `Run` stops the incoming transfers, fails the
outgoing ones and returns (`Receiving.tearDown`).

* `Receiver.Sound.step`: a transfer fails, or is reported as failed, only when its writer
  has; and no frame leads to an error but a chunk of a transfer that has failed and is
  still listed, and an end that waits for the runner of such a transfer;
* `failures_isolated`: so without such a frame the session goes on, and no other transfer
  is failed or reported;
* `failure_spreads`: a chunk that is on its way when the writer fails on the one before
  it ends the session.
-/

namespace Etp.Transfer

open Relation Function List

/-- The answer reports that the transfer has failed. -/
def Reply.reports : Reply → Bool
  | .state s => s.failure.isSome
  | .nack n => n.reason == .writeFailed
  | .ack _ | .window _ _ => false

/-- The runner has met a failure. -/
def Runner.upset : Runner → Bool
  | .failing _ _ | .nacking _ | .aborting _ => true
  | _ => false

/-- The end has begun, and the commit has not. -/
def Reader.verifying : Reader → Bool
  | .endClosing | .endWaiting | .endDone | .endVerify => true
  | _ => false

/-- The reader has given up waiting for the commit. -/
def Committer.overdue : Committer → Bool
  | .closing late | .closed late _ => late
  | .idle => false

/-- The writer fails, or is aborted. -/
def Call.spoils : Call → Bool
  | .write payload n err => err.isSome || n != payload.length
  | .close err => err.isSome
  | .abort => true
  | .suspend => false

namespace Receiver

/-- The writer has failed, was aborted, or has not closed in time. -/
def spoilt (r : Receiver) : Bool := r.calls.any Call.spoils || r.committer.overdue

/-- An end waits for the runner of a transfer that has failed. -/
def caught (r : Receiver) : Bool :=
  r.reader == .endWaiting && r.tr.failed.isSome && !r.tr.done

/-- A receiver that has met no failure but those of its writer, which has failed only if `b`. -/
structure Sound (b : Prop) (r : Receiver) : Prop where
  failed : r.tr.failed ≠ none → b
  context : r.tr.ctxDone = true → r.tr.done = true ∨ r.tr.failed ≠ none
  session : r.sessionDone = false
  reader : ∀ e, r.reader ≠ .stopped e
  runner : r.runner.upset = true → b
  verifying : r.reader.verifying = true → r.tr.ending = true ∧ r.committer = .idle
  committing : r.committer ≠ .idle → r.tr.ending = true
  remembered : ∀ s, r.remembered = some s → (Reply.state s).reports = true → b
  replies : ∀ l, r.reader = .replying l → ∀ x ∈ l, x.reports = true → b
  closed : ∀ late e, r.committer = .closed late (some e) → b

variable {b b' : Prop} {r r' : Receiver} {H : Bytes → Bytes}

theorem sound_opened (maxInFlightChunks : ℤ) (m : TransferBegin) :
    (Link.opened maxInFlightChunks m []).Sound b :=
  ⟨nofun, nofun, rfl, nofun, nofun, nofun, nofun, nofun, nofun, nofun⟩

theorem Sound.mono (h : r.Sound b) (hb : b → b') : r.Sound b' :=
  { h with
    failed := fun hf => hb (h.failed hf)
    runner := fun hr => hb (h.runner hr)
    remembered := fun s hs hr => hb (h.remembered s hs hr)
    replies := fun l hl x hx hr => hb (h.replies l hl x hx hr)
    closed := fun late e hc => hb (h.closed late e hc) }

/-- The reader answers. -/
theorem Sound.replying (h : r.Sound b) {l : List Reply} (hl : ∀ x ∈ l, x.reports = true → b) :
    ({ r with reader := .replying l } : Receiver).Sound b :=
  { h with
    reader := nofun
    verifying := nofun
    replies := fun _ hr => Reader.replying.inj hr ▸ hl }

/-- The answer is one that reports nothing. -/
theorem Sound.answers (h : r.Sound b) {x : Reply} (hx : x.reports = false) :
    ({ r with reader := .replying [x] } : Receiver).Sound b :=
  h.replying (forall_mem_singleton.mpr fun hr => absurd (hx.symm.trans hr) Bool.false_ne_true)

/-- The reader goes on to a place where it has nothing to send. -/
theorem Sound.goes (h : r.Sound b) {p q : Reader} (hr : r.reader = q)
    (hq : p.verifying = true → q.verifying = true) (hstop : ∀ e, p ≠ .stopped e)
    (hreply : ∀ l, p ≠ .replying l) : ({ r with reader := p } : Receiver).Sound b :=
  { h with
    reader := hstop
    verifying := fun hp => h.verifying (hr ▸ hq hp)
    replies := fun l hr => absurd hr (hreply l) }

/-- No answer to a chunk reports a failure. -/
theorem handleData_reports {tr : IncomingTransfer} {reserve : Bool} {c : Chunk} {x : Reply}
    (h : (tr.handleData reserve c).2 = .reply x) : x.reports = false := by
  unfold IncomingTransfer.handleData at h
  split at h
  · cases h
  · split_ifs at h
    all_goals
      cases h
      rfl

section Sound

variable (h : r.Sound b)
include h

/-- A chunk of a transfer that has not failed, or is not listed. -/
theorem Sound.data (reserve : Bool) {c : Chunk}
    (hfailed : c.payload ≠ [] → r.listed = true → r.tr.failed = none) :
    (r.handleData reserve c).Sound b := by
  rw [Receiver.handleData]
  split_ifs with hempty hlisted
  · exact h.answers rfl
  · exact h.answers rfl
  · -- of the record only the queue, its counters and `flowBlocked` change
    have hnone := hfailed hempty (by simpa using hlisted)
    have hresult : ∀ e, (r.tr.handleData reserve c).2 ≠ .failed e := by
      intro e he
      unfold IncomingTransfer.handleData at he
      rw [hnone] at he
      dsimp only at he
      split_ifs at he
      all_goals cases he
    have hsound : ({ r with tr := (r.tr.handleData reserve c).1 } : Receiver).Sound b := by
      rcases r.tr.handleData_cases reserve c with heq | heq | ⟨-, -, -, -, -, -, -, heq⟩
      all_goals
        rw [heq]
        exact { h with }
    rcases hdata : r.tr.handleData reserve c with ⟨tr, result⟩
    rw [hdata] at hsound hresult
    cases result with
    | failed e => exact absurd rfl (hresult e)
    | reply x => exact hsound.answers (handleData_reports (congrArg Prod.snd hdata))
    | nothing => exact hsound

/-- The verdict on a transfer that is not listed any more. -/
theorem Sound.verdict_reports {m n : ℕ} (hx : (r.verdict m n).reports = true) : b := by
  unfold verdict at hx
  split at hx
  · rename_i s hs _
    exact h.remembered s hs hx
  · cases hx

theorem Sound.handleEnd : r.handleEnd.Sound b := by
  have hverdict : ∀ m n, ({ r with reader := .replying [r.verdict m n] } : Receiver).Sound b :=
    fun m n => h.replying (forall_mem_singleton.mpr h.verdict_reports)
  unfold Receiver.handleEnd
  split_ifs with _ _ hending
  · exact hverdict 0 0
  · exact hverdict _ _
  · -- no end has begun, so that there is no commit
    exact { h with
      reader := nofun
      verifying := fun _ => ⟨rfl, by_contra fun hc => hending (h.committing hc)⟩
      committing := fun _ => rfl
      replies := nofun }
  · exact h.answers rfl

/-- A transfer whose writer has failed is given up. -/
theorem Sound.reject (hb : b) (reason : NackReason) : (r.reject reason).Sound b :=
  { h with
    reader := nofun
    verifying := nofun
    remembered := fun _ _ _ => hb
    replies := fun _ _ _ _ _ => hb }

theorem Sound.endDone (hr : r.reader = .endDone) : r.endDone.Sound b := by
  unfold Receiver.endDone
  split
  · rename_i e he
    exact { h.reject (h.failed (by simp [he])) .writeFailed with }
  · exact h.goes hr id nofun nofun

theorem Sound.endCommitted {err : Option Err} (hc : r.committer = .closed false err) :
    (r.endCommitted err).Sound b := by
  cases err with
  | none =>
    exact { h with
      reader := nofun
      verifying := nofun
      committing := nofun
      remembered := fun s hs => by cases hs; nofun
      replies := fun l hl x hx => by
        cases hl
        rw [mem_singleton.mp hx]
        nofun
      closed := nofun }
  | some e =>
    exact { h.reject (h.closed false e hc) .writeFailed with
      verifying := nofun
      committing := nofun
      closed := nofun }

theorem Sound.account (c : Chunk) : (r.account c).Sound b := by
  unfold Receiver.account
  split
  · exact { h with runner := nofun }
  · refine { h with runner := ?_ }
    dsimp only
    split <;> nofun

end Sound

theorem spoilt_append {c : Call} (h : r.spoilt = true ∨ c.spoils = true) :
    ({ r with calls := r.calls ++ [c] } : Receiver).spoilt = true := by
  simp only [spoilt, any_append, any_cons, any_nil, Bool.or_false, Bool.or_eq_true] at h ⊢
  tauto

/-- A writer that has failed remains so. -/
theorem spoilt_step {label : Label} (hs : Step H r label r')
    (hidle : r.reader = .endVerify → r.committer = .idle) (h : r.spoilt = true) :
    r'.spoilt = true := by
  cases hs with
  | data reserve c _ =>
    obtain ⟨tr, p, heq, -⟩ := r.handleData_eq reserve c
    rw [heq]
    exact h
  | finish _ =>
    rw [Receiver.handleEnd]
    split_ifs <;> exact h
  | endDone _ =>
    rw [Receiver.endDone]
    split <;> exact h
  | endVerify hr =>
    rw [spoilt, hidle hr] at h
    rw [Receiver.endVerify]
    split_ifs
    · exact spoilt_append (.inr rfl)
    · exact h
  | closed late err hc =>
    rw [spoilt, hc] at h
    exact spoilt_append (r := { r with committer := .closed late err }) (.inl h)
  | endCommitted err _ hc =>
    rw [spoilt, hc] at h
    cases err <;> exact h
  | endTimedOut => exact Bool.or_eq_true_iff.mpr (.inr rfl)
  | late => exact spoilt_append (r := { r with committer := .idle, listed := false }) (.inr rfl)
  | account c _ =>
    rw [Receiver.account]
    split <;> exact h
  | written | abort | suspend => exact spoilt_append (.inl h)
  | _ => exact h

/-- A call of `Write` returns; if the runner has met a failure, the writer has failed. -/
theorem written_upset {c : Chunk} {n : ℕ} {err : Option Err}
    (h : (r.written c n err).runner.upset = true) : (r.written c n err).spoilt = true := by
  refine spoilt_append (.inr ?_)
  cases err with
  | some e => rfl
  | none =>
    by_cases hn : n = c.payload.length
    · simp [Receiver.written, Runner.upset, hn] at h
    · simp [Call.spoils, hn]

/-- A step that is not about a chunk of a transfer that has failed and is still listed, when no end
    waits for the runner of one. What it sends reports a failure only if the writer has failed. -/
theorem Sound.step {label : Label} (hsound : r.Sound (r.spoilt = true)) (hs : Step H r label r')
    (hcaught : r.caught = false)
    (hdata : ∀ c, label = .receive (.data c) → c.payload ≠ [] → r.listed = true →
      r.tr.failed = none) :
    r'.Sound (r'.spoilt = true) ∧ ∀ x, label = .send x → x.reports = true → r'.spoilt = true := by
  have h : r.Sound (r'.spoilt = true) :=
    hsound.mono (spoilt_step hs fun hr => (hsound.verifying (by rw [hr]; rfl)).2)
  have hrunner := h.runner
  cases hs with
  | data reserve c _ => exact ⟨h.data reserve (hdata c rfl), nofun⟩
  | finish _ => exact ⟨h.handleEnd, nofun⟩
  | reply x rest hr =>
    have hall := h.replies _ hr
    refine ⟨?_, fun y hy hrep => ?_⟩
    · split
      · exact h.goes hr nofun nofun nofun
      · exact h.replying fun y hy => hall y (mem_cons_of_mem x hy)
    · cases hy
      exact hall x mem_cons_self hrep
  | forget => exact ⟨{ h with }, nofun⟩
  | endClosing hr =>
    refine ⟨?_, nofun⟩
    have hgoes := h.goes (p := .endWaiting) hr id nofun nofun
    unfold IncomingTransfer.closeQueue
    split
    · exact hgoes
    · exact { hgoes with }
  | endWaited hr _ => exact ⟨h.goes hr id nofun nofun, nofun⟩
  | endWaitFails e hr hwait =>
    rcases hwait with hsession | ⟨hctx, hdone⟩
    · exact absurd (h.session.symm.trans hsession) Bool.false_ne_true
    · -- the transfer has failed, and the end was waiting for its runner
      have hfailed := (h.context hctx).resolve_left (by simp [hdone])
      simp [caught, hr, hdone, hfailed] at hcaught
  | endDone hr => exact ⟨h.endDone hr, nofun⟩
  | endVerify hr =>
    have hending := (h.verifying (by rw [hr]; rfl)).1
    refine ⟨?_, nofun⟩
    unfold Receiver.endVerify at h ⊢
    split_ifs at h ⊢
    · exact { h.reject (spoilt_append (.inr rfl)) .invalidChunk with }
    · exact { h.goes (p := .endCommitting) hr nofun nofun nofun with
        verifying := nofun
        committing := fun _ => hending
        closed := nofun }
  | closed late err hc =>
    have hending := h.committing (by simp [hc])
    refine ⟨{ h with
      verifying := fun hr => absurd (h.verifying hr).2 (by simp [hc])
      committing := fun _ => hending
      closed := fun l e he => ?_ }, nofun⟩
    cases he
    exact spoilt_append (r := { r with committer := .closed late (some e) }) (.inr rfl)
  | endCommitted err _ hc => exact ⟨h.endCommitted hc, nofun⟩
  | endTimedOut e _ hc =>
    have hb : (r.endTimedOut e).spoilt = true := Bool.or_eq_true_iff.mpr (.inr rfl)
    exact ⟨{ h.reject hb .writeFailed with
      failed := fun _ => hb
      context := fun hctx => (h.context hctx).imp_right fun _ => nofun
      verifying := nofun
      committing := fun _ => h.committing (by simp [hc])
      closed := nofun }, nofun⟩
  | late err hc =>
    exact ⟨{ h with
      verifying := fun hr => ⟨(h.verifying hr).1, rfl⟩
      committing := nofun
      closed := nofun }, nofun⟩
  | taken c _ =>
    refine ⟨{ h with runner := ?_ }, nofun⟩
    dsimp only
    split <;> nofun
  | written c n err hw =>
    exact ⟨{ h with runner := written_upset }, nofun⟩
  | account c _ => exact ⟨h.account c, nofun⟩
  | take | drained | noWindow => exact ⟨{ h with runner := nofun }, nofun⟩
  | ack | window =>
    exact ⟨{ h with runner := nofun }, fun x hx => by cases hx; simp [Reply.reports]⟩
  | otherWindow => exact ⟨h, fun x hx => by cases hx; simp [Reply.reports]⟩
  | failing c e hr =>
    rw [hr] at hrunner
    obtain ⟨-, hending, -, hfailed⟩ := stop_keeps r.tr e
    exact ⟨{ h with
      failed := fun _ => hrunner rfl
      context := fun _ => .inr hfailed
      runner := fun _ => hrunner rfl
      verifying := fun hp => ⟨hending.trans (h.verifying hp).1, (h.verifying hp).2⟩
      committing := fun hc => hending.trans (h.committing hc) }, nofun⟩
  | nack c hr =>
    rw [hr] at hrunner
    exact ⟨{ h with runner := nofun }, fun _ _ _ => hrunner rfl⟩
  | abort hr | suspend hr => exact ⟨{ h with runner := nofun }, nofun⟩
  | finishing _ =>
    refine ⟨{ h with runner := fun hupset => h.failed fun hnone => ?_ }, nofun⟩
    simp [Receiver.finish, hnone, Runner.upset] at hupset
  | exit _ => exact ⟨{ h with context := fun _ => .inl rfl, runner := nofun }, nofun⟩

end Receiver

/-! ## The session -/

/-- A session with the transfers it receives, the errors its outgoing transfers have failed with,
    the error that `Run` has returned, and the answers it has sent. -/
structure Receiving (ι κ : Type) where
  rcv : ι → Option Receiver := fun _ => none
  outgoing : κ → Option Err := fun _ => none
  failed : Option Err := none
  sent : List (ι × Reply) := []

/-- What a step sends. -/
def Receiver.Label.sends : Receiver.Label → List Reply
  | .send x => [x]
  | .receive _ | .internal => []

namespace Receiving

variable {ι κ : Type} [DecidableEq ι] {H : Bytes → Bytes} {s s' : Receiving ι κ}

/-- `cleanupIncoming`, for one transfer. -/
def stopped (r : Receiver) : Receiver :=
  if r.listed then { r with listed := false, tr := r.tr.stop "protocol handling failed" } else r

/-- What `Run` does when `HandleFrame` has returned an error. -/
def tearDown (s : Receiving ι κ) (e : Err) : Receiving ι κ :=
  { s with
    rcv := fun i => (s.rcv i).map stopped
    outgoing := fun k => some ((s.outgoing k).getD e)
    failed := some e }

/-- A goroutine of the transfer `i` has moved. -/
def moved (s : Receiving ι κ) (i : ι) (r : Receiver) (label : Receiver.Label) : Receiving ι κ :=
  let s' := { s with
    rcv := update s.rcv i (some r)
    sent := s.sent ++ label.sends.map (i, ·) }
  match r.reader with
  | .stopped e => s'.tearDown e
  | _ => s'

/-- A step of the session: a transfer is opened, or one of its goroutines moves. The frames are
    handled one after another, whichever transfer they belong to. -/
inductive Step (H : Bytes → Bytes) (s : Receiving ι κ) : Receiving ι κ → Prop
  | opened (i : ι) (maxInFlightChunks : ℤ) (m : TransferBegin) : s.failed = none →
      s.rcv i = none → Step H s { s with
        rcv := update s.rcv i (some (Link.opened maxInFlightChunks m [])) }
  | moves (i : ι) (r r' : Receiver) (label : Receiver.Label) : s.failed = none →
      s.rcv i = some r → Receiver.Step H r label r' →
      (r'.reader ≠ .ready → ∀ j ≠ i, ∀ q, s.rcv j = some q → q.reader = .ready) →
      Step H s (s.moved i r' label)

/-- The step handles a chunk of a transfer that has failed and is still listed. -/
inductive Stray (s : Receiving ι κ) : Receiving ι κ → Prop
  | data (i : ι) (r : Receiver) (reserve : Bool) (c : Chunk) : s.rcv i = some r →
      r.listed = true → r.tr.failed ≠ none → c.payload ≠ [] →
      Stray s (s.moved i (r.handleData reserve c) (.receive (.data c)))

/-- The condition on a step: no such chunk is handled, and no end is left waiting for the runner of
    a transfer that has failed. -/
structure Apart (s s' : Receiving ι κ) : Prop where
  chunk : ¬ Stray s s'
  waiting : ∀ i, (s'.rcv i).any Receiver.caught = false

/-- The session goes on with the outgoing transfers as they were. -/
structure Intact (out : κ → Option Err) (s : Receiving ι κ) : Prop where
  failed : s.failed = none
  outgoing : s.outgoing = out
  sound : ∀ i r, s.rcv i = some r → r.Sound (r.spoilt = true)
  waiting : ∀ i, (s.rcv i).any Receiver.caught = false
  reports : ∀ i x, (i, x) ∈ s.sent → x.reports = true → ∃ r, s.rcv i = some r ∧ r.spoilt = true

theorem of_update {f : ι → Option Receiver} {i j : ι} {r q : Receiver}
    (h : update f i (some r) j = some q) : j = i ∧ r = q ∨ j ≠ i ∧ f j = some q := by
  rw [update_apply] at h
  split_ifs at h with hj
  · exact .inl ⟨hj, Option.some.inj h⟩
  · exact .inr ⟨hj, h⟩

theorem Intact.step {out : κ → Option Err} (h : s.Intact out)
    (hs : Run.Guarded (Step H) Apart s s') : s'.Intact out := by
  obtain ⟨hs, hstray, hwaiting⟩ := hs
  cases hs with
  | opened i maxInFlightChunks m _ hnew =>
    refine { h with
      sound := fun j q hq => ?_
      waiting := hwaiting
      reports := fun j x hx hrep => ?_ }
    · rcases of_update hq with ⟨rfl, rfl⟩ | ⟨-, hq⟩
      · exact Receiver.sound_opened maxInFlightChunks m
      · exact h.sound j q hq
    · obtain ⟨q, hq, hspoilt⟩ := h.reports j x hx hrep
      refine ⟨q, (update_of_ne (fun hj => ?_) _ _).trans hq, hspoilt⟩
      rw [hj, hnew] at hq
      cases hq
  | moves i r r' label _ hr hstep _ =>
    have hsound := h.sound i r hr
    have hcaught := h.waiting i
    rw [hr] at hcaught
    have hkept : r.spoilt = true → r'.spoilt = true :=
      Receiver.spoilt_step hstep fun hv => (hsound.verifying (by rw [hv]; rfl)).2
    obtain ⟨hsound', hsends⟩ := hsound.step hstep hcaught fun c hlabel hne hlisted => by
      subst hlabel
      by_contra hfailed
      cases hstep with
      | data reserve _ _ => exact hstray (.data i r reserve c hr hlisted hfailed hne)
    have hmoved : s.moved i r' label = { s with
        rcv := update s.rcv i (some r')
        sent := s.sent ++ label.sends.map (i, ·) } := by
      unfold moved
      split
      · rename_i e he
        exact absurd he (hsound'.reader e)
      · rfl
    rw [hmoved] at hwaiting ⊢
    refine { h with
      sound := fun j q hq => ?_
      waiting := hwaiting
      reports := fun j x hx hrep => ?_ }
    · rcases of_update hq with ⟨rfl, rfl⟩ | ⟨-, hq⟩
      · exact hsound'
      · exact h.sound j q hq
    · by_cases hj : j = i
      · subst hj
        refine ⟨r', update_self .., ?_⟩
        rcases mem_append.mp hx with hx | hx
        · obtain ⟨q, hq, hspoilt⟩ := h.reports j x hx hrep
          rw [hr] at hq
          exact hkept (Option.some.inj hq ▸ hspoilt)
        · cases label with
          | send y =>
            cases mem_singleton.mp hx
            exact hsends x rfl hrep
          | receive | internal => cases hx
      · have hold : (j, x) ∈ s.sent := (mem_append.mp hx).resolve_right fun hx => by
          obtain ⟨y, -, hy⟩ := mem_map.mp hx
          exact hj (congrArg Prod.fst hy).symm
        obtain ⟨q, hq, hspoilt⟩ := h.reports j x hold hrep
        exact ⟨q, (update_of_ne hj _ _).trans hq, hspoilt⟩

/-- As long as no chunk of a transfer that has failed and is still listed is handled, and no end
    waits for the runner of a failed transfer, the session goes on, whatever frames its peer sends
    and however the goroutines of its transfers interleave: no frame leads to an error, no outgoing
    transfer is failed, and an incoming one is failed, or reported as failed, only if its writer has
    failed, was aborted or has not closed in time. -/
theorem failures_isolated (out : κ → Option Err)
    (hrun : ReflTransGen (Run.Guarded (Step H) Apart) { outgoing := out } s) :
    s.failed = none ∧ s.outgoing = out ∧
    (∀ i r, s.rcv i = some r → r.tr.failed ≠ none → r.spoilt = true) ∧
    ∀ i x, (i, x) ∈ s.sent → x.reports = true → ∃ r, s.rcv i = some r ∧ r.spoilt = true := by
  have hstart : ({ outgoing := out } : Receiving ι κ).Intact out :=
    ⟨rfl, rfl, fun _ _ hr => (nomatch hr), fun _ => rfl, fun _ _ hx => absurd hx not_mem_nil⟩
  have h : s.Intact out := Run.invariant (Intact out) hstart (fun _ _ h hs => h.step hs) hrun
  exact ⟨h.failed, h.outgoing, fun i r hr => (h.sound i r hr).failed, h.reports⟩

/-- A chunk of a transfer that has failed and is still listed is an error. -/
theorem Stray.failed (h : Stray s s') : s'.failed ≠ none := by
  cases h with
  | data i r reserve c _ hlisted hfailed hne =>
    obtain ⟨e, he⟩ := Option.ne_none_iff_exists'.mp hfailed
    have hstopped : (r.handleData reserve c).reader = .stopped e := by
      simp [Receiver.handleData, IncomingTransfer.handleData, hne, hlisted, he]
    simp [moved, hstopped, tearDown]

/-- A step of the first of two transfers, while the second one waits for frames. -/
theorem step_first {s : Receiving Bool Unit} {r r' q : Receiver} {label : Receiver.Label}
    (hr : s.rcv true = some r) (hq : s.rcv false = some q) (hready : q.reader = .ready)
    (hs : Receiver.Step id r label r') (hcaught : r'.caught = false) (hf : s.failed = none)
    (hf' : (s.moved true r' label).failed = none) :
    Run.Guarded (Step id) Apart s (s.moved true r' label) := by
  refine ⟨.moves true r r' label hf hr hs fun _ j hj p hp => ?_, fun h => h.failed hf', fun i => ?_⟩
  · cases j with
    | true => exact absurd rfl hj
    | false => exact Option.some.inj (hp.symm.trans hq) ▸ hready
  · unfold moved at hf' ⊢
    split at hf'
    · cases hf'
    · cases i with
      | true => exact hcaught
      | false =>
        show (s.rcv false).any _ = false
        simp [hq, Receiver.caught, hready]

/-- The writer fails on the only chunk of a transfer while another one is open: the transfer is
    reported, and the other one is not failed. -/
theorem failures_isolated_write : ∃ (s : Receiving Bool Unit) (q : Receiver),
    ReflTransGen (Run.Guarded (Step id) Apart) { outgoing := fun _ => none } s ∧
    (true, .state ⟨0, 0, some .writeFailed⟩) ∈ s.sent ∧ s.failed = none ∧
    s.rcv false = some q ∧ q.tr.failed = none := by
  have hrun : ∃ (s : Receiving Bool Unit) (q : Receiver),
      ReflTransGen (Run.Guarded (Step id) Apart) { outgoing := fun _ => none } s ∧
      (true, .state ⟨0, 0, some .writeFailed⟩) ∈ s.sent ∧ s.rcv false = some q ∧
      q.spoilt = false :=
    ⟨_, _,
      .head ⟨.opened true 1 (announce [7] 1 0 []) rfl rfl, fun h => h.failed rfl, by decide⟩ <|
      .head ⟨.opened false 1 (announce [9] 1 0 []) rfl rfl, fun h => h.failed rfl, by decide⟩ <|
      .head (step_first rfl rfl rfl (.data _ true ⟨0, [7], true⟩ rfl) rfl rfl rfl) <|
      .head (step_first rfl rfl rfl (.take _ _ _ rfl rfl) rfl rfl rfl) <|
      .head (step_first rfl rfl rfl (.taken _ _ rfl) rfl rfl rfl) <|
      .head (step_first rfl rfl rfl (.written _ _ 0 (some "disk full") rfl) rfl rfl rfl) <|
      .head (step_first rfl rfl rfl (.failing _ _ _ rfl) rfl rfl rfl) <|
      .head (step_first rfl rfl rfl (.nack _ _ rfl) rfl rfl rfl) <|
      .head (step_first rfl rfl rfl (.drained _ rfl rfl rfl) rfl rfl rfl) <|
      .head (step_first rfl rfl rfl (.finishing _ rfl) rfl rfl rfl) <|
      .head (step_first rfl rfl rfl (.abort _ rfl) rfl rfl rfl) <|
      .head (step_first rfl rfl rfl (.exit _ rfl) rfl rfl rfl) <|
      .head (step_first rfl rfl rfl (.finish _ rfl) rfl rfl rfl) <|
      .head (step_first rfl rfl rfl (.endClosing _ rfl) rfl rfl rfl) <|
      .head (step_first rfl rfl rfl (.endWaited _ rfl rfl) rfl rfl rfl) <|
      .head (step_first rfl rfl rfl (.endDone _ rfl) rfl rfl rfl) <|
      .single (step_first rfl rfl rfl (.reply _ _ _ rfl) rfl rfl rfl), by decide, rfl, rfl⟩
  obtain ⟨s, q, hrun, hsent, hq, hkept⟩ := hrun
  obtain ⟨hgoes, -, hfailed, -⟩ := failures_isolated _ hrun
  refine ⟨s, q, hrun, hsent, hgoes, hq, by_contra fun hne => ?_⟩
  exact absurd (hkept.symm.trans (hfailed false q hq hne)) Bool.false_ne_true

/-- Two chunks are on their way from an honest sender, and the writer fails on the first one: the
    second one finds the transfer failed and still listed. The session ends, and with it a transfer
    that has nothing to do with it, and an outgoing one. -/
theorem failure_spreads :
    let m := announce [7, 8] 1 0 []
    ∃ (l : Link) (s s' : Receiving Bool Unit) (r : Receiver) (c : Chunk),
      ReflTransGen (Link.Step id m [7, 8]) (Link.start (registerOutgoing 1 1 2 2 false m)) l ∧
      l.rcv = some r ∧ l.down = [.data c] ∧
      ReflTransGen (Step id) { outgoing := fun _ => none } s ∧ s.failed = none ∧
      s.rcv true = some r ∧ Step id s s' ∧
      s' = s.moved true (r.handleData true c) (.receive (.data c)) ∧
      s'.failed = some "disk full" ∧ s'.outgoing () = some "disk full" ∧
      (s'.rcv false).map (·.tr.failed) = some (some "protocol handling failed") :=
  ⟨_, _, _, _, _,
    .trans (Link.run_opened _ 2 rfl) <|
    .trans (Link.run_sent rfl (by decide) rfl rfl) <|
    .trans (Link.run_sent rfl (by decide) rfl rfl) <|
    .head (.received _ _ _ _ _ rfl rfl (.data _ true _ rfl)) <|
    .head (.receiver _ _ _ rfl (.take _ _ _ rfl rfl)) <|
    .head (.receiver _ _ _ rfl (.taken _ _ rfl)) <|
    .head (.receiver _ _ _ rfl (.written _ _ 0 (some "disk full") rfl)) <|
    .single (.receiver _ _ _ rfl (.failing _ _ _ rfl)), rfl, rfl,
    .head (.opened true 2 (announce [7, 8] 1 0 []) rfl rfl) <|
    .head (.opened false 2 (announce [9] 1 0 []) rfl rfl) <|
    .head (.moves true _ _ _ rfl rfl (.data _ true ⟨0, [7], true⟩ rfl) fun h => absurd rfl h) <|
    .head (.moves true _ _ _ rfl rfl (.take _ _ _ rfl rfl) fun h => absurd rfl h) <|
    .head (.moves true _ _ _ rfl rfl (.taken _ _ rfl) fun h => absurd rfl h) <|
    .head (.moves true _ _ _ rfl rfl (.written _ _ 0 (some "disk full") rfl)
      fun h => absurd rfl h) <|
    .single (.moves true _ _ _ rfl rfl (.failing _ _ _ rfl) fun h => absurd rfl h), rfl, rfl,
    .moves true _ _ _ rfl rfl (.data _ true _ rfl) fun _ j hj q hq => by
      cases j with
      | true => exact absurd rfl hj
      | false =>
        cases hq
        rfl, rfl, rfl, rfl, rfl⟩

end Receiving

end Etp.Transfer
