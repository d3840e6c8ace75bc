import Etp.Transfer.Admission

/-!
# The counters of a receiver

A receiver counts the chunks it has accepted and those that were written, and the
bytes of both. Whatever chunks and ends arrive, and whatever the writer does, the
counters stay those of whole chunks (`Counts`), for every transfer whose geometry
is exact.

Between the two cursors are the chunk in the hands of the runner and the queue,
each of the size that was asked of it (`Receiver.Accounts`), as long as the
transfer has not failed; a failure freezes the counters. What is sent follows from
them: the ranges of acknowledgements and refusals are never empty
(`Reply.InRange`).
-/

namespace Etp.Transfer

variable {m : TransferBegin}

/-- The chunks `l` are those from `a` up to `b`, each of the size that is asked of it. -/
def Sized (m : TransferBegin) : ℕ → List Chunk → ℕ → Prop
  | a, [], b => a = b
  | a, c :: l, b => c.chunkID = a ∧ c.payload.length = m.demand a ∧ Sized m (a + 1) l b

theorem Sized.le {a b : ℕ} {l : List Chunk} (h : Sized m a l b) : a ≤ b := by
  induction l generalizing a with
  | nil => exact Nat.le_of_eq h
  | cons c l ih => exact Nat.le_of_succ_le (ih h.2.2)

variable {c : Chunk}

theorem Sized.snoc {a b : ℕ} {l : List Chunk} (h : Sized m a l b) (hid : c.chunkID = b)
    (hsize : c.payload.length = m.demand b) : Sized m a (l ++ [c]) (b + 1) := by
  induction l generalizing a with
  | nil =>
    obtain rfl : a = b := h
    exact ⟨hid, hsize, rfl⟩
  | cons d l ih => exact ⟨h.1, h.2.1, ih h.2.2⟩

/-! ## The record -/

namespace IncomingTransfer

variable {tr tr' : IncomingTransfer}

/-- The counters of the record. -/
def counters (tr : IncomingTransfer) : ℕ × ℕ × ℕ × ℕ × ℕ × ℕ :=
  (tr.receivedBytes, tr.acceptedBytes, tr.firstChunk, tr.lastChunk, tr.nextChunk,
    tr.acceptedNextChunk)

theorem counters_closeQueue (tr : IncomingTransfer) :
    tr.closeQueue.counters = tr.counters ∧ tr.closeQueue.metadata = tr.metadata ∧
      tr.closeQueue.failed = tr.failed ∧ tr.closeQueue.queue = tr.queue := by
  rw [closeQueue]
  split_ifs <;> exact ⟨rfl, rfl, rfl, rfl⟩

/-- Stopping a transfer leaves its counters. -/
theorem counters_stop (tr : IncomingTransfer) (e : Err) :
    (tr.stop e).counters = tr.counters ∧ (tr.stop e).metadata = tr.metadata ∧
      (tr.stop e).failed ≠ none := by
  obtain ⟨hcounters, hmetadata, hfailed, -⟩ := counters_closeQueue (tr.fail e).cancel
  exact ⟨hcounters, hmetadata, by rw [stop, hfailed]; exact Option.some_ne_none _⟩

theorem counters_suspend (tr : IncomingTransfer) (e : Err) :
    (tr.suspend e).counters = tr.counters ∧ (tr.suspend e).metadata = tr.metadata ∧
      (tr.suspend e).failed ≠ none := by
  obtain ⟨hcounters, hmetadata, hfailed, -⟩ :=
    counters_closeQueue ({ tr with suspendOnFailure := true }.fail e).cancel
  exact ⟨hcounters, hmetadata, by rw [suspend, hfailed]; exact Option.some_ne_none _⟩

/-- The counters are those of whole chunks. -/
structure Counts (m : TransferBegin) (tr : IncomingTransfer) : Prop where
  metadata : tr.metadata = m
  next_le : tr.nextChunk ≤ tr.acceptedNextChunk
  accepted_le : tr.acceptedNextChunk ≤ m.chunkCount
  received : tr.receivedBytes = m.offset tr.nextChunk
  accepted : tr.acceptedBytes = m.offset tr.acceptedNextChunk
  first : tr.firstChunk = 0
  last : 0 < tr.nextChunk → tr.lastChunk + 1 = tr.nextChunk

theorem Counts.congr (h : tr.Counts m) (hcounters : tr'.counters = tr.counters)
    (hmetadata : tr'.metadata = tr.metadata) : tr'.Counts m := by
  simp only [counters, Prod.mk.injEq] at hcounters
  obtain ⟨hreceived, haccepted, hfirst, hlast, hnext, hacceptedNext⟩ := hcounters
  exact ⟨hmetadata.trans h.metadata, by rw [hnext, hacceptedNext]; exact h.next_le,
    by rw [hacceptedNext]; exact h.accepted_le, by rw [hreceived, hnext]; exact h.received,
    by rw [haccepted, hacceptedNext]; exact h.accepted, by rw [hfirst]; exact h.first,
    by rw [hnext, hlast]; exact h.last⟩

end IncomingTransfer

/-- The range of an acknowledgement or of a refusal is one that the sender takes. -/
def Reply.InRange (m : TransferBegin) : Reply → Prop
  | .ack a => a.chunkFrom ≤ a.chunkTo ∧ a.chunkTo < m.chunkCount
  | .nack n => n.chunkFrom ≤ n.chunkTo
  | .window _ _ | .state _ => True

/-- The chunk that the runner has taken and not accounted for. -/
def Runner.held : Runner → List Chunk
  | .taken c | .writing c | .wrote c | .failing c _ => [c]
  | _ => []

/-! ## The receiver -/

namespace Receiver

variable {r r' : Receiver}

/-- The counters are right, and so are the answers that are about to be sent. -/
structure Accounts (m : TransferBegin) (r : Receiver) : Prop where
  counts : r.tr.Counts m
  flow : r.tr.failed = none →
    Sized m r.tr.nextChunk (r.runner.held ++ r.tr.queue) r.tr.acceptedNextChunk
  replying : ∀ l, r.reader = .replying l → ∀ x ∈ l, x.InRange m
  acking : ∀ a, r.runner = .acking a → (Reply.ack a).InRange m

variable {tr : IncomingTransfer}

/-- The acknowledgement of what was written, once there is something. -/
theorem inRange_snapshot (h : tr.Counts m) (hpos : 0 < tr.nextChunk) :
    (Reply.ack tr.snapshot).InRange m := by
  have hlast := h.last hpos
  have hnext := h.next_le
  have haccepted := h.accepted_le
  refine ⟨?_, ?_⟩
  · show tr.firstChunk ≤ tr.lastChunk
    rw [h.first]
    exact Nat.zero_le _
  · show tr.lastChunk < m.chunkCount
    omega

variable {x : Reply}

/-- The answer to a chunk has a range that the sender takes. -/
theorem inRange_handleData {reserve : Bool} (h : tr.Counts m)
    (hx : (tr.handleData reserve c).2 = .reply x) : x.InRange m := by
  rw [IncomingTransfer.handleData] at hx
  split at hx
  · cases hx
  · split_ifs at hx with haccepting hwritten hqueued hahead
    case pos => cases hx; exact Nat.le_refl c.chunkID
    case pos =>
      -- the chunk was written before
      cases hx
      exact inRange_snapshot h (by omega)
    case pos =>
      cases hx
      show tr.acceptedNextChunk ≤ c.chunkID - 1
      omega
    all_goals
      cases hx
      try exact Nat.le_refl c.chunkID

variable {H : Bytes → Bytes}

namespace Accounts

/-- A step that leaves the counters and what is between them. -/
theorem keep (h : r.Accounts m) (hcounters : r'.tr.counters = r.tr.counters)
    (hmetadata : r'.tr.metadata = r.tr.metadata)
    (hflow : r'.tr.failed = none → r.tr.failed = none ∧
      r'.runner.held ++ r'.tr.queue = r.runner.held ++ r.tr.queue)
    (hreplying : ∀ l, r'.reader = .replying l → ∀ x ∈ l, x.InRange m)
    (hacking : ∀ a, r'.runner = .acking a → (Reply.ack a).InRange m) : r'.Accounts m where
  counts := h.counts.congr hcounters hmetadata
  flow hfailed := by
    obtain ⟨hold, hchunks⟩ := hflow hfailed
    simp only [IncomingTransfer.counters, Prod.mk.injEq] at hcounters
    rw [hchunks, hcounters.2.2.2.2.1, hcounters.2.2.2.2.2]
    exact h.flow hold
  replying := hreplying
  acking := hacking

/-- A step after which the reader sends the answer `x`. -/
theorem reply_step (h : r.Accounts m) (hx : x.InRange m) :
    ({ r with reader := .replying [x] } : Receiver).Accounts m where
  counts := h.counts
  flow := h.flow
  replying l hl y hy := by
    cases hl
    rwa [List.mem_singleton.mp hy]
  acking := h.acking

/-- A step of the runner that leaves the record and the chunk that the runner has taken. -/
theorem runner_step {x : Runner} {calls : List Call} (h : r.Accounts m)
    (hheld : r.tr.failed = none → x.held = r.runner.held) (hacking : ∀ a, x ≠ .acking a) :
    ({ r with runner := x, calls := calls } : Receiver).Accounts m where
  counts := h.counts
  flow hf := by
    show Sized m _ (x.held ++ r.tr.queue) _
    rw [hheld hf]
    exact h.flow hf
  replying := h.replying
  acking a ha := absurd ha (hacking a)

/-! ## The steps of the reader -/

/-- The record of a chunk that is accepted. -/
theorem accept (hm : m.Exact) (h : r.Accounts m) (hfailed : r.tr.failed = none)
    (hid : c.chunkID = r.tr.acceptedNextChunk) (hcount : c.chunkID < r.tr.metadata.chunkCount)
    (hsize : c.payload.length = r.tr.expectedSize c.chunkID) : Accounts m { r with tr := { r.tr with
      queue := r.tr.queue ++ [c]
      acceptedBytes := r.tr.acceptedBytes + c.payload.length
      acceptedNextChunk := r.tr.acceptedNextChunk + 1 } } := by
  have hcounts := h.counts
  rw [hcounts.metadata, hid] at hcount
  have hdemand : c.payload.length = m.demand r.tr.acceptedNextChunk := by
    rw [hsize, hid, ← hcounts.metadata]
    rfl
  refine ⟨⟨hcounts.metadata, Nat.le_succ_of_le hcounts.next_le, hcount, hcounts.received, ?_,
    hcounts.first, hcounts.last⟩, ?_, h.replying, h.acking⟩
  · show r.tr.acceptedBytes + c.payload.length = m.offset (r.tr.acceptedNextChunk + 1)
    rw [hm.offset_succ hcount, hcounts.accepted, hdemand]
  · intro _
    show Sized m r.tr.nextChunk (r.runner.held ++ (r.tr.queue ++ [c])) _
    rw [← List.append_assoc]
    exact (h.flow hfailed).snoc hid hdemand

/-- A chunk is decided about. -/
theorem handleData (hm : m.Exact) (h : r.Accounts m) (reserve : Bool) (c : Chunk) :
    (r.handleData reserve c).Accounts m := by
  -- the record first: nothing happens to it, or the chunk is accepted
  have hrecord : Accounts m { r with tr := (r.tr.handleData reserve c).1 } := by
    rcases r.tr.handleData_cases reserve c with heq | heq | ⟨hf, -, hid, hc, hs, -, -, heq⟩
    · rw [heq]
      exact h
    · rw [heq]
      exact h.keep rfl rfl (fun hf => ⟨hf, rfl⟩) h.replying h.acking
    · rw [heq]
      exact h.accept hm hf hid hc hs
  rw [Receiver.handleData]
  split_ifs with hempty hlisted
  · exact h.reply_step (Nat.le_refl c.chunkID)
  · exact h.reply_step (Nat.le_refl c.chunkID)
  · rcases hresult : r.tr.handleData reserve c with ⟨tr, _ | x | _⟩ <;> rw [hresult] at hrecord
    · exact { hrecord with replying := nofun }
    · exact hrecord.reply_step (inRange_handleData h.counts (by rw [hresult]))
    · exact hrecord

/-- An end is handled: there is something missing, or the input is complete. -/
theorem handleEnd (hm : m.Exact) (h : r.Accounts m) : r.handleEnd.Accounts m := by
  have hcounts := h.counts
  have hverdict : ∀ a b, a ≤ b → (r.verdict a b).InRange m := by
    intro a b hab
    rw [verdict]
    split
    · trivial
    · exact hab
  rw [Receiver.handleEnd]
  split_ifs with hlisted hcomplete hending
  · exact h.reply_step (hverdict 0 0 le_rfl)
  · refine h.reply_step (hverdict _ _ ?_)
    rw [hcounts.first]
    exact Nat.zero_le _
  · exact { h with counts := { hcounts with }, replying := nofun }
  · refine h.reply_step ?_
    show r.tr.acceptedNextChunk ≤ r.tr.metadata.chunkCount - 1
    -- with all chunks accepted, all bytes would be
    have hne : r.tr.acceptedNextChunk ≠ m.chunkCount := by
      intro hall
      apply hcomplete
      rw [IncomingTransfer.completeInput, hcounts.accepted, hall, hm.offset_count,
        hcounts.metadata]
      simp
    have hle := hcounts.accepted_le
    rw [hcounts.metadata]
    omega

/-- A transfer is given up: the range of the refusal is that of what was written. -/
theorem reject (h : r.Accounts m) (reason : NackReason) : (r.reject reason).Accounts m := by
  refine { h with replying := fun l hl x hx => ?_ }
  cases hl
  rcases List.mem_pair.mp hx with rfl | rfl
  · trivial
  · show r.tr.firstChunk ≤ r.tr.lastChunk
    rw [h.counts.first]
    exact Nat.zero_le _

/-! ## The steps of the runner -/

/-- A chunk that was written is accounted for. -/
theorem account (hm : m.Exact) (h : r.Accounts m) (hrunner : r.runner = .wrote c) :
    (r.account c).Accounts m := by
  rw [Receiver.account]
  cases hfailed : r.tr.failed with
  | some e =>
    exact h.runner_step (fun hnone => by simp [hfailed] at hnone) nofun
  | none =>
    have hcounts := h.counts
    obtain ⟨hid, hsize, hrest⟩ : Sized m r.tr.nextChunk (c :: r.tr.queue)
        r.tr.acceptedNextChunk := by
      have hflow := h.flow hfailed
      rwa [hrunner] at hflow
    have hlt : r.tr.nextChunk < m.chunkCount :=
      lt_of_lt_of_le (Nat.lt_of_succ_le hrest.le) hcounts.accepted_le
    have hcommit : (r.tr.commitChunk c).Counts m := by
      refine ⟨hcounts.metadata, ?_, hcounts.accepted_le, ?_, hcounts.accepted, ?_, fun _ => rfl⟩
      · show c.chunkID + 1 ≤ r.tr.acceptedNextChunk
        rw [hid]
        exact hrest.le
      · show r.tr.receivedBytes + c.payload.length = m.offset (c.chunkID + 1)
        rw [hid, hm.offset_succ hlt, hcounts.received, hsize]
      · -- the first chunk that is written is the first of all
        show (if r.tr.receivedBytes = 0 then c.chunkID else r.tr.firstChunk) = 0
        split_ifs with hzero
        · rw [hcounts.received] at hzero
          by_contra hne
          have hpos := hm.offset_pos (Nat.pos_of_ne_zero (hid ▸ hne)) hlt.le
          omega
        · exact hcounts.first
    refine ⟨hcommit, ?_, h.replying, ?_⟩
    · intro _
      show Sized m (c.chunkID + 1) (Runner.held (if c.ackRequest then _ else _) ++ r.tr.queue) _
      have hheld : Runner.held (if c.ackRequest then .acking (r.tr.commitChunk c).snapshot
          else .windowing) = [] := by
        split_ifs <;> rfl
      rw [hheld, hid]
      exact hrest
    · intro a ha
      have hsnapshot := inRange_snapshot hcommit (Nat.succ_pos _)
      dsimp only at ha
      split_ifs at ha
      cases ha
      exact hsnapshot

/-! ## Every step -/

/-- Stopping the transfer leaves the counters. -/
theorem halt (h : r.Accounts m)
    (htr : tr.counters = r.tr.counters ∧ tr.metadata = r.tr.metadata ∧ tr.failed ≠ none) :
    ({ r with tr := tr } : Receiver).Accounts m :=
  h.keep htr.1 htr.2.1 (fun hf => absurd hf htr.2.2) h.replying h.acking

theorem step {label : Label} (hm : m.Exact) (h : r.Accounts m) (hs : Step H r label r') :
    r'.Accounts m := by
  cases hs with
  | data reserve c hready => exact h.handleData hm reserve c
  | finish hready => exact h.handleEnd hm
  | reply x rest hreader =>
    refine { h with replying := fun l hl y hy => ?_ }
    dsimp only at hl
    split_ifs at hl
    cases hl
    exact h.replying _ hreader y (List.mem_cons_of_mem x hy)
  | forget | closed | late => exact { h with }
  | endClosing hreader =>
    obtain ⟨hcounters, hmetadata, hfailed, hqueue⟩ := r.tr.counters_closeQueue
    exact h.keep hcounters hmetadata
      (fun hf => ⟨hfailed ▸ hf, congrArg (r.runner.held ++ ·) hqueue⟩) (by simp) h.acking
  | endWaited hreader hdone => exact { h with replying := nofun }
  | endWaitFails e hreader hdone =>
    exact { h.halt (r.tr.counters_stop e) with replying := nofun }
  | endDone hreader =>
    rw [Receiver.endDone]
    split
    · exact { h.reject .writeFailed with }
    · exact { h with replying := nofun }
  | endVerify hreader =>
    rw [Receiver.endVerify]
    split_ifs
    · exact { h.reject .invalidChunk with }
    · exact { h with replying := nofun }
  | endCommitted err hreader hcommitter =>
    cases err with
    | some e => exact { h.reject .writeFailed with }
    | none => exact { h.reply_step (x := .state ⟨_, _, none⟩) trivial with }
  | endTimedOut e hreader hcommitter =>
    have hfail : Accounts m { r with tr := r.tr.fail e } :=
      h.keep rfl rfl (fun hf => by cases hf) h.replying h.acking
    exact { hfail.reject .writeFailed with }
  | take c rest hrunner hqueue =>
    refine h.keep rfl rfl (fun hf => ⟨hf, ?_⟩) h.replying (by simp)
    rw [hrunner, hqueue]
    rfl
  | taken c hrunner =>
    refine h.runner_step (fun hf => ?_) (fun a ha => ?_)
    · rw [hrunner, hf]
      rfl
    · split_ifs at ha
  | written c n err hrunner =>
    have hafter : (r.written c n err).runner = .wrote c ∨
        ∃ e, (r.written c n err).runner = .failing c e := by
      cases err with
      | some e => exact .inr ⟨e, rfl⟩
      | none =>
        simp only [Receiver.written]
        split_ifs
        · exact .inr ⟨_, rfl⟩
        · exact .inl rfl
    refine h.runner_step (x := (r.written c n err).runner) (fun _ => ?_) (fun a ha => ?_)
    · rcases hafter with heq | ⟨e, heq⟩ <;> rw [hrunner, heq] <;> rfl
    · rcases hafter with heq | ⟨e, heq⟩ <;> rw [heq] at ha <;> cases ha
  | account c hrunner => exact h.account hm hrunner
  | otherWindow => exact h
  | failing c e hrunner =>
    exact { h.halt (r.tr.counters_stop e) with
      flow := fun hf => absurd hf (r.tr.counters_stop e).2.2
      acking := nofun }
  | finishing hrunner =>
    refine h.runner_step (fun _ => ?_) (fun a ha => ?_)
    · rw [hrunner]
      split_ifs <;> rfl
    · split_ifs at ha
  | drained hrunner | ack _ hrunner | window _ _ hrunner | noWindow hrunner | nack _ hrunner
  | abort hrunner | suspend hrunner => exact h.runner_step (fun _ => by rw [hrunner]; rfl) nofun
  | exit hrunner =>
    refine h.keep rfl rfl (fun hf => ⟨hf, ?_⟩) h.replying (by simp)
    rw [hrunner]
    rfl

theorem outside (h : r.Accounts m) (ho : Link.Outside r r') : r'.Accounts m := by
  cases ho with
  | unlist | cancel => exact { h with }
  | stop e => exact h.halt (r.tr.counters_stop e)
  | suspend e => exact h.halt (r.tr.counters_suspend e)

end Accounts

/-- The steps of a receiver, and what happens to it from outside. -/
def Moves (H : Bytes → Bytes) (r r' : Receiver) : Prop :=
  (∃ label, Step H r label r') ∨ Link.Outside r r'

open Relation in
/-- The counters of an admitted transfer are right in every run. -/
theorem accounts_of_moves (hm : m.Exact) (h : r.Accounts m) (hrun : ReflTransGen (Moves H) r r') :
    r'.Accounts m := by
  refine Run.invariant (Accounts m) h ?_ hrun
  rintro s s' hs (⟨label, hstep⟩ | hout)
  · exact hs.step hm hstep
  · exact hs.outside hout

/-- What a receiver sends has a range that the sender takes. -/
theorem Accounts.sends (h : r.Accounts m) (hs : Step H r (.send x) r') : x.InRange m := by
  cases hs with
  | reply x rest hreader => exact h.replying _ hreader x List.mem_cons_self
  | ack a hrunner => exact h.acking a hrunner
  | window | otherWindow => trivial
  | nack c hrunner => exact Nat.le_refl c.chunkID

/-- A chunk that is answered leaves the counters. -/
theorem counters_refused {reserve : Bool} (hready : r.reader = .ready)
    (hx : (r.handleData reserve c).reader = .replying [x]) :
    (r.handleData reserve c).tr.counters = r.tr.counters := by
  have hrecord : (r.tr.handleData reserve c).1.counters = r.tr.counters ∨
      (r.tr.handleData reserve c).2 = .nothing := by
    rcases r.tr.handleData_cases reserve c with heq | heq | ⟨-, -, -, -, -, -, -, heq⟩
    · exact .inl (by rw [heq])
    · exact .inl (by rw [heq]; rfl)
    · exact .inr (by rw [heq])
  rw [handleData] at hx ⊢
  split_ifs at hx ⊢
  · rfl
  · rfl
  · rcases hresult : r.tr.handleData reserve c with ⟨tr, e | y | _⟩ <;> rw [hresult] at hx hrecord
    · cases hx
    · exact hrecord.resolve_right nofun
    · -- nothing is answered to a chunk that is accepted
      exact absurd (hready.symm.trans hx) nofun

end Receiver

/-! ## Admitted transfers -/

namespace Admitted

open Storage

variable {cfg : Storage.Config} {v : Wire.TransferBegin} {r₀ r r' : Receiver} {H : Bytes → Bytes}

/-- The counters that a resumed transfer starts with. -/
theorem counts_resumed {sha256 : Bool} {requestID : ℕ} {resume : Resume} {d : Decision}
    (hm : d.metadata.Exact) (h : checkDecision cfg sha256 requestID resume d = none) :
    (resumedTransfer cfg d).Counts d.metadata.toTransferBegin := by
  simp only [checkDecision] at h
  split_ifs at h with hmeta hsha hparts hcounters
  push Not at hmeta hcounters
  obtain ⟨hcount, hoffset⟩ := hm.offset_of_transferOffsetForChunk hmeta.2.2.2.1 hcounters.1
  refine ⟨rfl, Nat.le_refl _, hcount, hoffset, hoffset, rfl, fun hpos => ?_⟩
  show d.nextChunk - 1 + 1 = d.nextChunk
  exact Nat.sub_add_cancel hpos

/-- A transfer starts with the right counters. -/
theorem accounts (h : Admitted cfg v r) (hm : (Meta.ofWire v).Exact) :
    r.Accounts (Meta.ofWire v).toTransferBegin := by
  cases h with
  | begin sha256 requestID early hcheck hearly =>
    have hzero : (Meta.ofWire v).offset 0 = 0 := Piece.offset_zero
    refine ⟨⟨rfl, Nat.le_refl 0, Nat.zero_le _, hzero.symm, hzero.symm, rfl,
      fun hpos => absurd hpos (Nat.lt_irrefl 0)⟩, fun _ => rfl, ?_, nofun⟩
    intro l hl x hx
    rcases hearly with rfl | ⟨f, rfl⟩
    · cases hl
    · cases hl
      rw [List.mem_singleton.mp hx]
      cases f <;> exact Nat.le_refl _
  | resume sha256 requestID resume d hmeta hcheck =>
    rw [← hmeta] at hm ⊢
    exact ⟨counts_resumed hm hcheck, fun _ => rfl, nofun, nofun⟩

end Admitted

open Relation Storage in
/-- The counters of an incoming transfer. Along every run of the receiver, and whatever happens to
    it from outside, they are those of whole chunks; a chunk that is refused leaves them; and what
    is sent has a range that the sender takes. -/
theorem incoming_counters {cfg : Storage.Config} {v : Wire.TransferBegin} {r₀ r : Receiver}
    {H : Bytes → Bytes} (hadmitted : Admitted cfg v r₀)
    (hsize : v.totalSize.toNat ≤ (2 ^ 32 - 2) * v.chunkSize.toNat)
    (hrun : ReflTransGen (Receiver.Moves H) r₀ r) :
    (r.tr.nextChunk ≤ r.tr.acceptedNextChunk ∧ r.tr.acceptedNextChunk ≤ v.chunkCount.toNat ∧
      r.tr.receivedBytes = min (r.tr.nextChunk * v.chunkSize.toNat) v.totalSize.toNat ∧
      r.tr.acceptedBytes = min (r.tr.acceptedNextChunk * v.chunkSize.toNat) v.totalSize.toNat ∧
      (0 < r.tr.nextChunk → r.tr.lastChunk + 1 = r.tr.nextChunk ∧ r.tr.firstChunk = 0)) ∧
    (∀ (reserve : Bool) (c : Chunk) (n : Nack), r.reader = .ready →
      (r.handleData reserve c).reader = .replying [.nack n] →
      (r.handleData reserve c).tr.counters = r.tr.counters) ∧
    ∀ (x : Reply) (r' : Receiver), Receiver.Step H r (.send x) r' →
      match x with
      | .ack a => a.chunkFrom ≤ a.chunkTo ∧ a.chunkTo < v.chunkCount.toNat
      | .nack n => n.chunkFrom ≤ n.chunkTo
      | _ => True := by
  have hm : (Meta.ofWire v).Exact :=
    hadmitted.exact (hsize.trans (Nat.mul_le_mul_right _ (by decide)))
  have haccounts := Receiver.accounts_of_moves hm (hadmitted.accounts hm) hrun
  have hcounts := haccounts.counts
  refine ⟨⟨hcounts.next_le, hcounts.accepted_le, hcounts.received, hcounts.accepted,
    fun hpos => ⟨hcounts.last hpos, hcounts.first⟩⟩, ?_, ?_⟩
  · intro reserve c n hready hnack
    exact Receiver.counters_refused hready hnack
  · intro x r' hs
    have hrange := haccounts.sends hs
    cases x <;> exact hrange

/-- The announcement of a transfer of the given geometry. -/
def plainBegin (totalSize : UInt64) (chunkSize chunkCount : UInt32) : Wire.TransferBegin where
  totalSize := totalSize
  chunkSize := chunkSize
  chunkCount := chunkCount
  contentType := 0
  flags := 0
  checksum := ⟨List.replicate 32 0, rfl⟩
  name := []
  event := []
  field := []
  index := 0
  parts := []
  fields := []

/-- The receiver of a transfer of five bytes in chunks of two. -/
def smallReceiver : Receiver :=
  Link.opened (4 : ℕ) (Storage.Meta.ofWire (plainBegin 5 2 3)).toTransferBegin []

theorem smallReceiver_admitted : Admitted {} (plainBegin 5 2 3) smallReceiver :=
  .begin true 0 [] (by decide) (.inl rfl)

open Relation in
/-- The counters after the first chunk was accepted. -/
theorem incoming_counters_small :
    ∃ r, ReflTransGen (Receiver.Moves id) smallReceiver r ∧ r.tr.acceptedNextChunk = 1 ∧
      r.tr.acceptedBytes = min (r.tr.acceptedNextChunk * 2) 5 := by
  have hrun : ReflTransGen (Receiver.Moves id) smallReceiver
      (smallReceiver.handleData true ⟨0, [1, 2], true⟩) :=
    .single (.inl ⟨_, .data smallReceiver true ⟨0, [1, 2], true⟩ rfl⟩)
  have hcounters := incoming_counters smallReceiver_admitted (by decide) hrun
  exact ⟨_, hrun, rfl, hcounters.1.2.2.2.1⟩

/-! ## The geometry of admitted transfers -/

section Geometry

variable {v : Wire.TransferBegin}

theorem toNat_ofNat_of_lt_count {k : ℕ} (hk : k < v.chunkCount.toNat) :
    (UInt32.ofNat k).toNat = k :=
  UInt32.toNat_ofNat_of_lt' (hk.trans v.chunkCount.toNat_lt)

/-- Where the chunks are exact, the words of the receiver add up to the transfer. -/
theorem sum_demanded (hm : (Storage.Meta.ofWire v).Exact) :
    ∑ k ∈ Finset.range v.chunkCount.toNat, (v.demanded (.ofNat k)).toNat = v.totalSize.toNat := by
  have hwords : ∀ k ∈ Finset.range v.chunkCount.toNat,
      (v.demanded (.ofNat k)).toNat = (Storage.Meta.ofWire v).demand k := by
    intro k hk
    have hlt := Finset.mem_range.mp hk
    have hnat := toNat_ofNat_of_lt_count hlt
    rw [toNat_demanded hm (by rw [UInt32.lt_iff_toNat_lt, hnat]; exact hlt), hnat]
  rw [Finset.sum_congr rfl hwords]
  exact (hm.sum_demand le_rfl).trans hm.offset_count

/-- Chunks within their size do not add up to more than that many of them. -/
theorem sum_demanded_le (h : ∀ k < v.chunkCount, v.demanded k ≤ v.chunkSize) :
    ∑ k ∈ Finset.range v.chunkCount.toNat, (v.demanded (.ofNat k)).toNat ≤
      v.chunkCount.toNat * v.chunkSize.toNat := by
  have hle : ∀ k ∈ Finset.range v.chunkCount.toNat,
      (v.demanded (.ofNat k)).toNat ≤ v.chunkSize.toNat := by
    intro k hk
    have hlt := Finset.mem_range.mp hk
    refine UInt32.le_iff_toNat_le.mp (h _ ?_)
    rwa [UInt32.lt_iff_toNat_lt, toNat_ofNat_of_lt_count hlt]
  have hsum := Finset.sum_le_card_nsmul _ _ _ hle
  rwa [Finset.card_range, nsmul_eq_mul, Nat.cast_id] at hsum

end Geometry

open Relation Storage in
/-- The chunks of an admitted transfer. Exactly if there are as many as its size needs, the sizes
    that the receiver asks for are between one and the size of a chunk and add up to the transfer,
    so that a transfer whose chunks were all accepted has all its bytes. -/
theorem admitted_geometry {cfg : Storage.Config} {v : Wire.TransferBegin} {r₀ : Receiver}
    {H : Bytes → Bytes} (hadmitted : Admitted cfg v r₀) :
    ((∀ k < v.chunkCount, 1 ≤ v.demanded k ∧ v.demanded k ≤ v.chunkSize) ∧
      ∑ k ∈ Finset.range v.chunkCount.toNat, (v.demanded (.ofNat k)).toNat = v.totalSize.toNat ∧
      ∀ r, ReflTransGen (Receiver.Moves H) r₀ r → r.tr.acceptedNextChunk = v.chunkCount.toNat →
        r.tr.acceptedBytes = v.totalSize.toNat) ↔
    v.totalSize.toNat ≤ (2 ^ 32 - 1) * v.chunkSize.toNat := by
  constructor
  · rintro ⟨hdemanded, hsum, -⟩
    have hle := sum_demanded_le fun k hk => (hdemanded k hk).2
    have hcount : v.chunkCount.toNat ≤ 2 ^ 32 - 1 := Nat.le_sub_one_of_lt v.chunkCount.toNat_lt
    exact hsum ▸ hle.trans (Nat.mul_le_mul_right _ hcount)
  · intro hsize
    have hm : (Meta.ofWire v).Exact := hadmitted.exact hsize
    refine ⟨fun k hk => ?_, sum_demanded hm, fun r hrun hall => ?_⟩
    · rw [UInt32.le_iff_toNat_le, UInt32.le_iff_toNat_le, toNat_demanded hm hk]
      exact ⟨hm.demand_pos hk, hm.demand_le hk⟩
    · have haccounts := Receiver.accounts_of_moves hm (hadmitted.accounts hm) hrun
      rw [haccounts.counts.accepted, hall]
      exact hm.offset_count

theorem admitted_geometry_small :
    Admitted {} (plainBegin 5 2 3) smallReceiver ∧
      ∑ k ∈ Finset.range 3, ((plainBegin 5 2 3).demanded (.ofNat k)).toNat = 5 :=
  ⟨smallReceiver_admitted,
    ((admitted_geometry (H := id) smallReceiver_admitted).mpr (by decide)).2.1⟩

/-- A transfer with more chunks than a word counts is admitted. The receiver asks for a last chunk
    that is larger than a chunk may be, and the sizes do not add up to the transfer. -/
theorem saturated_transfer_admitted :
    ∃ r, Admitted {} (plainBegin 0x200000000 1 0xFFFFFFFF) r ∧
      (plainBegin 0x200000000 1 0xFFFFFFFF).demanded 0xFFFFFFFE = 2 ∧
      ¬ (plainBegin 0x200000000 1 0xFFFFFFFF).demanded 0xFFFFFFFE ≤
        (plainBegin 0x200000000 1 0xFFFFFFFF).chunkSize :=
  ⟨_, .begin true 0 [] (by decide) (.inl rfl), by decide, by decide⟩

end Etp.Transfer
