import Etp.Transfer.Receiver

/-!
# The invariant of a receiver

The receiver of a byte string `D` keeps two cursors into its chunks: those below
`nextChunk` were written and accounted for, those below `acceptedNextChunk` were
queued. Between the two are the chunk in the hands of the runner and the queue
(`Flowing`), and the calls of the writer are the chunks below the first cursor,
and one more where it was written and not yet accounted for.

This holds until the transfer fails. At the end the queue is drained, both
cursors are at the number of chunks, and the writer has taken all of `D`; only
then is it closed, and only then is the transfer `Completed`.

`Receiver.Inv` says this for every position of the three goroutines. The lemmas
of this module are the steps of the runner and the ways to stop; the steps of
the reader and of the commit are in `Etp.Transfer.ReceiverSteps`.
-/

namespace Etp.Transfer

open Piece

variable {m : TransferBegin} {D : Bytes} {H : Bytes → Bytes}

/-! ## The chunks of a byte string -/

/-- The chunks `l` are those of `D` from `a` up to `b`. -/
def Chunks (m : TransferBegin) (D : Bytes) : ℕ → List Chunk → ℕ → Prop
  | a, [], b => a = b
  | a, c :: l, b => c.chunkID = a ∧ c.payload = m.chunk D a ∧ Chunks m D (a + 1) l b

variable {c : Chunk}

theorem Chunks.snoc {a b : ℕ} {l : List Chunk} (h : Chunks m D a l b) (hid : c.chunkID = b)
    (hp : c.payload = m.chunk D b) : Chunks m D a (l ++ [c]) (b + 1) := by
  induction l generalizing a with
  | nil =>
    obtain rfl : a = b := h
    exact ⟨hid, hp, rfl⟩
  | cons d l ih => exact ⟨h.1, h.2.1, ih h.2.2⟩

theorem Chunks.le {a b : ℕ} {l : List Chunk} (h : Chunks m D a l b) : a ≤ b := by
  induction l generalizing a with
  | nil => exact Nat.le_of_eq h
  | cons c l ih => exact Nat.le_of_succ_le (ih h.2.2)

/-- The calls of a writer that takes the first `n` chunks. -/
def goodWrites (m : TransferBegin) (D : Bytes) (n : ℕ) : List Call :=
  (pieces m.chunkSize D n).map fun p => .write p p.length none

theorem goodWrites_succ (n : ℕ) : goodWrites m D (n + 1) =
    goodWrites m D n ++ [.write (m.chunk D n) (m.chunk D n).length none] := by
  rw [goodWrites, pieces_succ, List.map_append]
  rfl

/-- The acknowledgement of the chunks up to one of the first `n`. -/
def AckOf (m : TransferBegin) (n : ℕ) (a : Ack) : Prop :=
  a.chunkFrom = 0 ∧ a.chunkTo < n ∧ a.receivedBytes = m.offset (a.chunkTo + 1)

theorem AckOf.mono {n n' : ℕ} {a : Ack} (h : AckOf m n a) (hn : n ≤ n') : AckOf m n' a :=
  ⟨h.1, Nat.lt_of_lt_of_le h.2.1 hn, h.2.2⟩

/-- The counters of the record. -/
structure IncomingTransfer.Counted (m : TransferBegin) (D : Bytes) (tr : IncomingTransfer) :
    Prop where
  metadata : tr.metadata = m
  next_le : tr.nextChunk ≤ tr.acceptedNextChunk
  accepted_le : tr.acceptedNextChunk ≤ m.chunkCount
  received : tr.receivedBytes = m.offset tr.nextChunk
  accepted : tr.acceptedBytes = m.offset tr.acceptedNextChunk
  range : 0 < tr.nextChunk → tr.firstChunk = 0 ∧ tr.lastChunk + 1 = tr.nextChunk
  hash : tr.hash = if m.checksummed then some (D.take (tr.nextChunk * m.chunkSize)) else none
  closed : tr.queueClosed = true → tr.accepting = false

variable {tr : IncomingTransfer}

theorem IncomingTransfer.Counted.snapshot (h : tr.Counted m D) (hn : 0 < tr.nextChunk) :
    AckOf m tr.nextChunk tr.snapshot := by
  obtain ⟨h1, h2⟩ := h.range hn
  refine ⟨h1, ?_, ?_⟩
  · simp only [IncomingTransfer.snapshot]; omega
  · simp only [IncomingTransfer.snapshot]
    rw [h2, h.received]

/-- Accounting for the next chunk. -/
theorem IncomingTransfer.Counted.commit (hm : m.Covers D) (h : tr.Counted m D)
    (hid : c.chunkID = tr.nextChunk) (hp : c.payload = m.chunk D tr.nextChunk)
    (hlt : tr.nextChunk < tr.acceptedNextChunk) : (tr.commitChunk c).Counted m D := by
  obtain ⟨k1, k2, k3, k4, k5, k6, k7, k8⟩ := h
  refine ⟨k1, ?_, k3, ?_, k5, fun _ => ⟨?_, rfl⟩, ?_, k8⟩
  · simp only [commitChunk]; omega
  · simp only [commitChunk]
    rw [hid, hp, k4, hm.offset_succ]
  · simp only [commitChunk]
    by_cases hz : tr.nextChunk = 0
    · rw [k4, hz, if_pos (by simp [TransferBegin.offset]), hid, hz]
    · have hpos : m.offset 0 < m.offset tr.nextChunk := hm.offset_lt (by omega) (by omega)
      rw [k4, if_neg (by omega)]
      exact (k6 (by omega)).1
  · simp only [commitChunk]
    rw [k7, hid, hp]
    split_ifs
    · rw [Option.map_some, take_succ_mul]
      rfl
    · rfl

/-- The chunk the runner has in its hands. -/
def Runner.hand : Runner → List Chunk
  | .taken c | .writing c | .wrote c => [c]
  | _ => []

/-- How many chunks are written and not yet accounted for. -/
def Runner.lead : Runner → ℕ
  | .wrote _ => 1
  | _ => 0

/-- The reader is inside `handleIncomingTransferEnd`. -/
def Reader.ending : Reader → Bool
  | .endClosing | .endWaiting | .endDone | .endVerify | .endCommitting => true
  | _ => false

/-- Whether the writer is closed too late, where somebody closes it. -/
def Committer.late : Committer → Option Bool
  | .idle => none
  | .closing late | .closed late _ => some late

theorem Committer.idle_or (k : Committer) : k = .idle ∨ ∃ late, k.late = some late := by
  cases k <;> simp [late]

namespace Receiver

/-! ## The invariant -/

/-- Every chunk is on its way to the writer, which has taken all before it. -/
def Flowing (m : TransferBegin) (D : Bytes) (r : Receiver) : Prop :=
  Chunks m D r.tr.nextChunk (r.runner.hand ++ r.tr.queue) r.tr.acceptedNextChunk ∧
    r.calls = goodWrites m D (r.tr.nextChunk + r.runner.lead)

/-- The announced checksum is that of `D`. -/
def Verified (m : TransferBegin) (D : Bytes) (H : Bytes → Bytes) : Prop :=
  m.checksummed = true → H D = m.checksum

/-- The writer has taken all of `D` and was closed. -/
def Completed (m : TransferBegin) (D : Bytes) (H : Bytes → Bytes) (r : Receiver) : Prop :=
  r.tr.nextChunk = m.chunkCount ∧ r.calls = goodWrites m D m.chunkCount ++ [.close none] ∧
    Verified m D H ∧ r.runner = .exited ∧ r.committer = .idle

theorem Completed.exited {r : Receiver} (h : r.Completed m D H) : r.runner = .exited := h.2.2.2.1

/-- An answer is right: an acknowledgement is of chunks that were written, and the
    state of a completed transfer is that of one that is. -/
def ReplyFits (m : TransferBegin) (D : Bytes) (H : Bytes → Bytes) (r : Receiver) : Reply → Prop
  | .ack a => AckOf m r.tr.nextChunk a
  | .state s => s.failure = none → r.Completed m D H
  | _ => True

/-- Before the verdict of an end. -/
def Ending (m : TransferBegin) (r : Receiver) : Prop :=
  r.remembered = none ∧ r.committer = .idle ∧ r.tr.acceptedNextChunk = m.chunkCount

/-- What holds at each position of the reader. -/
def ReaderFits (m : TransferBegin) (D : Bytes) (H : Bytes → Bytes) (r : Receiver) : Prop :=
  match r.reader with
  | .ready | .stopped _ => True
  | .replying l => ∀ reply ∈ l, r.ReplyFits m D H reply
  | .endClosing | .endWaiting => r.Ending m
  | .endDone => r.Ending m ∧ r.tr.done = true
  | .endVerify => r.Ending m ∧ r.runner = .exited ∧ r.tr.nextChunk = m.chunkCount ∧
      r.calls = goodWrites m D m.chunkCount
  | .endCommitting => r.remembered = none ∧ r.runner = .exited ∧
      r.tr.nextChunk = m.chunkCount ∧ Verified m D H ∧
      match r.committer with
      | .closing false => r.calls = goodWrites m D m.chunkCount
      | .closed false e => r.calls = goodWrites m D m.chunkCount ++ [.close e]
      | _ => False

/-- What holds at each position of the runner. -/
def RunnerFits (m : TransferBegin) (r : Receiver) : Prop :=
  match r.runner with
  | .acking a => AckOf m r.tr.nextChunk a
  | .finishing | .closing | .exited => r.tr.queue = [] ∧ r.tr.queueClosed = true
  | .aborting _ => (r.tr.queue = [] ∧ r.tr.queueClosed = true) ∧ r.tr.failed ≠ none
  | _ => True

/-- What holds at each position of the goroutine that closes the writer. -/
def CommitterFits (r : Receiver) : Prop :=
  ∀ late, r.committer.late = some late → r.tr.ending = true ∧ r.runner = .exited ∧
    if late then r.tr.failed ≠ none ∧ r.remembered ≠ none else r.reader = .endCommitting

/-- What holds of a remembered state. -/
def MemoryFits (m : TransferBegin) (D : Bytes) (H : Bytes → Bytes) (r : Receiver) : Prop :=
  ∀ s, r.remembered = some s → r.tr.ending = true ∧ (r.runner = .exited ∨ r.tr.failed ≠ none) ∧
    (s.failure = none → r.Completed m D H)

/-- The invariant of the receiver of `D`. -/
structure Inv (m : TransferBegin) (D : Bytes) (H : Bytes → Bytes) (r : Receiver) : Prop where
  counted : r.tr.Counted m D
  flow : r.tr.failed = none → r.remembered = none → r.committer = .idle →
    (∃ c e, r.runner = .failing c e) ∨ r.Flowing m D
  reader : r.ReaderFits m D H
  runner : r.RunnerFits m
  done : r.tr.done = true → r.runner = .exited
  committer : r.CommitterFits
  memory : r.MemoryFits m D H
  fresh : r.tr.ending = false → r.reader.ending = false

variable {r r' : Receiver}

section Inv

variable (h : r.Inv m D H)
include h

/-- A step that changes neither the positions nor the counters. -/
theorem Inv.frame {failed : Option Err} {ctxDone accepting queueClosed suspendOnFailure
    flowBlocked listed forgotten sessionDone : Bool} (hfail : r.tr.failed ≠ none → failed ≠ none)
    (hqueue : r.tr.queueClosed = true → queueClosed = true)
    (hclosed : queueClosed = true → accepting = false) :
    ({ r with
        tr := { r.tr with
          failed := failed
          ctxDone := ctxDone
          accepting := accepting
          queueClosed := queueClosed
          suspendOnFailure := suspendOnFailure
          flowBlocked := flowBlocked }
        listed := listed
        forgotten := forgotten
        sessionDone := sessionDone } : Receiver).Inv m D H where
  counted := { h.counted with closed := hclosed }
  flow hf := h.flow (not_imp_not.mp hfail hf)
  reader := h.reader
  runner := by
    have hru := h.runner
    dsimp only [RunnerFits] at hru ⊢
    split at hru
    · exact hru
    · exact hru.imp_right hqueue
    · exact hru.imp_right hqueue
    · exact hru.imp_right hqueue
    · exact hru.imp (And.imp_right hqueue) hfail
    · trivial
  done := h.done
  committer late hlate := by
    obtain ⟨h1, h2, h3⟩ := h.committer late hlate
    refine ⟨h1, h2, ?_⟩
    split_ifs at h3 ⊢
    · exact h3.imp_left hfail
    · exact h3
  memory s hs := (h.memory s hs).imp_right (And.imp_left (Or.imp_right hfail))
  fresh := h.fresh

/-! ## The steps of the runner -/

/-- A step of the runner, while it is not at its end: the reader does not notice. -/
theorem Inv.running {x : Runner} {calls : List Call}
    (hr : r.runner ≠ .exited) (hacc : tr.acceptedNextChunk = r.tr.acceptedNextChunk)
    (hend : tr.ending = r.tr.ending) (hnext : r.tr.nextChunk ≤ tr.nextChunk)
    (hfail : r.tr.failed ≠ none → tr.failed ≠ none) (hdone : tr.done = r.tr.done ∨ x = .exited)
    (hcounted : tr.Counted m D)
    (hflow : tr.failed = none → (∃ c e, x = .failing c e) ∨
      ({ r with tr := tr, runner := x, calls := calls } : Receiver).Flowing m D)
    (hfit : ({ r with tr := tr, runner := x, calls := calls } : Receiver).RunnerFits m) :
    ({ r with tr := tr, runner := x, calls := calls } : Receiver).Inv m D H where
  counted := hcounted
  flow hf _ _ := hflow hf
  reader := by
    have hre := h.reader
    dsimp only [ReaderFits] at hre ⊢
    split at hre
    · trivial
    · trivial
    · intro reply hmem
      have hf := hre reply hmem
      cases reply with
      | ack a => exact hf.mono hnext
      | state s => exact fun hs => absurd (hf hs).exited hr
      | nack n => trivial
      | window b c => trivial
    · exact hre.imp_right (And.imp_right hacc.trans)
    · exact hre.imp_right (And.imp_right hacc.trans)
    · exact absurd (h.done hre.2) hr
    · exact absurd hre.2.1 hr
    · exact absurd hre.2.1 hr
  runner := hfit
  done hd := hdone.elim (fun heq => absurd (h.done (heq ▸ hd)) hr) id
  committer late hlate := absurd (h.committer late hlate).2.1 hr
  memory s hs := by
    obtain ⟨h1, h2, h3⟩ := h.memory s hs
    exact ⟨hend.trans h1, .inr (hfail (h2.resolve_left hr)), fun h0 => absurd (h3 h0).exited hr⟩
  fresh := hend ▸ h.fresh

/-- A transfer that goes on has no verdict. -/
theorem Inv.undecided (hr : r.runner ≠ .exited) (hf : r.tr.failed = none) : r.remembered = none :=
  Option.eq_none_iff_forall_ne_some.mpr fun s hs =>
    absurd hf ((h.memory s hs).2.1.resolve_left hr)

/-- What flows to the writer, where the runner has not failed. -/
theorem Inv.flowing {y : Runner} (hr : r.runner = y) (hy : y.going = true) (hf : r.tr.failed = none)
    : r.Flowing m D := by
  subst hr
  obtain ⟨hex, hfailing⟩ := Runner.ne_of_going hy
  have hcom : r.committer = .idle :=
    r.committer.idle_or.resolve_right fun ⟨late, hlate⟩ => hex (h.committer late hlate).2.1
  exact (h.flow hf (h.undecided hex hf) hcom).resolve_left fun ⟨c, e, hc⟩ => hfailing c e hc

/-- A step of the runner that changes nothing but its position. -/
theorem Inv.runner_move {x y : Runner} (hr : r.runner = y) (hy : y.going = true)
    (hhand : x.hand = y.hand) (hlead : x.lead = y.lead)
    (hfit : ({ r with runner := x } : Receiver).RunnerFits m) : 
    ({ r with runner := x } : Receiver).Inv m D H := by
  refine h.running (hr ▸ (Runner.ne_of_going hy).1) rfl rfl (Nat.le_refl _) id (.inl rfl) h.counted
    (fun hf => .inr ?_) hfit
  obtain ⟨h1, h2⟩ := h.flowing hr hy hf
  subst hr
  exact ⟨by simpa only [hhand] using h1, by simpa only [hlead] using h2⟩

/-- A step of the runner of a transfer that has failed. -/
theorem Inv.runner_failed {x : Runner} (hr : r.runner ≠ .exited) (hf : r.tr.failed ≠ none)
    (calls : List Call) (hfit : ({ r with runner := x, calls := calls } : Receiver).RunnerFits m) : 
    ({ r with runner := x, calls := calls } : Receiver).Inv m D H :=
  h.running hr rfl rfl (Nat.le_refl _) id (.inl rfl) h.counted (fun hf' => absurd hf' hf) hfit

theorem inv_take {rest : List Chunk} (hr : r.runner = .take) (hq : r.tr.queue = c :: rest) :
    ({ r with tr := { r.tr with queue := rest }, runner := .taken c } : Receiver).Inv m D H := by
  refine h.running (by simp [hr]) rfl rfl (Nat.le_refl _) id (.inl rfl) { h.counted with }
    (fun hf => .inr ?_) trivial
  obtain ⟨h1, h2⟩ := h.flowing hr rfl hf
  exact ⟨by simpa [hr, hq, Runner.hand] using h1, by simpa [hr, Runner.lead] using h2⟩

theorem inv_taken (hr : r.runner = .taken c) :
    ({ r with runner := if r.tr.failed.isSome then .take else .writing c } :
      Receiver).Inv m D H := by
  cases hf : r.tr.failed with
  | some e => exact h.runner_failed (x := .take) (by simp [hr]) (by simp [hf]) r.calls trivial
  | none => exact h.runner_move (x := .writing c) hr rfl rfl rfl trivial

theorem inv_written {n : ℕ} {err : Option Err} (hr : r.runner = .writing c) :
    (r.written c n err).Inv m D H := by
  refine h.running (by simp [hr]) rfl rfl (Nat.le_refl _) id (.inl rfl) h.counted
    (fun hf => ?_) ?_
  · obtain ⟨h1, h2⟩ := h.flowing hr rfl hf
    have hc : c.payload = m.chunk D r.tr.nextChunk := by
      simp only [hr, Runner.hand, List.cons_append, List.nil_append] at h1
      exact h1.2.1
    cases err with
    | some e => exact .inl ⟨c, e, rfl⟩
    | none =>
      by_cases hn : n = c.payload.length
      · -- The call has taken the whole chunk.
        subst hn
        refine .inr ⟨by simpa [hr, Runner.hand] using h1, ?_⟩
        simp only [ne_eq, not_true_eq_false, if_false, Runner.lead]
        rw [h2, goodWrites_succ, hr, hc]
        rfl
      · exact .inl ⟨c, "short write", by simp [hn]⟩
  · cases err with
    | some e => trivial
    | none =>
      unfold RunnerFits
      split_ifs <;> trivial

end Inv

theorem inv_account (hm : m.Covers D) (h : r.Inv m D H) (hr : r.runner = .wrote c) :
    (r.account c).Inv m D H ∧ r.tr.nextChunk ≤ (r.account c).tr.nextChunk := by
  have hne : r.runner ≠ .exited := by simp [hr]
  unfold account
  split
  · rename_i e hf
    exact ⟨h.runner_failed (x := .take) hne (by simp [hf]) r.calls trivial, Nat.le_refl _⟩
  · rename_i hf
    obtain ⟨h1, h2⟩ := h.flowing hr rfl hf
    simp only [hr, Runner.hand, List.cons_append, List.nil_append] at h1
    obtain ⟨hid, hp, hrest⟩ := h1
    have hcounted := h.counted.commit hm hid hp hrest.le
    have hnext : r.tr.nextChunk ≤ c.chunkID + 1 := by omega
    refine ⟨h.running hne rfl rfl hnext id (.inl rfl) hcounted (fun _ => .inr ?_) ?_, hnext⟩
    · cases c.ackRequest
      all_goals
        refine ⟨?_, ?_⟩
        · simpa [IncomingTransfer.commitChunk, Runner.hand, hid] using hrest
        · simpa [IncomingTransfer.commitChunk, Runner.lead, hid, hr] using h2
    · cases c.ackRequest with
      | false => trivial
      | true => exact hcounted.snapshot (Nat.succ_pos _)

theorem inv_exit (h : r.Inv m D H) (hr : r.runner = .closing) :
    ({ r with tr := { r.tr with done := true, ctxDone := true }, runner := .exited } :
      Receiver).Inv m D H := by
  have hru := h.runner
  simp only [RunnerFits, hr] at hru
  refine h.running (by simp [hr]) rfl rfl (Nat.le_refl _) id (.inr rfl) { h.counted with }
    (fun hf => .inr ?_) hru
  obtain ⟨h1, h2⟩ := h.flowing hr rfl hf
  exact ⟨by simpa [hr, Runner.hand] using h1, by simpa [hr, Runner.lead] using h2⟩

/-! ## Stopping -/

/-- The transfer stops, by its writer or from outside. -/
theorem Inv.halt {tr' : IncomingTransfer} (h : r.Inv m D H) (ht : r.tr.Halted tr') :
    ({ r with tr := tr' } : Receiver).Inv m D H := by
  obtain ⟨e, b, rfl⟩ := ht
  exact h.frame (fun _ => Option.some_ne_none e) (fun _ => rfl) fun _ => rfl

theorem inv_failing {e : Err} (h : r.Inv m D H) (hr : r.runner = .failing c e) :
    ({ r with tr := r.tr.stop e, runner := .nacking c } : Receiver).Inv m D H := by
  have ht := r.tr.halted_stop h.counted.closed e
  have hi := h.halt ht
  obtain ⟨e', b, heq⟩ := ht
  exact hi.runner_failed (by simp [hr]) (by simp [heq]) r.calls trivial

end Receiver

end Etp.Transfer
