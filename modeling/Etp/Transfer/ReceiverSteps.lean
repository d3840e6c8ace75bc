import Etp.Transfer.ReceiverInvariant

/-!
# The steps of a receiver

The steps of the reader and of the goroutine that closes the writer keep the
invariant of a receiver. Together with those of the runner they give
`Receiver.inv_step`: whatever the receiver does, its invariant holds, the cursor
of the chunks that were written never goes back, and every answer that is sent
is right. A completed transfer stays completed (`Receiver.Completed.step`).

The frames that arrive have to be right only above that cursor
(`Receiver.RequestFits`): a duplicate is answered without a look at its payload.
-/

namespace Etp.Transfer

open List IncomingTransfer

variable {m : TransferBegin} {D : Bytes} {H : Bytes → Bytes}

namespace Receiver

variable {r r' : Receiver}

/-! ## The steps of the reader -/

/-- An end that is handled was noted. -/
theorem Inv.ended {x : Reader} (h : r.Inv m D H) (hr : r.reader = x) (hx : x.ending = true) :
    r.tr.ending = true := by
  by_contra hend
  simp [← hr, h.fresh (by simpa using hend)] at hx

/-- Outside of a commit, closing the writer is nobody's business or too late. -/
theorem Inv.idle_or_late (h : r.Inv m D H) (hr : r.reader ≠ .endCommitting) :
    r.committer = .idle ∨ (r.tr.failed ≠ none ∧ r.remembered ≠ none) := by
  refine r.committer.idle_or.imp_right fun ⟨late, hlate⟩ => ?_
  have hco := (h.committer late hlate).2.2
  split_ifs at hco
  · exact hco
  · exact absurd hco hr

/-- A step that changes only the position of the reader. -/
theorem Inv.reader_move {x : Reader} (h : r.Inv m D H) (hr : r.reader ≠ .endCommitting)
    (hfit : ({ r with reader := x } : Receiver).ReaderFits m D H)
    (hx : r.tr.ending = false → x.ending = false) :
    ({ r with reader := x } : Receiver).Inv m D H := by
  refine ⟨h.counted, h.flow, hfit, h.runner, h.done, fun late hlate => ?_, h.memory, hx⟩
  obtain ⟨h1, h2, h3⟩ := h.committer late hlate
  refine ⟨h1, h2, ?_⟩
  split_ifs at h3 ⊢
  · exact h3
  · exact absurd h3 hr

/-- The reader turns to its answers. -/
theorem Inv.replying {l : List Reply} (h : r.Inv m D H) (hr : r.reader ≠ .endCommitting)
    (hl : ∀ reply ∈ l, r.ReplyFits m D H reply) :
    ({ r with reader := .replying l } : Receiver).Inv m D H :=
  h.reader_move hr hl fun _ => rfl

/-- A transfer that accepts chunks has no verdict, and its runner is not at its end. -/
theorem Inv.accepting (h : r.Inv m D H) (ha : r.tr.accepting = true) (hf : r.tr.failed = none) :
    r.tr.queueClosed ≠ true ∧ r.remembered = none ∧ r.runner ≠ .exited := by
  have hq : r.tr.queueClosed ≠ true := fun hq => by
    have := h.counted.closed hq
    simp [ha] at this
  have hne : r.runner ≠ .exited := fun hr => by
    have hru := h.runner
    simp only [RunnerFits, hr] at hru
    exact hq hru.2
  exact ⟨hq, h.undecided hne hf, hne⟩

/-- A chunk is queued. -/
theorem inv_queued {c : Chunk} (hm : m.Covers D) (h : r.Inv m D H) (hr : r.reader = .ready)
    (hf : r.tr.failed = none) (ha : r.tr.accepting = true)
    (hid : c.chunkID = r.tr.acceptedNextChunk) (hlt : c.chunkID < m.chunkCount)
    (hp : c.payload = m.chunk D c.chunkID) :
    ({ r with tr := { r.tr with
        queue := r.tr.queue ++ [c]
        acceptedBytes := r.tr.acceptedBytes + c.payload.length
        acceptedNextChunk := r.tr.acceptedNextChunk + 1 } } : Receiver).Inv m D H := by
  obtain ⟨hq, hrem, hne⟩ := h.accepting ha hf
  have hcom := (h.idle_or_late (by simp [hr])).resolve_right fun hl => hl.1 hf
  refine ⟨{ h.counted with
      next_le := Nat.le_succ_of_le h.counted.next_le
      accepted_le := hid ▸ hlt
      accepted := ?_ }, fun _ _ _ => ?_, ?_, ?_, h.done, ?_, fun s hs => by simp [hrem] at hs,
    h.fresh⟩
  · simp only
    rw [h.counted.accepted, hm.offset_succ, hp, hid]
  · refine (h.flow hf hrem hcom).imp_right fun ⟨hchunks, hcalls⟩ => ⟨?_, hcalls⟩
    simp only [← append_assoc]
    exact hchunks.snoc hid (hid ▸ hp)
  · simp [ReaderFits, hr]
  · have hru := h.runner
    dsimp only [RunnerFits] at hru ⊢
    split at hru
    · assumption
    · exact absurd hru.2 hq
    · exact absurd hru.2 hq
    · exact absurd hru.2 hq
    · exact absurd hru.1.2 hq
    · trivial
  · simp [CommitterFits, hcom, Committer.late]

/-- The record after a chunk. -/
theorem inv_data_record {c : Chunk} (hm : m.Covers D) (h : r.Inv m D H) (hr : r.reader = .ready)
    (hc : c.payload = m.chunk D c.chunkID ∨ c.chunkID < r.tr.nextChunk) (reserve : Bool) :
    ({ r with tr := (r.tr.handleData reserve c).1 } : Receiver).Inv m D H := by
  rcases r.tr.handleData_cases reserve c with heq | heq | ⟨hf, ha, hid, hlt, -, hle, -, heq⟩
  · rw [heq]
    exact h
  · rw [heq]
    exact h.frame id id h.counted.closed
  · rw [heq]
    exact inv_queued hm h hr hf ha hid (h.counted.metadata ▸ hlt) (hc.resolve_right (by omega))

theorem inv_data {c : Chunk} (hm : m.Covers D) (h : r.Inv m D H) (hr : r.reader = .ready)
    (hc : c.payload = m.chunk D c.chunkID ∨ c.chunkID < r.tr.nextChunk) (reserve : Bool) :
    (r.handleData reserve c).Inv m D H := by
  have hne : r.reader ≠ .endCommitting := by simp [hr]
  have hn := r.handleData_next reserve c
  unfold handleData at hn ⊢
  split_ifs at hn ⊢
  · exact h.replying hne (by simp [ReplyFits])
  · exact h.replying hne (by simp [ReplyFits])
  · have hi := inv_data_record hm h hr hc reserve
    split at hn <;> rename_i heq <;> rw [heq] at hi
    · exact hi.reader_move hne trivial fun _ => rfl
    · refine hi.replying hne (forall_mem_singleton.mpr ?_)
      rcases handleData_reply (congrArg Prod.snd heq) with ⟨n, rfl⟩ | ⟨rfl, hlt⟩
      · trivial
      · exact (h.counted.snapshot (Nat.zero_lt_of_lt hlt)).mono (Nat.le_of_eq hn.symm)
    · exact hi

section Inv

variable (h : r.Inv m D H)
include h

/-- The verdict that is remembered is right. -/
theorem Inv.verdict (chunkFrom chunkTo : ℕ) : r.ReplyFits m D H (r.verdict chunkFrom chunkTo) := by
  unfold Receiver.verdict
  split
  · rename_i s hs _
    exact (h.memory s hs).2.2
  · trivial

theorem inv_end (hr : r.reader = .ready) : r.handleEnd.Inv m D H := by
  have hne : r.reader ≠ .endCommitting := by simp [hr]
  unfold handleEnd
  split_ifs with h1 h2 h3
  · exact h.replying hne (by simpa using h.verdict 0 0)
  · exact h.replying hne (by simpa using h.verdict _ _)
  · -- The first complete end: there is no verdict, and nobody closes the writer.
    have hrem : r.remembered = none :=
      Option.eq_none_iff_forall_ne_some.mpr fun s hs => absurd (h.memory s hs).1 h3
    have hcom : r.committer = .idle :=
      (h.idle_or_late hne).resolve_right fun hl => hl.2 hrem
    have hacc : r.tr.acceptedNextChunk = m.chunkCount := by
      simp only [completeInput, Bool.and_eq_true, beq_iff_eq] at h2
      rw [h2.2, h.counted.metadata]
    refine ⟨{ h.counted with }, h.flow, ⟨hrem, hcom, hacc⟩, h.runner, h.done, ?_,
      fun s hs => ?_, nofun⟩
    · simp [CommitterFits, hcom, Committer.late]
    · simp [hrem] at hs
  · exact h.replying hne (by simp [ReplyFits])

theorem inv_endClosing (hr : r.reader = .endClosing) :
    ({ r with tr := r.tr.closeQueue, reader := .endWaiting } : Receiver).Inv m D H := by
  have hne : r.reader ≠ .endCommitting := by simp [hr]
  have hre : r.Ending m := by simpa only [ReaderFits, hr] using h.reader
  have hend := h.ended hr rfl
  unfold closeQueue
  split_ifs with hq
  · exact h.reader_move (x := .endWaiting) hne hre fun he => by simp [hend] at he
  · have hi : ({ r with tr := { r.tr with accepting := false, queueClosed := true } } :
        Receiver).Inv m D H := h.frame id (fun _ => rfl) fun _ => rfl
    exact hi.reader_move (x := .endWaiting) hne hre fun he => by simp [hend] at he

/-- A verdict of failure, while nobody closes the writer in time. -/
theorem Inv.rejected {s : TransferState} {x : Reader} {k : Committer} {calls : List Call}
    {listed : Bool} (hend : r.tr.ending = true) (hex : r.runner = .exited ∨ r.tr.failed ≠ none)
    (hs : s.failure ≠ none) (hx : (∃ e, x = .stopped e) ∨ ∃ n, x = .replying [.state s, .nack n])
    (hk : k = .idle ∨ (k = .closing true ∧ r.runner = .exited ∧ r.tr.failed ≠ none)) :
    ({ r with
        listed := listed
        remembered := some s
        reader := x
        committer := k
        calls := calls } : Receiver).Inv m D H := by
  refine ⟨h.counted, fun _ h2 => by simp at h2, ?_, h.runner, h.done, fun late hlate => ?_, ?_,
    fun he => ?_⟩
  · rcases hx with ⟨e, rfl⟩ | ⟨n, rfl⟩
    · trivial
    · simp [ReaderFits, ReplyFits, hs]
  · rcases hk with rfl | ⟨rfl, h1, h2⟩
    · cases hlate
    · cases hlate
      exact ⟨hend, h1, h2, by simp⟩
  · intro t ht
    obtain rfl : s = t := by simpa using ht
    exact ⟨hend, hex, fun h0 => absurd h0 hs⟩
  · simp [hend] at he

/-- The runner of a transfer that goes on to its verdict has written all of it. -/
theorem Inv.all_written (he : r.Ending m) (hdone : r.tr.done = true) (hf : r.tr.failed = none) :
    r.runner = .exited ∧ r.tr.nextChunk = m.chunkCount ∧
      r.calls = goodWrites m D m.chunkCount := by
  have hex := h.done hdone
  have hru := h.runner
  simp only [RunnerFits, hex] at hru
  obtain ⟨h1, h2⟩ := (h.flow hf he.1 he.2.1).resolve_left (by simp [hex])
  have hnext : r.tr.nextChunk = m.chunkCount := by
    simp only [hex, Runner.hand, hru.1, append_nil] at h1
    exact Eq.trans h1 he.2.2
  exact ⟨hex, hnext, by simpa [hex, Runner.lead, hnext] using h2⟩

theorem inv_endDone (hr : r.reader = .endDone) : r.endDone.Inv m D H := by
  have hend := h.ended hr rfl
  obtain ⟨hre, hdone⟩ : r.Ending m ∧ r.tr.done = true := by
    simpa only [ReaderFits, hr] using h.reader
  unfold endDone
  split
  · rename_i e hf
    exact h.rejected hend (.inr (by simp [hf])) (by simp) (.inr ⟨_, rfl⟩) (.inl hre.2.1)
  · rename_i hf
    exact h.reader_move (x := .endVerify) (by simp [hr]) ⟨hre, h.all_written hre hdone hf⟩
      fun he => by simp [hend] at he

end Inv

/-- What was hashed is all of `D`. -/
theorem Inv.verified (hm : m.Covers D) (h : r.Inv m D H) (hn : r.tr.nextChunk = m.chunkCount)
    (hh : r.tr.hash.any (fun b => H b ≠ r.tr.metadata.checksum) = false) : Verified m D H := by
  intro hc
  rw [h.counted.hash, h.counted.metadata, hn, if_pos hc, take_of_length_le hm.length_le] at hh
  simpa using hh

theorem inv_endVerify (hm : m.Covers D) (h : r.Inv m D H) (hr : r.reader = .endVerify) :
    (r.endVerify H).Inv m D H := by
  have hend := h.ended hr rfl
  obtain ⟨hre, hex, hn, hcalls⟩ : r.Ending m ∧ r.runner = .exited ∧
      r.tr.nextChunk = m.chunkCount ∧ r.calls = goodWrites m D m.chunkCount := by
    simpa only [ReaderFits, hr] using h.reader
  unfold endVerify
  split_ifs with hbad
  · exact h.rejected hend (.inl hex) (by simp) (.inr ⟨_, rfl⟩) (.inl hre.2.1)
  · rw [Bool.or_eq_true, not_or] at hbad
    have hv : Verified m D H := h.verified hm hn (by simpa using hbad.2)
    refine ⟨h.counted, fun _ _ h3 => by simp at h3, ⟨hre.1, hex, hn, hv, hcalls⟩, h.runner,
      h.done, fun late hlate => ?_, fun s hs => ?_, fun he => ?_⟩
    · cases hlate
      exact ⟨hend, hex, rfl⟩
    · simp [hre.1] at hs
    · simp [hend] at he

/-! ## The commit -/

/-- While somebody closes the writer, no answer is of a completed transfer. -/
theorem Inv.busy (h : r.Inv m D H) (hk : r.committer ≠ .idle) :
    (∃ e, r.reader = .stopped e) ∨ r.reader = .ready ∨ r.reader = .endCommitting ∨
      ∃ l, r.reader = .replying l ∧ ∀ reply ∈ l, ∀ r' : Receiver,
        r'.tr = r.tr → r'.ReplyFits m D H reply := by
  have hre := h.reader
  unfold ReaderFits at hre
  split at hre
  · exact .inr (.inl ‹_›)
  · exact .inl ⟨_, ‹_›⟩
  · refine .inr (.inr (.inr ⟨_, ‹_›, fun reply hmem r' ht => ?_⟩))
    have hf := hre reply hmem
    cases reply with
    | ack a => simpa only [ReplyFits, ht] using hf
    | state s => exact fun hs => absurd (hf hs).2.2.2.2 hk
    | nack n => trivial
    | window b c => trivial
  · exact absurd hre.2.1 hk
  · exact absurd hre.2.1 hk
  · exact absurd hre.1.2.1 hk
  · exact absurd hre.1.2.1 hk
  · exact .inr (.inr (.inl ‹_›))

theorem Inv.not_completed (h : r.Inv m D H) (hk : r.committer ≠ .idle) {s : TransferState}
    (hs : r.remembered = some s) : s.failure ≠ none :=
  fun h0 => hk ((h.memory s hs).2.2 h0).2.2.2.2

/-- The goroutine that closes the writer moves on, and calls it. -/
theorem Inv.committing {k : Committer} {listed : Bool} {calls : List Call} (h : r.Inv m D H)
    (hk : r.committer ≠ .idle) (hfit : ({ r with committer := k } : Receiver).CommitterFits)
    (hidle : k = .idle → r.tr.failed ≠ none)
    (hread : r.reader = .endCommitting →
      ({ r with listed := listed, committer := k, calls := calls } : Receiver).ReaderFits m D H) :
    ({ r with listed := listed, committer := k, calls := calls } : Receiver).Inv m D H := by
  refine ⟨h.counted, fun h1 _ h3 => absurd h1 (hidle h3), ?_, h.runner, h.done, hfit,
    fun s hs => ?_, h.fresh⟩
  · rcases h.busy hk with ⟨e, hr⟩ | hr | hr | ⟨l, hr, hl⟩
    · simp [ReaderFits, hr]
    · simp [ReaderFits, hr]
    · exact hread hr
    · simp only [ReaderFits, hr]
      exact fun reply hmem => hl reply hmem _ rfl
  · obtain ⟨h1, h2, -⟩ := h.memory s hs
    exact ⟨h1, h2, fun h0 => absurd h0 (h.not_completed hk hs)⟩

variable {err : Option Err}

section Inv

variable (h : r.Inv m D H)
include h

theorem inv_closed {late : Bool} (hk : r.committer = .closing late) :
    ({ r with committer := .closed late err, calls := r.calls ++ [.close err] } :
      Receiver).Inv m D H := by
  refine h.committing (by simp [hk]) ?_ nofun fun hr => ?_
  · rintro _ ⟨⟩
    exact h.committer late (by rw [hk]; rfl)
  have hre := h.reader
  simp only [ReaderFits, hr, hk] at hre ⊢
  obtain ⟨h1, h2, h3, h4, h5⟩ := hre
  refine ⟨h1, h2, h3, h4, ?_⟩
  cases late with
  | false => rw [h5]
  | true => exact h5.elim

theorem inv_late (hk : r.committer = .closed true err) :
    ({ r with committer := .idle, listed := false, calls := r.calls ++ [.abort] } :
      Receiver).Inv m D H := by
  have hco := (h.committer true (by rw [hk]; rfl)).2.2
  refine h.committing (by simp [hk]) nofun (fun _ => hco.1) fun hr => ?_
  have hre := h.reader
  simp only [ReaderFits, hr, hk, and_false] at hre

/-- What the reader waits for in a commit. -/
theorem Inv.commit_waited (hr : r.reader = .endCommitting) :
    r.tr.ending = true ∧ r.runner = .exited := by
  have hre := h.reader
  simp only [ReaderFits, hr] at hre
  exact ⟨h.ended hr rfl, hre.2.1⟩

theorem inv_endCommitted (hr : r.reader = .endCommitting) (hk : r.committer = .closed false err) :
    (r.endCommitted err).Inv m D H := by
  obtain ⟨hend, hex⟩ := h.commit_waited hr
  unfold endCommitted
  cases err with
  | some e => exact h.rejected hend (.inl hex) (by simp) (.inr ⟨_, rfl⟩) (.inl rfl)
  | none =>
    have hre := h.reader
    simp only [ReaderFits, hr, hk] at hre
    obtain ⟨-, -, hn, hv, hcalls⟩ := hre
    refine ⟨h.counted, fun _ h2 => by simp at h2,
      forall_mem_singleton.mpr fun _ => ⟨hn, hcalls, hv, hex, rfl⟩, h.runner, h.done, nofun,
      fun s _ => ⟨hend, .inl hex, fun _ => ⟨hn, hcalls, hv, hex, rfl⟩⟩, fun he => ?_⟩
    simp [hend] at he

theorem inv_endTimedOut {e : Err} (hr : r.reader = .endCommitting) :
    (r.endTimedOut e).Inv m D H := by
  obtain ⟨hend, hex⟩ := h.commit_waited hr
  have hi : ({ r with tr := r.tr.fail e } : Receiver).Inv m D H :=
    h.frame (fun _ => Option.some_ne_none _) id h.counted.closed
  exact hi.rejected hend (.inl hex) (by simp) (.inr ⟨_, rfl⟩)
    (.inr ⟨rfl, hex, by simp [fail]⟩)

theorem inv_endWaitFails {e : Err} (hr : r.reader = .endWaiting) :
    (r.endWaitFails e).Inv m D H := by
  have hre : r.Ending m := by simpa only [ReaderFits, hr] using h.reader
  have hend := h.ended hr rfl
  have ht := r.tr.halted_stop h.counted.closed e
  have hi := h.halt ht
  obtain ⟨e', b, heq⟩ := ht
  unfold endWaitFails
  rw [heq] at hi ⊢
  exact hi.rejected hend (.inr (by simp)) (by simp) (.inl ⟨e, rfl⟩) (.inl hre.2.1)

theorem inv_reply {reply : Reply} {rest : List Reply} (hr : r.reader = .replying (reply :: rest)) :
    ({ r with reader := if rest = [] then .ready else .replying rest } : Receiver).Inv m D H := by
  have hre : ∀ x ∈ reply :: rest, r.ReplyFits m D H x := by
    simpa only [ReaderFits, hr] using h.reader
  split_ifs
  · exact h.reader_move (x := .ready) (by simp [hr]) trivial fun _ => rfl
  · exact h.replying (by simp [hr]) fun x hx => hre x (mem_cons_of_mem _ hx)

/-! ## All steps -/

theorem inv_finishing (hr : r.runner = .finishing) : r.finish.Inv m D H := by
  have hru := h.runner
  simp only [RunnerFits, hr] at hru
  unfold finish
  cases hf : r.tr.failed with
  | some e => exact h.runner_failed (by simp [hr]) (by simp [hf]) r.calls ⟨hru, by simp [hf]⟩
  | none => exact h.runner_move (x := .closing) hr rfl rfl rfl hru

theorem inv_aborting {b : Bool} (hr : r.runner = .aborting b) (c : Call) :
    ({ r with calls := r.calls ++ [c], runner := .closing } : Receiver).Inv m D H := by
  have hru := h.runner
  simp only [RunnerFits, hr] at hru
  exact h.runner_failed (x := .closing) (by simp [hr]) hru.2 _ hru.1

end Inv

/-- What is asked of a frame: a chunk is that of `D`, or one that was written before. -/
def RequestFits (m : TransferBegin) (D : Bytes) (r : Receiver) : Label → Prop
  | .receive (.data c) => c.payload = m.chunk D c.chunkID ∨ c.chunkID < r.tr.nextChunk
  | _ => True

theorem inv_step {l : Label} (hm : m.Covers D) (h : r.Inv m D H) (hl : r.RequestFits m D l)
    (hs : Step H r l r') : r'.Inv m D H := by
  cases hs with
  | data reserve c hr => exact inv_data hm h hr hl reserve
  | finish hr => exact inv_end h hr
  | reply reply rest hr => exact inv_reply h hr
  | forget => exact h.frame id id h.counted.closed
  | endClosing hr => exact inv_endClosing h hr
  | endWaited hr hd =>
    have hre : r.Ending m := by simpa only [ReaderFits, hr] using h.reader
    exact h.reader_move (x := .endDone) (by simp [hr]) ⟨hre, hd⟩
      fun he => by simp [h.ended hr rfl] at he
  | endWaitFails e hr _ => exact inv_endWaitFails h hr
  | endDone hr => exact inv_endDone h hr
  | endVerify hr => exact inv_endVerify hm h hr
  | closed late err hk => exact inv_closed h hk
  | endCommitted err hr hk => exact inv_endCommitted h hr hk
  | endTimedOut e hr _ => exact inv_endTimedOut h hr
  | late err hk => exact inv_late h hk
  | take c rest hr hq => exact inv_take h hr hq
  | drained hr hq hc =>
    exact h.runner_move (x := .finishing) hr rfl rfl rfl ⟨hq, hc⟩
  | taken c hr => exact inv_taken h hr
  | written c n err hr => exact inv_written h hr
  | account c hr => exact (inv_account hm h hr).1
  | ack _ hr | window _ _ hr | noWindow hr | nack _ hr =>
    exact h.runner_move hr rfl rfl rfl trivial
  | otherWindow b c => exact h
  | failing c e hr => exact inv_failing h hr
  | finishing hr => exact inv_finishing h hr
  | abort hr => exact inv_aborting h hr .abort
  | suspend hr => exact inv_aborting h hr .suspend
  | exit hr => exact inv_exit h hr

/-- The cursor of the chunks that were written does not go back. -/
theorem Inv.next_le {l : Label} (hm : m.Covers D) (h : r.Inv m D H) (hs : Step H r l r') :
    r.tr.nextChunk ≤ r'.tr.nextChunk := by
  cases hs with
  | data reserve c hr => exact Nat.le_of_eq (r.handleData_next reserve c).symm
  | finish hr =>
    unfold handleEnd
    split_ifs <;> exact Nat.le_refl _
  | endClosing hr =>
    unfold closeQueue
    split_ifs <;> exact Nat.le_refl _
  | endWaitFails e | failing _ e =>
    obtain ⟨e', b, heq⟩ := r.tr.halted_stop h.counted.closed e
    simp [Receiver.endWaitFails, heq]
  | endDone hr =>
    unfold endDone
    split <;> exact Nat.le_refl _
  | endVerify hr =>
    unfold endVerify
    split_ifs <;> exact Nat.le_refl _
  | endCommitted err hr hk => cases err <;> exact Nat.le_refl _
  | account c hr => exact (inv_account hm h hr).2
  | _ => exact Nat.le_refl _

/-- What is sent is right. -/
theorem Inv.sends {x : Reply} (h : r.Inv m D H) (hs : Step H r (.send x) r') :
    r.ReplyFits m D H x := by
  cases hs with
  | reply x rest hr =>
    have hre := h.reader
    simp only [ReaderFits, hr] at hre
    exact hre x mem_cons_self
  | ack a hr =>
    have hru := h.runner
    simp only [RunnerFits, hr] at hru
    exact hru
  | window | otherWindow | nack => trivial

/-- A completed transfer stays so. -/
theorem Completed.step {l : Label} (h : r.Inv m D H) (hc : r.Completed m D H)
    (hs : Step H r l r') : r'.Completed m D H := by
  have hex := hc.exited
  have hk := hc.2.2.2.2
  cases hs with
  | data reserve c hr =>
    have hn := (r.handleData_next reserve c).trans hc.1
    obtain ⟨tr, p, heq, -⟩ := r.handleData_eq reserve c
    rw [heq] at hn ⊢
    exact ⟨hn, hc.2⟩
  | finish hr =>
    unfold handleEnd
    split_ifs <;> exact hc
  | endClosing hr =>
    unfold closeQueue
    split_ifs <;> exact hc
  | endWaitFails e hr _ =>
    obtain ⟨e', b, heq⟩ := r.tr.halted_stop h.counted.closed e
    unfold endWaitFails
    rw [heq]
    exact hc
  | endDone hr =>
    unfold endDone
    split <;> exact hc
  | endVerify hr =>
    -- The writer was not closed at the time of the check.
    have hre := h.reader
    simp only [ReaderFits, hr] at hre
    have := congrArg List.length (hre.2.2.2.symm.trans hc.2.1)
    simp at this
  | closed late err hk' => simp [hk] at hk'
  | endCommitted err hr hk' => simp [hk] at hk'
  | endTimedOut e hr hk' => simp [hk] at hk'
  | late err hk' => simp [hk] at hk'
  | reply | forget | endWaited | otherWindow => exact hc
  | take | drained | taken | written | account | ack | window | noWindow | failing | nack |
    finishing | abort | suspend | exit => simp_all

end Receiver

end Etp.Transfer
