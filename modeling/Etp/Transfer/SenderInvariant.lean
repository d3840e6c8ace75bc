import Etp.Transfer.ReceiverInvariant
import Etp.Transfer.Sender

/-!
# The invariant of a sender

What the sender of a byte string `D` holds are chunks of `D`: the pending ones,
and those its reader and its monitor are about to send again. The one exception
is a chunk that is acknowledged before its first frame is encoded. Its buffer
may hold anything by then; but what was acknowledged was written, and a receiver
does not look into a chunk it has written.

So the frames are right relative to the number `n` of chunks that were written
(`Request.Fits`), and the sender needs the same of the acknowledgements it is
sent (`Reply.Fits`). It is content only after the state of a completed transfer.
-/

namespace Etp.Transfer

open List

variable {m : TransferBegin} {D : Bytes} {n n' : ℕ} {done done' : Prop}

/-! ## Frames -/

/-- A frame towards the receiver is right, where the first `n` chunks were written:
    a chunk is that of `D`, or one that was written before. -/
def Request.Fits (m : TransferBegin) (D : Bytes) (n : ℕ) : Request → Prop
  | .begin m' => m' = m
  | .data c => c.payload = m.chunk D c.chunkID ∨ c.chunkID < n
  | .finish => True

/-- A frame back is right, where the first `n` chunks were written, and all of the
    transfer is `done`. -/
def Reply.Fits (m : TransferBegin) (n : ℕ) (done : Prop) : Reply → Prop
  | .ack a => AckOf m n a
  | .state s => s.failure = none → done
  | _ => True

theorem Request.Fits.mono {f : Request} (h : f.Fits m D n) (hn : n ≤ n') : f.Fits m D n' := by
  cases f with
  | begin m' => exact h
  | data c => exact h.imp id fun hlt => Nat.lt_of_lt_of_le hlt hn
  | finish => trivial

theorem Reply.Fits.mono {r : Reply} (h : r.Fits m n done) (hn : n ≤ n') (hd : done → done') :
    r.Fits m n' done' := by
  cases r with
  | ack a => exact AckOf.mono h hn
  | state s => exact fun hs => hd (h hs)
  | nack _ => trivial
  | window _ _ => trivial

/-! ## The chunks of a sender -/

namespace OutgoingTransfer

/-- The chunk was written, being one of the first `n`, or is pending. -/
def Due (n : ℕ) (ot : OutgoingTransfer) (k : ℕ) : Prop :=
  k < n ∨ ∃ f ∈ ot.pending.map SentChunk.chunk, f.chunkID = k

variable {ot ot' : OutgoingTransfer} {k : ℕ}

theorem Due.mono (h : ot.Due n k) (hn : n ≤ n') : ot.Due n' k :=
  Or.imp_left (fun hlt => lt_of_lt_of_le hlt hn) h

theorem Due.same (h : ot.Due n k) (hsame : ot.SameChunks ot') : ot'.Due n k := by
  rw [Due, hsame.pending]
  exact h

/-- Only an acknowledgement takes chunks away, and only those that were written. -/
theorem Due.ack {a : Ack} (h : ot.Due n k) (ha : a.chunkTo < n) : (ot.handleAck a).1.Due n k := by
  rcases h with hlt | ⟨f, hf, rfl⟩
  · exact .inl hlt
  · obtain ⟨c, hc, rfl⟩ := mem_map.mp hf
    rcases (ot.handleAck_spec a).2.2 c hc with hin | hle
    · exact .inr ⟨_, mem_map_of_mem hin, rfl⟩
    · exact .inl (lt_of_le_of_lt hle ha)

end OutgoingTransfer

namespace Sender

open OutgoingTransfer

variable {s s' : Sender} {l : Label} {P Q : Chunk → Prop}

/-- The chunks that the reader and the monitor are about to send again are among those of `P`. -/
structure Holds (P : Chunk → Prop) (s : Sender) : Prop where
  resending : ∀ l, s.reader = .resending l → ∀ f ∈ l, P f
  monitor : ∀ f, Task.chunk f ∈ s.monitor → P f

theorem Holds.imp (h : s.Holds P) (hq : ∀ f, P f → Q f) : s.Holds Q :=
  ⟨fun l hl f hf => hq f (h.resending l hl f hf), fun f hf => hq f (h.monitor f hf)⟩

/-- A step of the reader that leaves it with nothing to send. -/
theorem Holds.reading {ot : OutgoingTransfer} {e : Option Err} (h : s.Holds P) :
    ({ s with ot := ot, reader := afterReply e } : Sender).Holds P :=
  { h with resending := by cases e <;> nofun }

theorem Holds.reply {r : Reply} (h : s.Holds P)
    (hp : ∀ f ∈ s.ot.pending.map SentChunk.chunk, P f) : (s.handleReply r).Holds P := by
  by_cases hreg : s.registered = true
  · cases r with
    | ack a =>
      rw [handleReply_ack hreg]
      exact h.reading
    | nack n =>
      rw [handleReply_nack hreg]
      split_ifs
      · refine { h with resending := fun l hl f hf => hp f ?_ }
        cases hl
        exact (s.ot.handleNack_spec n).2.2 f hf
      · exact h.reading
    | window b c =>
      rw [handleReply_window hreg]
      exact { h with }
    | state t =>
      rw [handleReply_state hreg]
      exact h.reading
  · rw [handleReply_unregistered hreg]
    exact h

/-- Only pending chunks are sent again. -/
theorem Holds.step (h : s.Holds P) (hp : ∀ f ∈ s.ot.pending.map SentChunk.chunk, P f)
    (hs : Step m D s l s') : s'.Holds P := by
  cases hs with
  | reply r _ => exact h.reply hp
  | resend c rest hr =>
    refine { h with resending := fun l hl f hf => ?_ }
    cases hl
    exact h.resending _ hr f (mem_cons_of_mem c hf)
  | resent _ => exact { h with resending := nofun }
  | tick commit late _ _ =>
    refine { h with monitor := fun f hf => hp f ((s.ot.expire_spec commit late).2.2 f ?_) }
    simp only [tick, mem_append, mem_map] at hf
    rcases hf with hf | ⟨c, hc, heq⟩
    · split_ifs at hf <;> simp at hf
    · cases heq
      exact hc
  | task t rest hm _ | skip t rest hm _ =>
    exact { h with monitor := fun f hf => h.monitor f (hm ▸ mem_cons_of_mem _ hf) }
  | _ => exact { h with }

/-- A chunk that is sent is one of those, or the one that is being encoded. -/
theorem Holds.sends {c : Chunk} (h : s.Holds P) (hs : Step m D s l s')
    (hl : l = .send (.data c)) : P c ∨ s.body = .encoding c.chunkID ∧
      ((∃ d ∈ s.ot.pending, d.chunkID = c.chunkID) → c.payload = m.chunk D c.chunkID) := by
  cases hs with
  | encode k payload hb _ hp =>
    cases hl
    exact .inr ⟨hb, hp⟩
  | resend d rest hr =>
    cases hl
    exact .inl (h.resending _ hr c mem_cons_self)
  | task t rest hm _ =>
    cases t with
    | commit => cases hl
    | chunk d =>
      cases hl
      exact .inl (h.monitor c (hm ▸ mem_cons_self))
  | _ => cases hl

/-- The chunk of a frame is that of `D`. -/
def Right (m : TransferBegin) (D : Bytes) (f : Chunk) : Prop := f.payload = m.chunk D f.chunkID

/-- What is pending was so before, or is a chunk of `D`. -/
theorem pending_step {f : Chunk} (hs : Step m D s l s')
    (hf : f ∈ s'.ot.pending.map SentChunk.chunk) :
    f ∈ s.ot.pending.map SentChunk.chunk ∨ Right m D f := by
  cases hs with
  | push k =>
    simp only [push, map_append, mem_append, map_cons, map_nil, mem_singleton] at hf
    refine hf.imp_right ?_
    rintro rfl
    rfl
  | reply r _ =>
    left
    by_cases hreg : s.registered = true
    · cases r with
      | ack a =>
        rw [handleReply_ack hreg] at hf
        obtain ⟨c, hc, rfl⟩ := mem_map.mp hf
        exact mem_map_of_mem ((s.ot.handleAck_spec a).2.1 c hc)
      | nack n =>
        rw [handleReply_nack hreg] at hf
        exact (s.ot.sameChunks_handleNack n).pending ▸ hf
      | window b c =>
        rw [handleReply_window hreg] at hf
        exact hf
      | state t =>
        rw [handleReply_state hreg] at hf
        exact (s.ot.sameChunks_handleState t).pending ▸ hf
    · rwa [handleReply_unregistered hreg] at hf
  | tick commit late _ _ => exact .inl ((s.ot.sameChunks_expire commit late).pending ▸ hf)
  | _ => exact .inl hf

/-- What was written or is pending stays so, where only what was written is acknowledged. -/
theorem due_step {k : ℕ} (hl : ∀ a, l = .receive (.ack a) → a.chunkTo < n)
    (hs : Step m D s l s') (h : s.ot.Due n k) : s'.ot.Due n k := by
  cases hs with
  | push j =>
    refine Or.imp_right (fun ⟨f, hf, hk⟩ => ⟨f, ?_, hk⟩) h
    simp only [push, map_append]
    exact mem_append_left _ hf
  | reply r _ =>
    by_cases hreg : s.registered = true
    · cases r with
      | ack a =>
        rw [handleReply_ack hreg]
        exact h.ack (hl a rfl)
      | nack n =>
        rw [handleReply_nack hreg]
        exact h.same (s.ot.sameChunks_handleNack n)
      | window b c =>
        rw [handleReply_window hreg]
        exact h
      | state t =>
        rw [handleReply_state hreg]
        exact h.same (s.ot.sameChunks_handleState t)
    · rwa [handleReply_unregistered hreg]
  | tick commit late _ _ => exact h.same (s.ot.sameChunks_expire commit late)
  | _ => exact h

/-- The chunk that is being encoded was written or is pending. -/
theorem encoding_step (h : ∀ k, s.body = .encoding k → s.ot.Due n k)
    (hl : ∀ a, l = .receive (.ack a) → a.chunkTo < n) (hs : Step m D s l s') :
    ∀ k, s'.body = .encoding k → s'.ot.Due n k := by
  intro k hk
  have hdue := due_step (k := k) hl hs
  cases hs with
  | push j =>
    cases hk
    exact .inr ⟨⟨k, m.chunk D k, true⟩, by simp [push, SentChunk.chunk], rfl⟩
  | begin | encode | finish | sendEnd | acked | giveUp => cases hk
  | reply r _ => exact hdue (h k (body_handleReply s r ▸ hk))
  | _ => exact hdue (h k hk)

/-- Only the state of a completed transfer completes it. -/
theorem completed_step (hs : Step m D s l s') :
    (s.ot.completed = true → s'.ot.completed = true) ∧ (s'.ot.completed = true →
      s.ot.completed = true ∨ ∃ t, l = .receive (.state t) ∧ t.failure = none) := by
  cases hs with
  | reply r _ =>
    by_cases hreg : s.registered = true
    · cases r with
      | ack a =>
        rw [handleReply_ack hreg, (s.ot.handleAck_spec a).1]
        exact ⟨id, .inl⟩
      | nack n =>
        rw [handleReply_nack hreg, (s.ot.handleNack_spec n).1]
        exact ⟨id, .inl⟩
      | window b c =>
        rw [handleReply_window hreg]
        exact ⟨id, .inl⟩
      | state t =>
        rw [handleReply_state hreg]
        obtain ⟨-, hmono, hnew⟩ := s.ot.handleState_spec t
        exact ⟨hmono, fun hc => (hnew hc).imp_right fun hgood => ⟨t, rfl, hgood⟩⟩
    · rw [handleReply_unregistered hreg]
      exact ⟨id, .inl⟩
  | tick commit late _ _ =>
    have hsame := (s.ot.expire_spec commit late).1
    exact ⟨hsame.trans, fun hc => .inl (hsame.symm.trans hc)⟩
  | _ => exact ⟨id, .inl⟩

/-! ## The invariant -/

/-- The invariant of the sender of `D`: what it holds are chunks of `D`, one that is not yet sent is
    pending or was written, and it is content only with a completed transfer. -/
structure Fits (m : TransferBegin) (D : Bytes) (n : ℕ) (done : Prop) (s : Sender) : Prop where
  pending : ∀ f ∈ s.ot.pending.map SentChunk.chunk, Right m D f
  encoding : ∀ k, s.body = .encoding k → s.ot.Due n k
  holds : s.Holds (Right m D)
  completed : s.ot.completed = true → done
  returned : s.body = .returned none → s.ot.completed = true

theorem Fits.mono (h : s.Fits m D n done) (hn : n ≤ n') (hd : done → done') :
    s.Fits m D n' done' :=
  ⟨h.pending, fun k hk => (h.encoding k hk).mono hn, h.holds, fun hc => hd (h.completed hc),
    h.returned⟩

theorem fits_step (h : s.Fits m D n done) (hs : Step m D s l s')
    (hl : ∀ r, l = .receive r → r.Fits m n done) : s'.Fits m D n done := by
  obtain ⟨hmono, hnew⟩ := completed_step hs
  refine ⟨fun f hf => (pending_step hs hf).elim (h.pending f) id,
    encoding_step h.encoding (fun a ha => (hl _ ha).2.1) hs, h.holds.step h.pending hs,
    fun hc => ?_, fun hb => ?_⟩
  · rcases hnew hc with hc | ⟨t, ht, hgood⟩
    · exact h.completed hc
    · exact hl _ ht hgood
  · cases hs with
    | acked _ hor =>
      have hf : s.ot.failed = none := Body.returned.inj hb
      exact (hor.resolve_left (by simp [hf])).2
    | begin | push | encode | finish | sendEnd | giveUp => cases hb
    | reply r _ => exact hmono (h.returned (body_handleReply s r ▸ hb))
    | _ => exact hmono (h.returned hb)

/-- What the sender sends is right. -/
theorem Fits.sends {f : Request} (h : s.Fits m D n done) (hs : Step m D s l s')
    (hl : l = .send f) : f.Fits m D n := by
  cases f with
  | begin m' =>
    cases hs with
    | begin =>
      cases hl
      rfl
    | task t => cases t <;> cases hl
    | _ => cases hl
  | data c =>
    rcases h.holds.sends hs hl with hc | ⟨hb, hp⟩
    · exact .inl hc
    · refine (h.encoding _ hb).symm.imp_left fun ⟨f, hf, hk⟩ => hp ?_
      obtain ⟨d, hd, rfl⟩ := mem_map.mp hf
      exact ⟨d, hd, hk⟩
  | finish => trivial

end Sender

end Etp.Transfer
