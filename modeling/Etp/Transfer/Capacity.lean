import Etp.Transfer.Acks
import Etp.Transfer.Counters
import Etp.Transfer.Limits

/-!
# The queue of a receiver that has room

The queue of an incoming transfer has room for as many chunks as the receiving session has
advertised, and a sender does not have more than those in flight. What is in flight for the
sender is more than what is in the queue: a chunk stays pending until it is acknowledged,
and it is acknowledged after it was written.

The two sides run as in `Upload` and `Receiver`, and the frames between them may be lost,
doubled or overtaken (`Pair`). What the receiver can do to its cursors is said once
(`Receiver.Shift`), as is what the sender has to hold of the chunks it has sent
(`Sender.Owes`): those that were not written are pending.

* `in_flight_respected_iff`: the number of chunks in flight is within what the peer has
  advertised, and no chunk that arrives for the first time finds a full queue, exactly if the
  number that was asked for is within it or is still seen to be larger in 32 bits
  (`in_flight_ignored`).
-/

namespace Etp.Transfer

open List OutgoingTransfer SentChunk IncomingTransfer

/-! ## The receiver -/

def Reply.ack? : Reply → Option Ack
  | .ack a => some a
  | _ => none

/-- The acknowledgements that the reader is about to send. -/
def Reader.acks : Reader → List Ack
  | .replying l => l.filterMap Reply.ack?
  | _ => []

/-- The acknowledgement that the runner is about to send. -/
def Runner.acks : Runner → List Ack
  | .acking a => [a]
  | _ => []

namespace IncomingTransfer

/-- The cursors of the record, and the capacity of its queue. -/
def cursors (tr : IncomingTransfer) : ℕ × ℕ × ℕ × ℕ :=
  (tr.nextChunk, tr.lastChunk, tr.acceptedNextChunk, tr.capacity)

theorem cursors_closeQueue (tr : IncomingTransfer) : tr.closeQueue.cursors = tr.cursors := by
  rw [closeQueue]
  split_ifs <;> rfl

/-- Stopping a transfer, or suspending it, leaves its cursors. -/
theorem cursors_halt (tr : IncomingTransfer) (e : Err) :
    (tr.stop e).cursors = tr.cursors ∧ (tr.suspend e).cursors = tr.cursors :=
  ⟨cursors_closeQueue _, cursors_closeQueue _⟩

end IncomingTransfer

variable {c : Chunk}

namespace Receiver

variable {H : Bytes → Bytes} {r r' : Receiver}

/-- The chunks that were accepted and are not accounted for. -/
def between (r : Receiver) : List Chunk := r.runner.held ++ r.tr.queue

/-- The acknowledgements that are about to be sent. -/
def owed (r : Receiver) : List Ack := r.reader.acks ++ r.runner.acks

/-- What a step does to the cursors and to what is between them: nothing, unless the transfer
    has failed; or a chunk is accepted, or accounted for. -/
inductive Shift (r r' : Receiver) : Prop
  | keep : r'.tr.cursors = r.tr.cursors →
      (r'.tr.failed = none → r.tr.failed = none ∧ r'.between = r.between) → Shift r r'
  | accept (c : Chunk) : r.tr.failed = none → c.chunkID = r.tr.acceptedNextChunk →
      r'.tr.nextChunk = r.tr.nextChunk → r'.tr.lastChunk = r.tr.lastChunk →
      r'.tr.acceptedNextChunk = r.tr.acceptedNextChunk + 1 →
      r'.tr.capacity = r.tr.capacity → r'.between = r.between ++ [c] → Shift r r'
  | commit (c : Chunk) : r.tr.failed = none → r.between = c :: r'.between →
      r'.tr.nextChunk = c.chunkID + 1 → r'.tr.lastChunk = c.chunkID →
      r'.tr.acceptedNextChunk = r.tr.acceptedNextChunk → r'.tr.capacity = r.tr.capacity →
      Shift r r'

/-- A step that leaves the record, and the chunk in the hands of the runner. -/
theorem Shift.same (htr : r'.tr = r.tr)
    (hheld : r.tr.failed = none → r'.runner.held = r.runner.held) : Shift r r' := by
  refine .keep (by rw [htr]) fun hf => ?_
  rw [htr] at hf
  exact ⟨hf, by rw [between, between, htr, hheld hf]⟩

theorem Shift.halt (hcursors : r'.tr.cursors = r.tr.cursors) (hf : r'.tr.failed ≠ none) :
    Shift r r' :=
  .keep hcursors fun h => absurd h hf

theorem shift_data (reserve : Bool) (c : Chunk) : Shift r (r.handleData reserve c) := by
  obtain ⟨tr, p, heq, rfl | rfl, -⟩ := r.handleData_eq reserve c <;> rw [heq]
  · exact .same rfl fun _ => rfl
  · rcases r.tr.handleData_cases reserve c with heq | heq | ⟨hf, -, hid, -, -, -, -, heq⟩ <;>
      rw [heq]
    · exact .same rfl fun _ => rfl
    · exact .keep rfl fun hf => ⟨hf, rfl⟩
    · exact .accept c hf hid rfl rfl rfl rfl (append_assoc _ _ _).symm

theorem shift_account (hrunner : r.runner = .wrote c) : Shift r (r.account c) := by
  rw [account]
  cases hfailed : r.tr.failed with
  | some e => exact .same rfl fun hnone => by rw [hfailed] at hnone; cases hnone
  | none =>
    refine .commit c hfailed ?_ rfl rfl rfl rfl
    simp only [between, hrunner]
    split_ifs <;> rfl

variable {label : Label}

/-- What a step does to the cursors. -/
theorem step_shift (hs : Step H r label r') : Shift r r' := by
  cases hs with
  | data reserve c _ => exact shift_data reserve c
  | finish _ =>
    rw [handleEnd]
    split_ifs
    · exact .same rfl fun _ => rfl
    · exact .same rfl fun _ => rfl
    · exact .keep rfl fun hf => ⟨hf, rfl⟩
    · exact .same rfl fun _ => rfl
  | endClosing _ =>
    obtain ⟨-, -, hfailed, hqueue⟩ := r.tr.counters_closeQueue
    exact .keep r.tr.cursors_closeQueue fun hf =>
      ⟨hfailed ▸ hf, congrArg (r.runner.held ++ ·) hqueue⟩
  | endWaitFails e _ _ => exact .halt (r.tr.cursors_halt e).1 (r.tr.counters_stop e).2.2
  | endDone _ =>
    rw [endDone]
    split <;> exact .same rfl fun _ => rfl
  | endVerify _ =>
    rw [endVerify]
    split_ifs <;> exact .same rfl fun _ => rfl
  | endCommitted err _ _ => cases err <;> exact .same rfl fun _ => rfl
  | endTimedOut e _ _ => exact .halt rfl (Option.some_ne_none _)
  | take c rest hrunner hqueue =>
    refine .keep rfl fun hf => ⟨hf, ?_⟩
    simp only [between, hrunner, hqueue]
    rfl
  | taken c hrunner =>
    refine .same rfl fun hf => ?_
    rw [hrunner, hf]
    rfl
  | written c n err hrunner =>
    refine .same rfl fun _ => ?_
    rw [hrunner]
    cases err with
    | some e => rfl
    | none =>
      simp only [Receiver.written]
      split_ifs <;> rfl
  | account c hrunner => exact shift_account hrunner
  | failing c e _ => exact .halt (r.tr.cursors_halt e).1 (r.tr.counters_stop e).2.2
  | finishing hrunner =>
    refine .same rfl fun _ => ?_
    rw [hrunner, finish]
    split_ifs <;> rfl
  | exit hrunner => exact .keep rfl fun hf => ⟨hf, by simp only [between, hrunner]; rfl⟩
  | drained hrunner | ack _ hrunner | window _ _ hrunner | noWindow hrunner | nack _ hrunner
  | abort hrunner | suspend hrunner =>
    refine .same rfl fun _ => ?_
    rw [hrunner]
    rfl
  | reply | forget | endWaited | closed | late | otherWindow => exact .same rfl fun _ => rfl

theorem outside_shift (hs : Link.Outside r r') : Shift r r' := by
  cases hs with
  | stop e => exact .halt (r.tr.cursors_halt e).1 (r.tr.counters_stop e).2.2
  | suspend e => exact .halt (r.tr.cursors_halt e).2 (r.tr.counters_suspend e).2.2
  | unlist | cancel => exact .same rfl fun _ => rfl

/-! ### Acknowledgements -/

variable {a : Ack}

/-- A step that leaves the answers, or takes some of them away. -/
theorem owed_of_subset (ha : a ∈ r'.owed) (hreader : r'.reader.acks ⊆ r.reader.acks)
    (hrunner : r'.runner.acks ⊆ r.runner.acks) : a ∈ r.owed :=
  append_subset.mpr ⟨fun _ h => mem_append_left _ (hreader h),
    fun _ h => mem_append_right _ (hrunner h)⟩ ha

theorem acks_verdict (i j : ℕ) : (Reader.replying [r.verdict i j]).acks = [] := by
  rw [verdict]
  split <;> rfl

theorem owed_data {reserve : Bool}
    (hlast : 0 < r.tr.nextChunk → r.tr.lastChunk + 1 = r.tr.nextChunk)
    (ha : a ∈ (r.handleData reserve c).owed) : a ∈ r.owed ∨ a.chunkTo < r.tr.nextChunk := by
  rw [handleData] at ha
  split_ifs at ha
  · exact .inl (owed_of_subset ha (nil_subset _) (List.Subset.refl _))
  · exact .inl (owed_of_subset ha (nil_subset _) (List.Subset.refl _))
  · rcases hresult : r.tr.handleData reserve c with ⟨tr, _ | x | _⟩
    · rw [hresult] at ha
      exact .inl (owed_of_subset ha (nil_subset _) (List.Subset.refl _))
    · rw [hresult] at ha
      rcases handleData_reply (congrArg Prod.snd hresult) with
        ⟨n, rfl⟩ | ⟨rfl, hlt⟩
      · exact .inl (owed_of_subset ha (nil_subset _) (List.Subset.refl _))
      · -- a duplicate of a chunk that was written
        rcases mem_cons.mp ha with rfl | ha
        · right
          show r.tr.lastChunk < r.tr.nextChunk
          have := hlast (by omega)
          omega
        · exact .inl (mem_append_right _ ha)
    · rw [hresult] at ha
      exact .inl (owed_of_subset ha (List.Subset.refl _) (List.Subset.refl _))

/-- An acknowledgement that is about to be sent was so before, or is of what was written. -/
theorem owed_step (hs : Step H r label r')
    (hlast : 0 < r.tr.nextChunk → r.tr.lastChunk + 1 = r.tr.nextChunk) (ha : a ∈ r'.owed) :
    a ∈ r.owed ∨ a.chunkTo < r'.tr.nextChunk := by
  -- the steps of the reader, and those of the runner
  have hreader : r'.reader.acks = [] → r'.runner = r.runner → a ∈ r.owed := fun h₁ h₂ =>
    owed_of_subset ha (by rw [h₁]; exact nil_subset _) (by rw [h₂]; exact List.Subset.refl _)
  have hrunner : r'.runner.acks = [] → r'.reader = r.reader → a ∈ r.owed := fun h₁ h₂ =>
    owed_of_subset ha (by rw [h₂]; exact List.Subset.refl _) (by rw [h₁]; exact nil_subset _)
  cases hs with
  | data reserve c _ =>
    rw [handleData_next]
    exact owed_data hlast ha
  | finish _ =>
    left
    revert hreader
    rw [handleEnd]
    split_ifs
    all_goals intro hreader
    · exact hreader (acks_verdict 0 0) rfl
    · exact hreader (acks_verdict _ _) rfl
    · exact hreader rfl rfl
    · exact hreader rfl rfl
  | reply x rest hreplying =>
    left
    refine owed_of_subset ha ?_ (List.Subset.refl _)
    rw [hreplying]
    simp only
    split_ifs
    · exact nil_subset _
    · exact (sublist_cons_self x rest).filterMap Reply.ack? |>.subset
  | endDone _ =>
    left
    revert hreader
    rw [endDone]
    split <;> exact fun hreader => hreader rfl rfl
  | endVerify _ =>
    left
    revert hreader
    rw [endVerify]
    split_ifs <;> exact fun hreader => hreader rfl rfl
  | endCommitted err _ _ =>
    left
    cases err <;> exact hreader rfl rfl
  | account c _ =>
    revert ha
    rw [account]
    cases r.tr.failed with
    | some e => exact fun ha => .inl (owed_of_subset ha (List.Subset.refl _) (nil_subset _))
    | none =>
      intro ha
      rcases mem_append.mp ha with ha | ha
      · exact .inl (mem_append_left _ ha)
      · right
        simp only at ha
        split_ifs at ha
        · rw [mem_singleton.mp ha]
          exact Nat.lt_succ_self c.chunkID
        · exact absurd ha not_mem_nil
  | taken c _ =>
    left
    refine hrunner ?_ rfl
    show Runner.acks (if _ then _ else _) = []
    split_ifs <;> rfl
  | written c n err _ =>
    left
    refine hrunner ?_ rfl
    simp only [Receiver.written]
    cases err with
    | some e => rfl
    | none =>
      simp only
      split_ifs <;> rfl
  | finishing _ =>
    left
    refine hrunner ?_ rfl
    simp only [finish]
    split_ifs <;> rfl
  | endClosing | endWaited | endWaitFails | endTimedOut => exact .inl (hreader rfl rfl)
  | take | drained | ack | window | noWindow | failing | nack | abort | suspend | exit =>
    exact .inl (hrunner rfl rfl)
  | forget | closed | late | otherWindow =>
    exact .inl (owed_of_subset ha (List.Subset.refl _) (List.Subset.refl _))

/-- What is sent was owed. -/
theorem owed_of_send (hs : Step H r (.send (.ack a)) r') : a ∈ r.owed := by
  cases hs with
  | reply _ rest hreplying =>
    refine mem_append_left _ ?_
    rw [hreplying]
    exact mem_cons_self
  | ack _ hacking =>
    refine mem_append_right _ ?_
    rw [hacking]
    exact mem_singleton_self a

/-! ### The invariant -/

/-- The chunks between the cursors are in order, and what is acknowledged was written. -/
structure Lined (r : Receiver) : Prop where
  next_le : r.tr.nextChunk ≤ r.tr.acceptedNextChunk
  last : 0 < r.tr.nextChunk → r.tr.lastChunk + 1 = r.tr.nextChunk
  flow : r.tr.failed = none → r.between.map Chunk.chunkID =
    List.range' r.tr.nextChunk (r.tr.acceptedNextChunk - r.tr.nextChunk)
  owed : ∀ a ∈ r.owed, a.chunkTo < r.tr.nextChunk

/-- The first chunk between the cursors is the one that is accounted for next. -/
theorem Lined.head {l : List Chunk} (hl : r.Lined) (hf : r.tr.failed = none)
    (hbetween : r.between = c :: l) :
    c.chunkID = r.tr.nextChunk ∧ r.tr.nextChunk < r.tr.acceptedNextChunk ∧
      l.map Chunk.chunkID =
        List.range' (r.tr.nextChunk + 1) (r.tr.acceptedNextChunk - (r.tr.nextChunk + 1)) := by
  have hflow := hl.flow hf
  rw [hbetween, map_cons] at hflow
  have hlt : r.tr.nextChunk < r.tr.acceptedNextChunk := by
    by_contra hge
    rw [Nat.sub_eq_zero_of_le (by omega)] at hflow
    cases hflow
  rw [show r.tr.acceptedNextChunk - r.tr.nextChunk =
    r.tr.acceptedNextChunk - (r.tr.nextChunk + 1) + 1 by omega, List.range'_succ] at hflow
  obtain ⟨hid, hrest⟩ := List.cons.inj hflow
  exact ⟨hid, hlt, hrest⟩

/-- The cursor of what was written does not go back, and the capacity stays. -/
theorem Shift.mono (h : Shift r r') (hl : r.Lined) :
    r.tr.nextChunk ≤ r'.tr.nextChunk ∧ r'.tr.capacity = r.tr.capacity := by
  cases h with
  | keep hcursors =>
    simp only [cursors, Prod.mk.injEq] at hcursors
    exact ⟨hcursors.1.ge, hcursors.2.2.2⟩
  | accept c _ _ hnext _ _ hcap => exact ⟨hnext.ge, hcap⟩
  | commit c hf hbetween hnext _ _ hcap =>
    have hid := (hl.head hf hbetween).1
    exact ⟨by omega, hcap⟩

theorem Lined.shift (hl : r.Lined) (h : Shift r r')
    (howed : ∀ a ∈ r'.owed, a ∈ r.owed ∨ a.chunkTo < r'.tr.nextChunk) : r'.Lined := by
  have hmono := (h.mono hl).1
  have hnext := hl.next_le
  have howed' : ∀ a ∈ r'.owed, a.chunkTo < r'.tr.nextChunk := fun a ha =>
    (howed a ha).elim (fun h => lt_of_lt_of_le (hl.owed a h) hmono) id
  cases h with
  | keep hcursors hflow =>
    simp only [cursors, Prod.mk.injEq] at hcursors
    obtain ⟨hnext', hlast, hacc, -⟩ := hcursors
    refine ⟨by omega, fun hpos => ?_, fun hf => ?_, howed'⟩
    · rw [hlast, hnext']
      exact hl.last (by omega)
    · obtain ⟨hf, hbetween⟩ := hflow hf
      rw [hbetween, hnext', hacc]
      exact hl.flow hf
  | accept c hf hid hnext' hlast hacc _ hbetween =>
    refine ⟨by omega, fun hpos => ?_, fun _ => ?_, howed'⟩
    · rw [hlast, hnext']
      exact hl.last (by omega)
    · rw [hbetween, map_append, hl.flow hf, hnext', hacc,
        Nat.sub_add_comm hnext, List.range'_concat, map_singleton, hid]
      congr 2
      omega
  | commit c hf hbetween hnext' hlast hacc =>
    obtain ⟨hid, hlt, hrest⟩ := hl.head hf hbetween
    refine ⟨by omega, fun _ => by rw [hlast, hnext'], fun _ => ?_, howed'⟩
    rw [hrest, hnext', hacc, hid]

theorem Lined.step (hl : r.Lined) (hs : Step H r label r') : r'.Lined :=
  hl.shift (step_shift hs) fun _ => owed_step hs hl.last

theorem Lined.outside (hl : r.Lined) (hs : Link.Outside r r') : r'.Lined := by
  refine hl.shift (outside_shift hs) fun a ha => .inl ?_
  cases hs <;> exact ha

/-- The queue holds no more than what is between the cursors. -/
theorem Lined.queue_le (hl : r.Lined) (hf : r.tr.failed = none) :
    r.tr.queue.length ≤ r.tr.acceptedNextChunk - r.tr.nextChunk := by
  have hlength := congrArg List.length (hl.flow hf)
  rw [length_map, length_range', between, length_append] at hlength
  omega

end Receiver

/-! ## The sender -/

namespace Sender

variable {m : TransferBegin} {D : Bytes} {s s' : Sender} {n n' : ℕ}

/-- What the sender has sent or is about to send of chunks was written or is pending. -/
structure Owes (n : ℕ) (sent : List Chunk) (s : Sender) : Prop where
  encoding : ∀ k, s.body = .encoding k → s.ot.Due n k
  holds : s.Holds fun f => s.ot.Due n f.chunkID
  sent : ∀ f ∈ sent, s.ot.Due n f.chunkID

variable {sent : List Chunk}

theorem Owes.mono (h : s.Owes n sent) (hn : n ≤ n') : s.Owes n' sent :=
  ⟨fun k hk => (h.encoding k hk).mono hn, h.holds.imp fun _ hf => hf.mono hn,
    fun f hf => (h.sent f hf).mono hn⟩

/-- A step of the sender that is acknowledged only what was written. -/
theorem owes_step {l : Label} (h : s.Owes n sent)
    (hl : ∀ a, l = .receive (.ack a) → a.chunkTo < n) (hs : Step m D s l s') :
    s'.Owes n (sent ++ Upload.sentBy l) := by
  have hdue (k : ℕ) : s.ot.Due n k → s'.ot.Due n k := due_step hl hs
  refine ⟨encoding_step h.encoding hl hs,
    (h.holds.step (fun f hf => .inr ⟨f, hf, rfl⟩) hs).imp fun f => hdue f.chunkID,
    forall_mem_append.mpr ⟨fun f hf => hdue _ (h.sent f hf), fun f hf => hdue _ ?_⟩⟩
  exact (h.holds.sends hs (Upload.mem_sentBy hf)).elim id fun hb => h.encoding _ hb.1

end Sender

/-! ## The sender and its peer -/

variable {answer : Option Answer}

namespace Upload

variable {m : TransferBegin} {D : Bytes} {u u' : Upload} {n : ℕ}

theorem owes_step (h : u.snd.Owes n u.sent)
    (ha : ∀ a, answer = some (.reply (.ack a)) → a.chunkTo < n) (hs : Step m D u answer u') :
    u'.snd.Owes n u'.sent := by
  cases hs with
  | own label s hs hl _ => exact Sender.owes_step h (fun a hal => absurd hal (hl _)) hs
  | reply r s hs =>
    have hnext := Sender.owes_step h (fun a hal => ha a (by cases hal; rfl)) hs
    have hnone : sentBy (.receive r) = [] := rfl
    rwa [hnone, append_nil] at hnext
  | resumeAccepted b c _ =>
    rw [handleResumeAccepted]
    split_ifs
    · exact h
    · exact { h with holds := h.holds.reading (e := some _) }
    · exact { h with holds := { h.holds with } }
  | resumeRejected reason _ =>
    rw [handleResumeRejected]
    split_ifs
    · exact h
    · exact { h with holds := { h.holds with } }
  | invalid e _ => exact { h with holds := h.holds.reading (e := some e) }
  | requested | decided => exact h
  | opened | giveUp =>
    exact { h with encoding := fun _ hk => (by cases hk), holds := { h.holds with } }

/-- The pending chunks are within the limit that the transfer was registered with. -/
structure Limited (max : ℕ) (u : Upload) : Prop where
  idle : u.phase ≠ .body → u.snd.body = .begin
  limit : u.snd.ot.maxInFlight = max
  length_le : u.snd.ot.pending.length ≤ max

theorem length_le_effect {ot ot' : OutgoingTransfer} {b b' : Body} {l : List Event}
    (h : Logged.Effect m D ot b l ot' b') (hle : ot.pending.length ≤ ot.maxInFlight) :
    ot'.pending.length ≤ ot.maxInFlight := by
  cases h with
  | quiet _ _ halike _ => exact halike.length.trans_le hle
  | admission k _ hroom =>
    obtain ⟨hlength, -⟩ := room_of_blocked hroom
    rw [push, length_append]
    exact hlength
  | ack a =>
    rcases ot.handleAck_cases a with heq | ⟨failed, heq⟩
    · rw [heq]
      exact hle
    · rw [heq]
      exact (length_filter_le _ _).trans hle
  | repeated | first | window | resumed => exact hle

/-- Whatever the peer answers. -/
theorem Limited.step {max : ℕ} (h : u.Limited max) (hs : Step m D u answer u') :
    u'.Limited max := by
  obtain ⟨log, hlogged⟩ := Logged.exists_step (s := ⟨u, []⟩) hs
  obtain ⟨l, -, he⟩ := Logged.effect_of_step hlogged h.idle
  refine ⟨Logged.idle_step hlogged h.idle, he.limits.1.trans h.limit, ?_⟩
  exact (length_le_effect he (h.length_le.trans h.limit.ge)).trans h.limit.le

end Upload

/-- A sender and the session that it sends to. `replies` is all that the receiver of the
    transfer has sent. -/
structure Pair where
  up : Upload
  rcv : Option Receiver := none
  replies : List Reply := []

namespace Pair

/-- What a step of the receiver sends. -/
def repliesBy : Receiver.Label → List Reply
  | .send x => [x]
  | _ => []

/-- One step of the two sessions; `Opens` says how the transfer may be registered. The
    network loses, doubles and reorders frames. The answers of the peer are anything, but
    acknowledgements come from the receiver of the transfer. -/
inductive Step (H : Bytes → Bytes) (m : TransferBegin) (D : Bytes) (Opens : Receiver → Prop)
    (p : Pair) : Pair → Prop
  | own (u : Upload) : Upload.Step m D p.up none u → Step H m D Opens p { p with up := u }
  | answer (a : Answer) (u : Upload) : Upload.Step m D p.up (some a) u →
      (∀ x, a = .reply (.ack x) → .ack x ∈ p.replies) → Step H m D Opens p { p with up := u }
  | opened (r : Receiver) : p.rcv = none → Opens r → Step H m D Opens p { p with rcv := some r }
  | receiver (label : Receiver.Label) (r r' : Receiver) : p.rcv = some r →
      Receiver.Step H r label r' → (∀ c, label = .receive (.data c) → c ∈ p.up.sent) →
      Step H m D Opens p { p with rcv := some r', replies := p.replies ++ repliesBy label }
  | outside (r r' : Receiver) : p.rcv = some r → Link.Outside r r' →
      Step H m D Opens p { p with rcv := some r' }

/-- The number of chunks that were written. -/
def written (p : Pair) : ℕ := (p.rcv.map fun r => r.tr.nextChunk).getD 0

/-- A receiver as it is registered: nothing is accepted that was not written. -/
structure Opening (capacity : ℕ) (r : Receiver) : Prop where
  lined : r.Lined
  accepted : r.tr.acceptedNextChunk = r.tr.nextChunk
  capacity_le : capacity ≤ r.tr.capacity

/-- What holds between the two sides: the chunks that were accepted have been sent, and what
    was sent and not written is pending. -/
structure Inv (max capacity : ℕ) (p : Pair) : Prop where
  limited : p.up.Limited max
  owes : p.up.snd.Owes p.written p.up.sent
  replies : ∀ x, .ack x ∈ p.replies → x.chunkTo < p.written
  receiver : ∀ r, p.rcv = some r → r.Lined ∧ capacity ≤ r.tr.capacity
  accepted : ∀ r, p.rcv = some r → ∀ j, r.tr.nextChunk ≤ j → j < r.tr.acceptedNextChunk →
    ∃ c ∈ p.up.sent, c.chunkID = j

variable {H : Bytes → Bytes} {m : TransferBegin} {D : Bytes} {Opens : Receiver → Prop}
  {p p' : Pair} {r r' : Receiver} {max capacity : ℕ}

theorem written_some (hr : p.rcv = some r) : p.written = r.tr.nextChunk := by
  rw [written, hr]
  rfl

theorem sent_mono {u u' : Upload} (hs : Upload.Step m D u answer u') : u.sent ⊆ u'.sent := by
  cases hs with
  | own label s _ _ _ => exact subset_append_left _ _
  | resumeAccepted b c _ =>
    rw [Upload.handleResumeAccepted]
    split_ifs <;> exact List.Subset.refl _
  | resumeRejected reason _ =>
    rw [Upload.handleResumeRejected]
    split_ifs <;> exact List.Subset.refl _
  | reply | invalid | requested | decided | opened | giveUp => exact List.Subset.refl _

/-- A step of the sender. -/
theorem Inv.upload {u : Upload} (h : p.Inv max capacity) (hs : Upload.Step m D p.up answer u)
    (ha : ∀ x, answer = some (.reply (.ack x)) → .ack x ∈ p.replies) :
    ({ p with up := u } : Pair).Inv max capacity where
  limited := h.limited.step hs
  owes := Upload.owes_step h.owes (fun x hx => h.replies x (ha x hx)) hs
  replies := h.replies
  receiver := h.receiver
  accepted r hr j hj hlt :=
    let ⟨c, hc, hid⟩ := h.accepted r hr j hj hlt
    ⟨c, sent_mono hs hc, hid⟩

/-- A step of the receiver that sends what was owed, and accepts only what was sent. -/
theorem Inv.receiver_step (sent : List Reply) (h : p.Inv max capacity) (hr : p.rcv = some r)
    (hshift : Receiver.Shift r r') (hlined : r'.Lined)
    (hsent : ∀ x, .ack x ∈ sent → x ∈ r.owed)
    (haccepted : r'.tr.acceptedNextChunk = r.tr.acceptedNextChunk ∨
      ∃ c ∈ p.up.sent, c.chunkID = r.tr.acceptedNextChunk ∧
        r'.tr.acceptedNextChunk = c.chunkID + 1) :
    ({ p with rcv := some r', replies := p.replies ++ sent } : Pair).Inv max capacity := by
  obtain ⟨hl, hcapacity⟩ := h.receiver r hr
  obtain ⟨hmono, hcap⟩ := hshift.mono hl
  have hwritten : p.written ≤ r'.tr.nextChunk := by rwa [written_some hr]
  refine ⟨h.limited, h.owes.mono hwritten, fun x hx => ?_, fun x hx => ?_, fun x hx j hj hlt => ?_⟩
  · show x.chunkTo < r'.tr.nextChunk
    rcases mem_append.mp hx with hx | hx
    · exact lt_of_lt_of_le (h.replies x hx) hwritten
    · exact lt_of_lt_of_le (hl.owed x (hsent x hx)) hmono
  · cases hx
    exact ⟨hlined, hcap ▸ hcapacity⟩
  · cases hx
    rcases haccepted with heq | ⟨c, hc, hid, heq⟩
    · exact h.accepted r hr j (by omega) (by omega)
    · by_cases hlast : j = c.chunkID
      · exact ⟨c, hc, hlast.symm⟩
      · exact h.accepted r hr j (by omega) (by omega)

/-- The cursor of the accepted chunks moves by one, with a chunk that arrives. -/
theorem accepted_of_step {label : Receiver.Label} (hs : Receiver.Step H r label r') :
    r'.tr.acceptedNextChunk = r.tr.acceptedNextChunk ∨ ∃ c, label = .receive (.data c) ∧
      c.chunkID = r.tr.acceptedNextChunk ∧ r'.tr.acceptedNextChunk = c.chunkID + 1 := by
  rcases Receiver.accepted_step hs with heq | ⟨c, hlabel, heq⟩
  · exact .inl heq
  · cases Receiver.step_shift hs with
    | keep hcursors =>
      simp only [cursors, Prod.mk.injEq] at hcursors
      exact .inl hcursors.2.2.1
    | accept _ _ _ _ _ hacc => exact .inr ⟨c, hlabel, by omega, heq⟩
    | commit _ _ _ _ _ hacc => exact .inl hacc

theorem accepted_of_outside (hs : Link.Outside r r') :
    r'.tr.acceptedNextChunk = r.tr.acceptedNextChunk := by
  cases hs with
  | stop e => exact stop_accepted _ e
  | suspend e => exact suspend_accepted _ e
  | unlist | cancel => rfl

theorem Inv.step (hopens : ∀ r, Opens r → Opening capacity r) (h : p.Inv max capacity)
    (hs : Step H m D Opens p p') : p'.Inv max capacity := by
  cases hs with
  | own u hs => exact h.upload hs nofun
  | answer a u hs hacks =>
    exact h.upload hs fun x hx => hacks x (Option.some.inj hx)
  | opened r hnone hr =>
    obtain ⟨hlined, haccepted, hcapacity⟩ := hopens r hr
    have hzero : p.written = 0 := by
      rw [written, hnone]
      rfl
    have howes := h.owes
    have hreplies := h.replies
    rw [hzero] at howes hreplies
    refine ⟨h.limited, howes.mono (Nat.zero_le _),
      fun x hx => lt_of_lt_of_le (hreplies x hx) (Nat.zero_le _), fun x hx => ?_,
      fun x hx j hj hlt => ?_⟩
    · cases hx
      exact ⟨hlined, hcapacity⟩
    · cases hx
      omega
  | receiver label r r' hr hs hdata =>
    obtain ⟨hl, -⟩ := h.receiver r hr
    refine h.receiver_step _ hr (Receiver.step_shift hs) (hl.step hs) (fun x hx => ?_) ?_
    · cases label with
      | send y =>
        obtain rfl := mem_singleton.mp hx
        exact Receiver.owed_of_send hs
      | receive | internal => exact absurd hx not_mem_nil
    · exact (accepted_of_step hs).imp id fun ⟨c, hlabel, hid, heq⟩ =>
        ⟨c, hdata c hlabel, hid, heq⟩
  | outside r r' hr hs =>
    obtain ⟨hl, -⟩ := h.receiver r hr
    have hnext := h.receiver_step [] hr (Receiver.outside_shift hs) (hl.outside hs) nofun
      (.inl (accepted_of_outside hs))
    rwa [append_nil] at hnext

/-- The chunks from what was written up to the one that comes next are pending. -/
theorem Inv.pending (h : p.Inv max capacity) (hr : p.rcv = some r) (hc : c ∈ p.up.sent)
    (hid : c.chunkID = r.tr.acceptedNextChunk) :
    r.tr.acceptedNextChunk - r.tr.nextChunk + 1 ≤ p.up.snd.ot.pending.length := by
  have hwritten := written_some hr
  obtain ⟨hl, -⟩ := h.receiver r hr
  have hnext := hl.next_le
  have hsub : List.range' r.tr.nextChunk (r.tr.acceptedNextChunk - r.tr.nextChunk + 1) ⊆
      (p.up.snd.ot.pending.map chunk).map Chunk.chunkID := by
    intro j hj
    rw [mem_range'_1] at hj
    -- what was accepted has been sent, and so has the chunk itself
    obtain ⟨d, hd, rfl⟩ : ∃ d ∈ p.up.sent, d.chunkID = j := by
      by_cases hlast : j = r.tr.acceptedNextChunk
      · exact ⟨c, hc, hid.trans hlast.symm⟩
      · exact h.accepted r hr j hj.1 (by omega)
    obtain ⟨f, hf, hfid⟩ := (h.owes.sent d hd).resolve_left (by omega)
    exact mem_map.mpr ⟨f, hf, hfid⟩
  have hle := (subperm_of_subset nodup_range' hsub).length_le
  rwa [length_range', length_map, length_map] at hle

/-- A chunk that was sent is not refused for a full queue. -/
theorem Inv.room (h : p.Inv max capacity) (hle : max ≤ capacity) (hr : p.rcv = some r)
    (hc : c ∈ p.up.sent) : (r.tr.handleData true c).2 ≠ refuse c.chunkID .flowControl := by
  obtain ⟨hl, hcapacity⟩ := h.receiver r hr
  rw [handleData]
  cases hf : r.tr.failed with
  | some e => simp [refuse]
  | none =>
    have hqueue := hl.queue_le hf
    simp only [Bool.not_true, Bool.false_eq_true, if_false]
    split_ifs with h₁ h₂ h₃ h₄ h₅ h₆ h₇
    case neg =>
      -- the queue is full
      have hpending := h.pending hr hc (by omega)
      have hlimit := h.limited.length_le
      omega
    all_goals simp [refuse]

end Pair

end Etp.Transfer

/-! ## What the peer has advertised -/

namespace Etp.Pace

open Relation Session Transfer List

variable {c : SessionConfig} {h : Hello} {caps : ℕ} {opts : Options}

/-- The comparison is one of 32 bits. -/
theorem maxInFlight_le_iff (hpos : 0 < h.maxInFlightChunks) :
    (outgoingLimits c (some h) caps opts).maxInFlight ≤ h.maxInFlightChunks ↔
      wantedInFlight c opts ≤ h.maxInFlightChunks ∨
        h.maxInFlightChunks < wantedInFlight c opts % 2 ^ 32 := by
  simp only [outgoingLimits, cutInFlight]
  split_ifs <;> omega

/-- A receiver that was admitted is one that has accepted nothing since. -/
theorem opening_of_admitted {peer : Storage.Config} {v : Wire.TransferBegin} {r : Receiver}
    (hr : Admitted peer v r) : Pair.Opening (peer.maxInFlightChunks % 2 ^ 32) r := by
  have hmod := Nat.mod_le peer.maxInFlightChunks (2 ^ 32)
  have hcapacity : peer.maxInFlightChunks % 2 ^ 32 ≤
      if (peer.maxInFlightChunks : ℤ) ≤ 0 then 1 else (peer.maxInFlightChunks : ℤ).toNat := by
    split_ifs <;> omega
  cases hr with
  | begin sha256 requestID early hcheck hearly =>
    refine ⟨⟨le_refl _, nofun, fun _ => rfl, fun a ha => ?_⟩, rfl, hcapacity⟩
    -- a frame that came too early was refused
    rcases hearly with rfl | ⟨f, rfl⟩
    · exact absurd ha not_mem_nil
    · cases f <;> exact absurd ha not_mem_nil
  | resume sha256 requestID resume d hmeta hcheck =>
    refine ⟨⟨le_refl _, fun hpos => ?_, fun _ => ?_, nofun⟩, rfl, hcapacity⟩
    · show d.nextChunk - 1 + 1 = d.nextChunk
      exact Nat.sub_add_cancel hpos
    · show [] = List.range' d.nextChunk (d.nextChunk - d.nextChunk)
      rw [Nat.sub_self]
      rfl

/-- A transfer that is registered, before anything has happened. -/
def Begun (ot : OutgoingTransfer) (u : Upload) : Prop :=
  u = Upload.fresh ot ∨ ∃ receivedBytes nextChunk, u = Upload.again ot receivedBytes nextChunk

theorem limited_begun {id : ℕ} {remote : Option Hello} {m : TransferBegin} {u : Upload}
    (hu : Begun (registerOutgoing c remote caps id opts m) u) :
    u.Limited (outgoingLimits c remote caps opts).maxInFlight.toNat := by
  rcases hu with rfl | ⟨receivedBytes, nextChunk, rfl⟩ <;>
    exact ⟨fun _ => rfl, rfl, Nat.zero_le _⟩

theorem inv_begun {id capacity : ℕ} {remote : Option Hello} {m : TransferBegin} {u : Upload}
    (hu : Begun (registerOutgoing c remote caps id opts m) u) :
    Pair.Inv (outgoingLimits c remote caps opts).maxInFlight.toNat capacity { up := u } := by
  refine ⟨limited_begun hu, ?_, fun x hx => absurd hx not_mem_nil,
    fun r hr => absurd hr.symm (Option.some_ne_none r),
    fun r hr => absurd hr.symm (Option.some_ne_none r)⟩
  rcases hu with rfl | ⟨receivedBytes, nextChunk, rfl⟩
  all_goals
    exact ⟨nofun, ⟨nofun, fun f hf => absurd hf not_mem_nil⟩, fun f hf => absurd hf not_mem_nil⟩

/-- A transfer of a session that has the hello of its peer has at most those chunks in flight
    that the peer has advertised, whatever the peer answers; and if the peer acknowledges what
    it has written, none of the chunks finds its queue full. This is so exactly if the number of
    chunks that was asked for is within what the peer has advertised, or exceeds it in its low
    32 bits, too. -/
theorem in_flight_respected_iff (c : SessionConfig) (h : Hello) (peer : Storage.Config)
    (caps id : ℕ) (opts : Options) (m : TransferBegin) (D : Bytes) (H : Bytes → Bytes) :
    let limits := outgoingLimits (normalizeSessionConfig c) (some h) caps opts
    let ot := registerOutgoing (normalizeSessionConfig c) (some h) caps id opts m
    let wanted := wantedInFlight (normalizeSessionConfig c) opts
    0 < h.maxInFlightChunks →
    ((1 ≤ limits.maxInFlight ∧ limits.maxInFlight ≤ h.maxInFlightChunks) ∧
      (∀ u₀ u, Begun ot u₀ → ReflTransGen (fun u u' => ∃ a, Upload.Step m D u a u') u₀ u →
        u.snd.ot.pending.length ≤ h.maxInFlightChunks) ∧
      (h.maxInFlightChunks = peer.maxInFlightChunks % 2 ^ 32 →
        ∀ u₀ p, Begun ot u₀ →
          ReflTransGen (Pair.Step H m D fun r => ∃ v, Admitted peer v r) { up := u₀ } p →
          ∀ r ch, p.rcv = some r → ch ∈ p.up.sent →
            (r.tr.handleData true ch).2 ≠ IncomingTransfer.refuse ch.chunkID .flowControl) ↔
    wanted ≤ h.maxInFlightChunks ∨ h.maxInFlightChunks < wanted % 2 ^ 32) := by
  intro limits ot wanted hpos
  refine ⟨fun hrespected => (maxInFlight_le_iff hpos).mp hrespected.1.2, fun hwanted => ?_⟩
  have hle : limits.maxInFlight ≤ h.maxInFlightChunks := (maxInFlight_le_iff hpos).mpr hwanted
  refine ⟨⟨maxInFlight_pos (normalize_normal c) opts (some h) caps, hle⟩, fun u₀ u hu hrun => ?_,
    fun hpeer u₀ p hu hrun r ch hr hch => ?_⟩
  · have hlimited : u.Limited limits.maxInFlight.toNat :=
      Run.invariant _ (limited_begun hu) (fun _ _ hl ⟨_, hs⟩ => hl.step hs) hrun
    have := hlimited.length_le
    omega
  · have hopens : ∀ r, (∃ v, Admitted peer v r) → Pair.Opening h.maxInFlightChunks r := by
      rintro r ⟨v, hv⟩
      rw [hpeer]
      exact opening_of_admitted hv
    have hinv : p.Inv limits.maxInFlight.toNat h.maxInFlightChunks :=
      Run.invariant _ (inv_begun hu) (fun _ _ hi hs => hi.step hopens hs) hrun
    exact hinv.room (by omega) hr hch

/-! ### A number of 33 bits -/

/-- A peer with one chunk in flight. -/
def narrow : Storage.Config := { maxInFlightChunks := 1 }

/-- A transfer of two bytes, in chunks of one, with `n` chunks in flight. -/
def twoChunks (n : ℤ) : OutgoingTransfer :=
  registerOutgoing (normalizeSessionConfig {}) (some (Announce.helloOf narrow 1000)) 0 1
    { totalSize := 2, chunkSize := 1, maxInFlight := n } (announce [7, 8] 1 0 [])

/-- With `2 ^ 32` chunks in flight, which is none as a `uint32`, both chunks are in flight to
    a peer that has advertised one; the second is refused, as the queue is full. -/
theorem in_flight_ignored :
    0 < (Announce.helloOf narrow 1000).maxInFlightChunks ∧
    (Announce.helloOf narrow 1000).maxInFlightChunks < (twoChunks (2 ^ 32)).maxInFlight ∧
    ∃ p r, ReflTransGen (Pair.Step id (announce [7, 8] 1 0 []) [7, 8] fun r =>
        ∃ v, Admitted narrow v r) { up := Upload.fresh (twoChunks (2 ^ 32)) } p ∧
      p.up.snd.ot.pending.length = 2 ∧ p.rcv = some r ∧ ⟨1, [8], true⟩ ∈ p.up.sent ∧
      (r.tr.handleData true ⟨1, [8], true⟩).2 = IncomingTransfer.refuse 1 .flowControl :=
  ⟨by decide, by decide, _, _,
    .head (.own _ (.own _ _ (.begin _ rfl rfl) nofun (.inl rfl))) <|
    .head (.own _ (.own _ _ (.push _ 0 rfl (by decide) rfl rfl) nofun (.inl rfl))) <|
    .head (.own _ (.own _ _ (.encode _ 0 [7] rfl rfl fun _ => rfl) nofun (.inl rfl))) <|
    .head (.own _ (.own _ _ (.push _ 1 rfl (by decide) rfl rfl) nofun (.inl rfl))) <|
    .head (.own _ (.own _ _ (.encode _ 1 [8] rfl rfl fun _ => rfl) nofun (.inl rfl))) <|
    .head (.opened _ rfl ⟨plainBegin 2 1 2, .begin true 0 [] (by decide) (.inl rfl)⟩) <|
    .single (.receiver _ _ _ rfl (.data _ true ⟨0, [7], true⟩ rfl) fun c hc => by
      cases hc
      exact mem_cons_self),
    rfl, rfl, mem_cons_of_mem _ mem_cons_self, rfl⟩

theorem in_flight_respected_two :
    ∃ p r, ReflTransGen (Pair.Step id (announce [7, 8] 1 0 []) [7, 8] fun r =>
        ∃ v, Admitted narrow v r) { up := Upload.fresh (twoChunks 2) } p ∧
      p.rcv = some r ∧ ⟨0, [7], true⟩ ∈ p.up.sent ∧ p.up.snd.ot.pending.length = 1 ∧
      (r.tr.handleData true ⟨0, [7], true⟩).2 ≠ IncomingTransfer.refuse 0 .flowControl := by
  obtain ⟨p, r, hrun, hr, hsent, hlength⟩ : ∃ p r,
      ReflTransGen (Pair.Step id (announce [7, 8] 1 0 []) [7, 8] fun r =>
        ∃ v, Admitted narrow v r) { up := Upload.fresh (twoChunks 2) } p ∧
      p.rcv = some r ∧ ⟨0, [7], true⟩ ∈ p.up.sent ∧ p.up.snd.ot.pending.length = 1 :=
    ⟨_, _,
      .head (.own _ (.own _ _ (.begin _ rfl rfl) nofun (.inl rfl))) <|
      .head (.own _ (.own _ _ (.push _ 0 rfl (by decide) rfl rfl) nofun (.inl rfl))) <|
      .head (.own _ (.own _ _ (.encode _ 0 [7] rfl rfl fun _ => rfl) nofun (.inl rfl))) <|
      .single (.opened _ rfl ⟨plainBegin 2 1 2, .begin true 0 [] (by decide) (.inl rfl)⟩),
      rfl, mem_cons_self, rfl⟩
  refine ⟨p, r, hrun, hr, hsent, hlength, ?_⟩
  exact ((in_flight_respected_iff {} (Announce.helloOf narrow 1000) narrow 0 1
    { totalSize := 2, chunkSize := 1, maxInFlight := 2 } (announce [7, 8] 1 0 []) [7, 8] id
    (by decide)).mpr (.inr (by decide))).2.2 rfl _ p (.inl rfl) hrun r _ hr hsent

end Etp.Pace
