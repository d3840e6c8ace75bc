import Etp.Lib.Run
import Etp.Transfer.Outgoing

/-!
# The deadlines of outgoing transfers

A chunk that was sent, and the end, are to be acknowledged within `ackTimeout`. A sender
that is about to wait says when its transfer is due next (`scheduleOutgoingMonitor`): it
lowers the atomic `outgoingNext` and puts a token into `outgoingWake`, a channel with one
slot. It holds the lock of the transfer from the moment it computes the deadline until it
waits, so that nobody looks at the transfer in between.

Times are nanoseconds, and 0 stands for no time, as in the code; that they fit into 64 bits
is taken for granted.

* `Call.Step.effect`: what an operation of `scheduleOutgoingMonitor` does;
* `Out.next_le`, `Out.next_mem`: `nextOutgoingDeadlineLocked` is the first of the deadlines;
* `Out.expire_within`: what the monitor does to one transfer leaves no deadline before the
  delay it has recorded;
* `Out.Good.step`, `Out.step_rests`: what all other sections keep.
-/

namespace Etp.RetryTimer

open Transfer OutgoingTransfer List OutgoingTransfer

/-! ## `scheduleOutgoingMonitor` -/

/-- The time the monitor is to look at, and the slot of the channel. -/
structure Cell where
  outgoingNext : ℕ := 0
  outgoingWake : Bool := false
  deriving DecidableEq, Repr

/-- Where a goroutine is in `scheduleOutgoingMonitor`. -/
inductive Call
  | load (next : ℕ)
  | swap (next current : ℕ)
  | wake
  deriving DecidableEq, Repr

namespace Call

/-- One operation of the call; at the end there is none left. -/
inductive Step : Call → Cell → Option Call → Cell → Prop
  | sooner {next : ℕ} {s : Cell} (hset : s.outgoingNext ≠ 0) (hle : s.outgoingNext ≤ next) :
      Step (.load next) s none s
  | load {next : ℕ} {s : Cell} (hlater : ¬(s.outgoingNext ≠ 0 ∧ s.outgoingNext ≤ next)) :
      Step (.load next) s (some (.swap next s.outgoingNext)) s
  | swap {next : ℕ} {s : Cell} :
      Step (.swap next s.outgoingNext) s (some .wake) { s with outgoingNext := next }
  | lost {next current : ℕ} {s : Cell} (hne : s.outgoingNext ≠ current) :
      Step (.swap next current) s (some (.load next)) s
  | wake {s : Cell} : Step .wake s none { s with outgoingWake := true }

/-- The time that is still to be set. -/
def time : Call → Option ℕ
  | .load next | .swap next _ => some next
  | .wake => none

/-- The time is one, and sooner than the one that was read. -/
def Ok : Call → Prop
  | .load next => next ≠ 0
  | .swap next current => next ≠ 0 ∧ (current = 0 ∨ next < current)
  | .wake => True

end Call

/-- A time that is set stays set, and only gets sooner. -/
def Cell.Lowered (s s' : Cell) : Prop :=
  s.outgoingNext ≠ 0 → s'.outgoingNext ≠ 0 ∧ s'.outgoingNext ≤ s.outgoingNext

/-- The time that is set is not after `d`. -/
def Cell.By (s : Cell) (d : ℕ) : Prop := s.outgoingNext ≠ 0 ∧ s.outgoingNext ≤ d

theorem Cell.By.lowered {s s' : Cell} {d : ℕ} (h : s.By d) (hl : s.Lowered s') : s'.By d :=
  ⟨(hl h.1).1, (hl h.1).2.trans h.2⟩

theorem Cell.By.le {s : Cell} {d d' : ℕ} (h : s.By d) (hle : d ≤ d') : s.By d' :=
  ⟨h.1, h.2.trans hle⟩

/-- What one operation of a call does. -/
structure Call.Effect (c : Call) (s : Cell) (c' : Option Call) (s' : Cell) : Prop where
  ok : ∀ x, c' = some x → x.Ok
  lowered : s.Lowered s'
  token : s.outgoingWake = true → s'.outgoingWake = true
  moved : s'.outgoingNext = s.outgoingNext ∨ c' = some .wake
  put : c = .wake → s'.outgoingWake = true
  by_time : ∀ v, c.time = some v → (∃ x, c' = some x ∧ x.time = some v) ∨ s'.By v
  again : ∀ x v, c' = some x → x.time = some v → c.time = some v

theorem Call.Step.effect {c : Call} {s s' : Cell} {c' : Option Call} (h : Step c s c' s')
    (hok : c.Ok) : Effect c s c' s' := by
  have hself : s.Lowered s := fun h => ⟨h, le_rfl⟩
  cases h with
  | @sooner next _ hset hle =>
    refine ⟨nofun, hself, fun h => h, .inl rfl, nofun, ?_, nofun⟩
    rintro v ⟨⟩
    exact .inr ⟨hset, hle⟩
  | @load next _ hlater =>
    refine ⟨?_, hself, fun h => h, .inl rfl, nofun, fun v hv => .inl ⟨_, rfl, hv⟩, ?_⟩
    · rintro x ⟨⟩
      refine ⟨hok, ?_⟩
      by_cases h0 : s.outgoingNext = 0
      · exact .inl h0
      · exact .inr (Nat.lt_of_not_le fun hle => hlater ⟨h0, hle⟩)
    · rintro x v ⟨⟩ hv
      exact hv
  | @swap next _ =>
    obtain ⟨hne, hlt⟩ := hok
    refine ⟨?_, fun h => ⟨hne, ?_⟩, fun h => h, .inr rfl, nofun, ?_, ?_⟩
    · rintro x ⟨⟩
      trivial
    · exact (hlt.resolve_left h).le
    · rintro v ⟨⟩
      exact .inr ⟨hne, le_rfl⟩
    · rintro x v ⟨⟩ ⟨⟩
  | @lost next current _ hne =>
    refine ⟨?_, hself, fun h => h, .inl rfl, nofun, fun v hv => .inl ⟨_, rfl, hv⟩, ?_⟩
    · rintro x ⟨⟩
      exact hok.1
    · rintro x v ⟨⟩ hv
      exact hv
  | wake => exact ⟨nofun, hself, fun _ => rfl, .inl rfl, fun _ => rfl, nofun, nofun⟩

/-! ## Outgoing transfers and their times -/

/-- The sooner of a time that may be none, and another one. -/
def sooner (next : Option ℕ) (d : ℕ) : ℕ :=
  match next with
  | none => d
  | some n => if d < n then d else n

/-- Counted from `start`, the time is set and not after `d`. -/
def Within (next : Option ℕ) (start d : ℕ) : Prop := ∃ e, next = some e ∧ start + e ≤ d

variable {next : Option ℕ}

theorem within_sooner {start n d : ℕ} (h : start + n ≤ d) :
    Within (some (sooner next n)) start d := by
  refine ⟨_, rfl, ?_⟩
  cases next with
  | none => exact h
  | some m =>
    simp only [sooner]
    split_ifs <;> omega

theorem Within.sooner {next : Option ℕ} {start d : ℕ} (h : Within next start d) (n : ℕ) :
    Within (some (sooner next n)) start d := by
  obtain ⟨e, rfl, he⟩ := h
  refine ⟨_, rfl, ?_⟩
  simp only [RetryTimer.sooner]
  split_ifs <;> omega

theorem sooner_eq (next : Option ℕ) (d : ℕ) : sooner next d = d ∨ next = some (sooner next d) := by
  cases next with
  | none => exact .inl rfl
  | some n =>
    simp only [sooner]
    split_ifs
    · exact .inl rfl
    · exact .inr rfl

/-- Where the sender of a transfer is: with the lock of the transfer only during a call. -/
inductive Waiter
  | running
  | calling (c : Call)
  | parked
  deriving DecidableEq, Repr

/-- The sender has scheduled the monitor. -/
def Waiter.Settled (w : Waiter) : Prop := w = .parked ∨ w = .calling .wake

/-- An outgoing transfer, when its chunks and its end were sent last, and its sender. -/
structure Out where
  ot : OutgoingTransfer
  ackTimeout : ℕ
  sentAt : ℕ → ℕ := fun _ => 0
  commitSentAt : Option ℕ := none
  sender : Waiter := .running

namespace Out

variable (o : Out)

/-- When the end was sent, while its answer is awaited. -/
def commitSent : Option ℕ :=
  if o.ot.doneSending && !o.ot.completed then o.commitSentAt else none

def deadline (c : SentChunk) : ℕ := o.sentAt c.chunkID + o.ackTimeout

def nextOutgoingDeadlineLocked : Option ℕ :=
  o.ot.pending.foldl (fun next c => some (sooner next (o.deadline c)))
    (o.commitSent.map (· + o.ackTimeout))

/-- All deadlines of the transfer. -/
def deadlines : List ℕ :=
  (o.commitSent.map (· + o.ackTimeout)).toList ++ o.ot.pending.map o.deadline

/-! ### Processing -/

/-- The deadline of the end has passed. -/
def commitLate (now : ℕ) : Bool :=
  match o.commitSentAt with
  | none => false
  | some t => decide (t + o.ackTimeout ≤ now)

/-- The deadline of the chunk has passed. -/
def late (now chunkID : ℕ) : Bool := decide (o.sentAt chunkID + o.ackTimeout ≤ now)

/-- The times after frames are sent again. -/
def resent (now : ℕ) (frames : List Chunk) (chunkID : ℕ) : ℕ :=
  if chunkID ∈ frames.map Chunk.chunkID then now else o.sentAt chunkID

/-- The delay of something that was sent at `sent`, once it is sent again where it is late. -/
def delay (now sent : ℕ) : ℕ :=
  if sent + o.ackTimeout ≤ now then o.ackTimeout else sent + o.ackTimeout - now

/-- The loop over the chunks in `processOutgoingTimeouts`: the shortest delay so far. It
    ends at a chunk that is late and has no retries left. -/
def scan (now : ℕ) : List SentChunk → Option ℕ → Option ℕ
  | [], next => next
  | c :: rest, next =>
    if o.late now c.chunkID ∧ o.ot.retryLimit ≤ c.retries then next
    else scan now rest (some (sooner next (o.delay now (o.sentAt c.chunkID))))

/-- The shortest delay after the transfer. -/
def shortest (now : ℕ) (next : Option ℕ) : Option ℕ :=
  if o.ot.failed.isSome || (o.ot.doneSending && o.ot.pending.isEmpty && o.ot.completed) then next
  else
    match o.commitSent with
    | none => o.scan now o.ot.pending next
    | some t =>
      if t + o.ackTimeout ≤ now ∧ o.ot.retryLimit ≤ o.ot.commitRetries then next
      else o.scan now o.ot.pending (some (sooner next (o.delay now t)))

/-- The part of `processOutgoingTimeouts` for the transfer. A failure wakes its sender. -/
def expire (now : ℕ) : Out :=
  let (ot, again, frames) := o.ot.expire (o.commitLate now) (o.late now)
  { o with
    ot := ot
    sentAt := o.resent now frames
    commitSentAt := if again then some now else o.commitSentAt
    sender := if o.ot.failed.isNone && ot.failed.isSome then .running else o.sender }

/-! ### The steps of others -/

/-- Nobody holds the lock. -/
def Free : Prop := ∀ c, o.sender ≠ .calling c

/-- `sendReliableChunk` or `waitOutgoingAcked` is to wait. -/
def Waits : Prop :=
  o.ot.failed = none ∧ ((∃ n, o.ot.blocked n = true) ∨
    (o.ot.doneSending = true ∧ (o.ot.pending ≠ [] ∨ o.ot.completed = false)))

/-- Before it waits, a sender schedules the monitor, unless there is no deadline. -/
def wait : Out :=
  { o with
    sender := match o.nextOutgoingDeadlineLocked with
      | none => .parked
      | some d => .calling (.load d) }

/-- `HandleAck`: the sender is woken unless the acknowledgement is refused at once. -/
def handleAck (a : Ack) : Out :=
  if a.chunkTo < a.chunkFrom ∨ o.ot.chunkCount ≤ a.chunkTo ∨ a.receivedBytes < o.ot.ackedBytes ∨
      o.ot.totalBytes < a.receivedBytes then o
  else { o with ot := (o.ot.handleAck a).1, sender := .running }

/-- The chunks that a refusal has charged, of which some may not be sent again. -/
def nacked (n : Nack) : List Chunk :=
  if n.chunkTo < n.chunkFrom then []
  else match n.reason with
    | .missingChunk => (charge o.ot.retryLimit (inRange n.chunkFrom n.chunkTo) o.ot.pending).2.1
    | _ => []

/-- Whether a refusal fails the transfer. -/
def nackFails (n : Nack) : Bool :=
  decide (n.chunkFrom ≤ n.chunkTo) &&
    match n.reason with
    | .flowControl => false
    | .missingChunk => (o.ot.handleNack n).2.2.isSome
    | _ => true

/-- `HandleNack`: the sender is woken if the transfer fails, and only then. -/
def handleNack (now : ℕ) (n : Nack) : Out :=
  { o with
    ot := (o.ot.handleNack n).1
    sentAt := o.resent now (o.nacked n)
    sender := if o.nackFails n then .running else o.sender }

/-- A section under the lock of the transfer that is not one of the monitor, nor of a sender
    that schedules it. The chunks of a transfer are numbered in the order they are sent. -/
inductive Step (now : ℕ) : Out → Out → Prop
  | push {o : Out} {k : ℕ} {payload : Bytes} (hrun : o.sender = .running)
      (hfailed : o.ot.failed = none) (hroom : o.ot.blocked payload.length = false)
      (hnew : ∀ c ∈ o.ot.pending, c.chunkID < k) :
      Step now o { o with ot := o.ot.push k payload, sentAt := Function.update o.sentAt k now }
  | finish {o : Out} (hrun : o.sender = .running) (hbody : o.ot.doneSending = false) :
      Step now o { o with ot := { o.ot with doneSending := true }, commitSentAt := some now }
  | wait {o : Out} (hrun : o.sender = .running) (hwaits : o.Waits) : Step now o o.wait
  | wake {o : Out} (hparked : o.sender = .parked) : Step now o { o with sender := .running }
  | ack {o : Out} (a : Ack) (hfree : o.Free) : Step now o (o.handleAck a)
  | nack {o : Out} (n : Nack) (hfree : o.Free) : Step now o (o.handleNack now n)
  | window {o : Out} (windowBytes windowChunks : ℕ) (hfree : o.Free) :
      Step now o { o with ot := o.ot.handleWindow windowBytes windowChunks, sender := .running }
  | state {o : Out} (t : TransferState) (hfree : o.Free) :
      Step now o { o with ot := (o.ot.handleState t).1, sender := .running }
  | fail {o : Out} (e : Err) (hfree : o.Free) :
      Step now o { o with ot := o.ot.fail e, sender := .running }

/-! ### The next deadline -/

variable {o} {o' : Out} {now start d : ℕ}

theorem foldl_sooner (l : List SentChunk) (next : Option ℕ) :
    (∀ c ∈ l, Within (l.foldl (fun next c => some (sooner next (o.deadline c))) next) 0
      (o.deadline c)) ∧
    (Within next 0 d →
      Within (l.foldl (fun next c => some (sooner next (o.deadline c))) next) 0 d) ∧
    ∀ r, l.foldl (fun next c => some (sooner next (o.deadline c))) next = some r →
      next = some r ∨ r ∈ l.map o.deadline := by
  induction l generalizing next d with
  | nil => exact ⟨nofun, fun h => h, fun r hr => .inl hr⟩
  | cons c rest ih =>
    simp only [foldl_cons, map_cons, mem_cons]
    refine ⟨?_, fun h => (ih _).2.1 (h.sooner _), fun r hr => ?_⟩
    · rintro c' (rfl | hc')
      · exact (ih _).2.1 (within_sooner (by omega))
      · exact (ih (d := 0) _).1 c' hc'
    · rcases (ih (d := 0) _).2.2 r hr with h | h
      · rcases sooner_eq next (o.deadline c) with heq | heq
        · exact .inr (.inl ((Option.some.inj h).symm.trans heq))
        · exact .inl (heq.trans h)
      · exact .inr (.inr h)

/-- No deadline is before the next one. -/
theorem next_le (hd : d ∈ o.deadlines) : Within o.nextOutgoingDeadlineLocked 0 d := by
  rcases mem_append.mp hd with h | h
  · refine (foldl_sooner _ _).2.1 ⟨d, Option.mem_toList.mp h, by omega⟩
  · obtain ⟨c, hc, rfl⟩ := mem_map.mp h
    exact (foldl_sooner (d := 0) _ _).1 c hc

/-- The next deadline is one. -/
theorem next_mem (hd : o.nextOutgoingDeadlineLocked = some d) : d ∈ o.deadlines := by
  rcases (foldl_sooner (d := 0) _ _).2.2 d hd with h | h
  · exact mem_append_left _ (Option.mem_toList.mpr h)
  · exact mem_append_right _ h

theorem deadlines_of_next_none (h : o.nextOutgoingDeadlineLocked = none) : o.deadlines = [] := by
  refine eq_nil_iff_forall_not_mem.mpr fun d hd => ?_
  obtain ⟨e, he, -⟩ := next_le hd
  rw [h] at he
  cases he

theorem ackTimeout_le (hd : d ∈ o.deadlines) : o.ackTimeout ≤ d := by
  rcases mem_append.mp hd with h | h
  · obtain ⟨t, -, rfl⟩ := Option.mem_map.mp (Option.mem_toList.mp h)
    exact Nat.le_add_left _ _
  · obtain ⟨c, -, rfl⟩ := mem_map.mp h
    exact Nat.le_add_left _ _

/-! ### What the monitor does to a transfer -/

theorem scan_within (l : List SentChunk) (h : Within next start d) :
    Within (o.scan now l next) start d := by
  induction l generalizing next with
  | nil => exact h
  | cons c rest ih =>
    rw [scan]
    split_ifs
    · exact h
    · exact ih (h.sooner _)

/-- A delay that was recorded is not forgotten. -/
theorem shortest_within (h : Within next start d) : Within (o.shortest now next) start d := by
  rw [shortest]
  split_ifs
  · exact h
  · split
    · exact scan_within _ h
    · split_ifs
      · exact h
      · exact scan_within _ (h.sooner _)

end Out

/-- Charging chunks that are selected by their number: the frames are those of the chunks
    selected, unless there is an error. -/
theorem charge_frames (limit : ℕ) (sel : ℕ → Bool) (l : List SentChunk) :
    (∀ f ∈ (charge limit (fun c => sel c.chunkID) l).2.1, sel f.chunkID = true) ∧
    ((charge limit (fun c => sel c.chunkID) l).2.2 = none → ∀ c ∈ l,
      ¬(sel c.chunkID = true ∧ limit ≤ c.retries) ∧
      (sel c.chunkID = true → c.chunkID ∈
        (charge limit (fun c => sel c.chunkID) l).2.1.map Chunk.chunkID)) := by
  induction l with
  | nil => simp [charge]
  | cons c rest ih =>
    obtain ⟨ihsel, ihall⟩ := ih
    rw [charge]
    split_ifs with hsel hspent
    · simp
    · refine ⟨forall_mem_cons.mpr ⟨hsel, ihsel⟩, fun hnone => forall_mem_cons.mpr
        ⟨⟨fun h => hspent h.2, fun _ => mem_cons_self⟩, fun c' hc' => ?_⟩⟩
      obtain ⟨hcharged, hframe⟩ := ihall hnone c' hc'
      exact ⟨hcharged, fun h => mem_cons_of_mem _ (hframe h)⟩
    · exact ⟨ihsel, fun hnone => forall_mem_cons.mpr
        ⟨⟨fun h => hsel h.1, fun h => absurd h hsel⟩, ihall hnone⟩⟩

/-- A transfer that does not fail in a pass: it was acknowledged, or everything that was late
    is sent again. -/
theorem expire_alive {ot : OutgoingTransfer} {commit : Bool} {late : ℕ → Bool}
    (h : (ot.expire commit late).1.failed = none) :
    ot.failed = none ∧ ((ot.pending = [] ∧ ot.completed = true ∧
        ot.expire commit late = (ot, false, [])) ∨
      (¬(ot.doneSending && ot.pending.isEmpty && ot.completed) = true ∧
        ¬((ot.doneSending && !ot.completed && commit) = true ∧ ot.retryLimit ≤ ot.commitRetries) ∧
        (charge ot.retryLimit (fun c => late c.chunkID) ot.pending).2.2 = none ∧
        (ot.expire commit late).1.pending =
          (charge ot.retryLimit (fun c => late c.chunkID) ot.pending).1 ∧
        (ot.expire commit late).2 = (ot.doneSending && !ot.completed && commit,
          (charge ot.retryLimit (fun c => late c.chunkID) ot.pending).2.1))) := by
  simp only [expire] at h ⊢
  split at h
  next hskip =>
    rw [if_pos hskip]
    refine ⟨h, .inl ?_⟩
    rw [h, Option.isSome_none, Bool.false_or] at hskip
    simp only [Bool.and_eq_true, List.isEmpty_iff] at hskip
    exact ⟨hskip.1.2, hskip.2, rfl⟩
  next hskip =>
    rw [if_neg hskip]
    simp only [Bool.or_eq_true, not_or, Bool.not_eq_true, Option.isSome_eq_false_iff,
      Option.isNone_iff_eq_none] at hskip
    split at h
    next => cases h
    next hspent =>
      rw [if_neg hspent]
      simp only [Bool.and_eq_true, decide_eq_true_eq] at hspent
      split at h
      next pending frames hcharge =>
        rw [hcharge]
        exact ⟨h, .inr ⟨by simp [hskip.2], by simpa using hspent, rfl, rfl, rfl⟩⟩
      next => cases h

/-- What a pass does not change. -/
theorem expire_same (ot : OutgoingTransfer) (commit : Bool) (late : ℕ → Bool) :
    (ot.expire commit late).1.doneSending = ot.doneSending ∧
      (ot.expire commit late).1.completed = ot.completed := by
  obtain ⟨pending, failed, retries, heq, -⟩ := ot.expire_cases commit late
  rw [heq]
  exact ⟨rfl, rfl⟩

namespace Out

variable {o o' : Out} {now start d : ℕ}

/-- Unless one of them ends the loop, no chunk is due before the delay it has recorded. -/
theorem scan_all {l : List SentChunk}
    (h : ∀ c ∈ l, ¬(o.late now c.chunkID = true ∧ o.ot.retryLimit ≤ c.retries))
    (next : Option ℕ) : ∀ c ∈ l, Within (o.scan now l next) now
      (now + o.delay now (o.sentAt c.chunkID)) := by
  induction l generalizing next with
  | nil => exact nofun
  | cons c rest ih =>
    rw [forall_mem_cons] at h
    rw [scan, if_neg h.1]
    intro c' hc'
    rcases mem_cons.mp hc' with rfl | hc'
    · exact scan_within _ (within_sooner le_rfl)
    · exact ih h.2 _ c' hc'

/-- What is sent again is due a timeout later, and the rest when it was. -/
theorem delay_resent {frames : List Chunk} {k : ℕ}
    (hlate : ∀ f ∈ frames, o.late now f.chunkID = true)
    (hall : o.late now k = true → k ∈ frames.map Chunk.chunkID) :
    now + o.delay now (o.sentAt k) = o.resent now frames k + o.ackTimeout := by
  rw [delay, resent]
  by_cases hk : o.sentAt k + o.ackTimeout ≤ now
  · rw [if_pos hk, if_pos (hall (decide_eq_true hk))]
  · have hnot : k ∉ frames.map Chunk.chunkID := by
      intro hmem
      obtain ⟨f, hf, rfl⟩ := mem_map.mp hmem
      exact hk (of_decide_eq_true (hlate f hf))
    rw [if_neg hk, if_neg hnot]
    omega

theorem expire_ot : (o.expire now).ot = (o.ot.expire (o.commitLate now) (o.late now)).1 := rfl

theorem expire_sentAt : (o.expire now).sentAt =
    o.resent now (o.ot.expire (o.commitLate now) (o.late now)).2.2 := rfl

/-- When the end is due after a pass in which it did not spend its retries. -/
theorem expire_commitSent {t : ℕ} (ht : (o.expire now).commitSent = some t)
    (hagain : (o.ot.expire (o.commitLate now) (o.late now)).2.1 =
      (o.ot.doneSending && !o.ot.completed && o.commitLate now)) :
    ∃ t', o.commitSent = some t' ∧ now + o.delay now t' = t + o.ackTimeout := by
  rw [commitSent, expire_ot, (expire_same _ _ _).1, (expire_same _ _ _).2] at ht
  split_ifs at ht with hends
  change (if (o.ot.expire (o.commitLate now) (o.late now)).2.1 = true then some now
    else o.commitSentAt) = some t at ht
  rw [hagain, hends, Bool.true_and] at ht
  cases hc : o.commitSentAt with
  | none =>
    rw [commitLate, hc] at ht
    cases ht
  | some t' =>
    refine ⟨t', by rw [commitSent, if_pos hends, hc], ?_⟩
    simp only [commitLate, hc, decide_eq_true_eq] at ht
    rw [delay]
    split_ifs at ht ⊢ with hlate
    · cases ht
      rfl
    · cases ht
      omega

/-- After a pass in which the transfer did not fail, none of its deadlines is before the delay
    that was recorded. -/
theorem expire_within (h : (o.expire now).ot.failed = none) (hd : d ∈ (o.expire now).deadlines)
    (next : Option ℕ) : Within (o.shortest now next) now d := by
  obtain ⟨hfailed, ⟨hempty, hcompleted, heq⟩ | ⟨hopen, hcommit, hnone, hpending, hrest⟩⟩ :=
    expire_alive (show (o.ot.expire (o.commitLate now) (o.late now)).1.failed = none from h)
  · -- there is no deadline left
    have hot : (o.expire now).ot = o.ot := by rw [expire_ot, heq]
    have hsent : (o.expire now).commitSent = none := by
      rw [commitSent, hot, hcompleted, Bool.not_true, Bool.and_false]
      rfl
    rw [deadlines, hsent, hot, hempty] at hd
    exact absurd hd not_mem_nil
  have hframes := charge_frames o.ot.retryLimit (o.late now) o.ot.pending
  have hall := hframes.2 hnone
  have hstart : o.shortest now next = match o.commitSent with
      | none => o.scan now o.ot.pending next
      | some t => o.scan now o.ot.pending (some (sooner next (o.delay now t))) := by
    rw [shortest, if_neg (by simpa [hfailed] using hopen)]
    split
    · rfl
    next t ht =>
      refine if_neg fun hspent => hcommit ⟨?_, hspent.2⟩
      rw [commitSent] at ht
      split_ifs at ht with hends
      rw [hends, Bool.true_and, commitLate, ht]
      exact decide_eq_true hspent.1
  rw [hstart]
  rcases mem_append.mp hd with hd | hd
  · obtain ⟨t, ht, rfl⟩ := Option.mem_map.mp (Option.mem_toList.mp hd)
    obtain ⟨t', ht', hdelay⟩ := expire_commitSent ht (congrArg Prod.fst hrest)
    rw [ht']
    exact scan_within _ (within_sooner hdelay.le)
  · obtain ⟨c', hc', rfl⟩ := mem_map.mp hd
    rw [expire_ot, hpending] at hc'
    obtain ⟨c, hc, hid⟩ : ∃ c ∈ o.ot.pending, c.chunkID = c'.chunkID := by
      have hmem := mem_map_of_mem (f := SentChunk.chunk) hc'
      rw [(charge_eq _ _ _).1] at hmem
      obtain ⟨c, hc, heq⟩ := mem_map.mp hmem
      exact ⟨c, hc, congrArg Chunk.chunkID heq⟩
    have hdelay : now + o.delay now (o.sentAt c.chunkID) = (o.expire now).deadline c' := by
      rw [deadline, expire_sentAt, congrArg Prod.snd hrest, ← hid]
      exact delay_resent hframes.1 (hall c hc).2
    rw [← hdelay]
    have hscan : ∀ next, Within (o.scan now o.ot.pending next) now
        (now + o.delay now (o.sentAt c.chunkID)) :=
      fun next => scan_all (fun c hc => (hall c hc).1) next c hc
    split
    · exact hscan _
    · exact hscan _

/-! ### What a section keeps -/

/-- What holds of a transfer at any time: nothing was sent in the future, a sender only waits
    for a transfer that has not failed, and schedules the monitor for its next deadline. -/
structure Good (now : ℕ) (o : Out) : Prop where
  timeout : o.ackTimeout ≠ 0
  sent : ∀ k, o.sentAt k ≤ now
  ended : o.ot.doneSending = true → ∃ t, o.commitSentAt = some t
  commit : ∀ t, o.commitSentAt = some t → t ≤ now
  healthy : o.sender ≠ .running → o.ot.failed = none
  call : ∀ c, o.sender = .calling c → c.Ok ∧ ∀ v, c.time = some v →
    o.nextOutgoingDeadlineLocked = some v

/-- A sender that waits has no deadline before those it had when it waited before. -/
def Rests (o o' : Out) : Prop :=
  o'.sender.Settled → o'.deadlines = [] ∨
    (o.sender = .parked ∧ ∀ d' ∈ o'.deadlines, ∃ d ∈ o.deadlines, d ≤ d')

theorem Good.later (h : Good now o) {now' : ℕ} (hle : now ≤ now') : Good now' o :=
  { h with
    sent := fun k => (h.sent k).trans hle
    commit := fun t ht => (h.commit t ht).trans hle }

/-- A section that leaves the sender running. -/
theorem Good.running (h : Good now o) {ot : OutgoingTransfer}
    (hdone : ot.doneSending = o.ot.doneSending) :
    Good now { o with ot := ot, sender := .running } where
  timeout := h.timeout
  sent := h.sent
  ended hd := h.ended (hdone ▸ hd)
  commit := h.commit
  healthy hne := absurd rfl hne
  call := nofun

theorem Good.resent (h : Good now o) {sent : ℕ} (hle : sent ≤ now) (frames : List Chunk) (k : ℕ) :
    o.resent sent frames k ≤ now := by
  rw [Out.resent]
  split_ifs
  · exact hle
  · exact h.sent k

theorem Good.deadline_pos (h : Good now o) (hd : d ∈ o.deadlines) : d ≠ 0 := by
  have := ackTimeout_le hd
  have := h.timeout
  omega

theorem handleAck_doneSending (ot : OutgoingTransfer) (a : Ack) :
    (ot.handleAck a).1.doneSending = ot.doneSending := by
  rcases ot.handleAck_cases a with heq | ⟨failed, heq⟩ <;> rw [heq]

theorem handleNack_same (n : Nack) :
    (o.ot.handleNack n).1.doneSending = o.ot.doneSending ∧
      (o.nackFails n = false → (o.ot.handleNack n).1.failed = o.ot.failed) := by
  simp only [nackFails, OutgoingTransfer.handleNack, OutgoingTransfer.applyNack,
    OutgoingTransfer.fail]
  split_ifs with hrange
  · exact ⟨rfl, fun _ => rfl⟩
  · rw [decide_eq_true (Nat.not_lt.mp hrange), Bool.true_and]
    cases n.reason with
    | flowControl => exact ⟨rfl, fun _ => rfl⟩
    | missingChunk =>
      dsimp only
      split
      · exact ⟨rfl, fun _ => rfl⟩
      · exact ⟨rfl, fun h => by cases h⟩
    | _ => exact ⟨rfl, fun h => by cases h⟩

/-- A refusal that does not fail the transfer puts its deadlines off. -/
theorem handleNack_deadlines (h : Good now o) (n : Nack) :
    ∀ d' ∈ (o.handleNack now n).deadlines, ∃ d ∈ o.deadlines, d ≤ d' := by
  obtain ⟨hcompleted, hpending, -⟩ := o.ot.handleNack_spec n
  have hsent : (o.handleNack now n).commitSent = o.commitSent := by
    rw [commitSent, commitSent]
    show (if ((o.ot.handleNack n).1.doneSending && !(o.ot.handleNack n).1.completed) = true then
      o.commitSentAt else none) = _
    rw [hcompleted, (handleNack_same n).1]
  intro d' hd'
  rcases mem_append.mp hd' with hd' | hd'
  · refine ⟨d', mem_append_left _ ?_, le_rfl⟩
    rw [hsent] at hd'
    exact hd'
  · obtain ⟨c', hc', rfl⟩ := mem_map.mp hd'
    have hmem := mem_map_of_mem (f := SentChunk.chunk) hc'
    rw [show (o.handleNack now n).ot.pending = (o.ot.handleNack n).1.pending from rfl,
      hpending] at hmem
    obtain ⟨c, hc, heq⟩ := mem_map.mp hmem
    have hid : c.chunkID = c'.chunkID := congrArg Chunk.chunkID heq
    refine ⟨o.deadline c, mem_append_right _ (mem_map_of_mem hc), ?_⟩
    show o.sentAt c.chunkID + o.ackTimeout ≤ o.resent now (o.nacked n) c'.chunkID + o.ackTimeout
    rw [← hid, Out.resent]
    split_ifs
    · exact Nat.add_le_add_right (h.sent _) _
    · exact le_rfl

theorem Good.wait (h : Good now o) (hwaits : o.Waits) : Good now o.wait := by
  refine ⟨h.timeout, h.sent, h.ended, h.commit, fun _ => hwaits.1, fun c hc => ?_⟩
  cases hnext : o.nextOutgoingDeadlineLocked with
  | none =>
    simp only [Out.wait, hnext] at hc
    cases hc
  | some d =>
    simp only [Out.wait, hnext] at hc
    cases hc
    refine ⟨h.deadline_pos (next_mem hnext), ?_⟩
    rintro v ⟨⟩
    exact hnext

theorem Good.step (h : Good now o) (hs : Step now o o') : Good now o' := by
  cases hs with
  | @push k payload hrun hfailed hroom hnew =>
    refine ⟨h.timeout, fun j => ?_, h.ended, h.commit, fun hne => absurd hrun hne, fun c hc => ?_⟩
    · show Function.update o.sentAt k now j ≤ now
      rw [Function.update_apply]
      split_ifs
      · exact le_rfl
      · exact h.sent j
    · rw [hrun] at hc
      cases hc
  | finish hrun hbody =>
    refine ⟨h.timeout, h.sent, fun _ => ⟨now, rfl⟩, ?_, fun hne => absurd hrun hne, fun c hc => ?_⟩
    · rintro t ⟨⟩
      exact le_rfl
    · rw [hrun] at hc
      cases hc
  | wait hrun hwaits => exact h.wait hwaits
  | wake hparked => exact h.running rfl
  | ack a hfree =>
    rw [handleAck]
    split_ifs
    · exact h
    · exact h.running (handleAck_doneSending _ a)
  | nack n hfree =>
    obtain ⟨hdone, hfailed⟩ := handleNack_same (o := o) n
    refine ⟨h.timeout, h.resent le_rfl _, fun hd => h.ended (hdone ▸ hd), h.commit, fun hne => ?_,
      fun c hc => ?_⟩
    · cases hfails : o.nackFails n with
      | false =>
        simp only [handleNack, hfails, Bool.false_eq_true, if_false] at hne
        exact (hfailed hfails).trans (h.healthy hne)
      | true =>
        simp only [handleNack, hfails, if_true] at hne
        exact absurd rfl hne
    · simp only [handleNack] at hc
      split_ifs at hc
      exact absurd hc (hfree c)
  | window _ _ hfree => exact h.running rfl
  | state t hfree =>
    obtain ⟨completed, failed, heq⟩ := o.ot.handleState_cases t
    exact h.running (by rw [heq])
  | fail e hfree => exact h.running rfl

/-- In a section of someone who does not schedule the monitor nobody does, and a sender that
    waits after it has waited before, or has no deadline. -/
theorem step_rests (h : Good now o) (hs : Step now o o') : o.Free ∧ Rests o o' := by
  have hrunning : ∀ {x : Waiter}, o.sender = .running → o.sender = x → x = .running :=
    fun hrun hx => hx.symm.trans hrun
  have hparked : o.Free → o.sender.Settled → o.sender = .parked :=
    fun hfree hsettled => hsettled.resolve_right (hfree .wake)
  have hawake : ¬Waiter.Settled .running := fun h => h.elim nofun nofun
  cases hs with
  | push hrun | finish hrun =>
    refine ⟨fun c hc => (nomatch hrunning hrun hc), fun hsettled => absurd ?_ hawake⟩
    rw [← hrun]
    exact hsettled
  | wait hrun hwaits =>
    refine ⟨fun c hc => (nomatch hrunning hrun hc), fun hsettled => .inl ?_⟩
    cases hnext : o.nextOutgoingDeadlineLocked with
    | none => exact deadlines_of_next_none hnext
    | some d =>
      simp only [Out.wait, hnext] at hsettled
      exact hsettled.elim nofun nofun
  | wake hparked =>
    refine ⟨fun c hc => ?_, fun hsettled => absurd hsettled hawake⟩
    rw [hparked] at hc
    cases hc
  | ack a hfree =>
    refine ⟨hfree, fun hsettled => ?_⟩
    rw [handleAck] at hsettled ⊢
    split_ifs at hsettled ⊢
    · exact .inr ⟨hparked hfree hsettled, fun d hd => ⟨d, hd, le_rfl⟩⟩
    · exact absurd hsettled hawake
  | nack n hfree =>
    refine ⟨hfree, fun hsettled => .inr ⟨?_, handleNack_deadlines h n⟩⟩
    simp only [handleNack] at hsettled
    split_ifs at hsettled
    · exact absurd hsettled hawake
    · exact hparked hfree hsettled
  | window _ _ hfree | state t hfree | fail e hfree =>
    exact ⟨hfree, fun hsettled => absurd hsettled hawake⟩

theorem Good.expire (h : Good now o) {start : ℕ} (hle : start ≤ now) (hfree : o.Free) :
    Good now (o.expire start) where
  timeout := h.timeout
  sent k := by
    rw [expire_sentAt]
    exact h.resent hle _ k
  ended hd := by
    rw [expire_ot, (expire_same _ _ _).1] at hd
    show ∃ t, (if (o.ot.expire (o.commitLate start) (o.late start)).2.1 = true then some start
      else o.commitSentAt) = some t
    split_ifs
    · exact ⟨start, rfl⟩
    · exact h.ended hd
  commit t ht := by
    change (if (o.ot.expire (o.commitLate start) (o.late start)).2.1 = true then some start
      else o.commitSentAt) = some t at ht
    split_ifs at ht
    · cases ht
      exact hle
    · exact h.commit t ht
  healthy hne := by
    cases hfailed : (o.expire start).ot.failed with
    | none => rfl
    | some e =>
      -- the pass has woken the sender, unless the transfer had failed before
      rw [expire_ot] at hfailed
      simp only [Out.expire, hfailed, Option.isSome_some, Bool.and_true] at hne
      split_ifs at hne with hwas
      · exact absurd rfl hne
      · rw [h.healthy hne] at hwas
        exact absurd rfl hwas
  call c hc := by
    simp only [Out.expire] at hc
    split_ifs at hc
    exact absurd hc (hfree c)

end Out

end Etp.RetryTimer
