import Etp.Transfer.InFlight

/-!
# How often a frame is sent

A chunk is sent again when the peer refuses it (`applyNack`) and when its
acknowledgement is late (`processOutgoingTimeouts`). Both charge a retry to the
chunk under the lock and send the copy they have made after it, the monitor after it
has looked once more whether the chunk is still pending. The end is sent again by
the monitor only, and its retries are counted apart.

What was handed to the writer and what is queued for it is within the retries that
were charged (`Budget`), so that with a limit of `r` retries a chunk, and the end, is
handed to the writer `r + 1` times at most (`sends_bounded`).
-/

namespace Etp.Transfer

open Relation List

/-! ## The record -/

namespace OutgoingTransfer

/-- The number of frames of the chunk `k`. -/
def framesOf (k : ℕ) (frames : List Chunk) : ℕ := frames.countP fun c => c.chunkID == k

theorem framesOf_eq_zero {k : ℕ} {frames : List Chunk} (h : ∀ c ∈ frames, c.chunkID ≠ k) :
    framesOf k frames = 0 :=
  countP_eq_zero.mpr fun c hc => by simpa using h c hc

theorem framesOf_cons (k : ℕ) (c : Chunk) (frames : List Chunk) :
    framesOf k (c :: frames) = framesOf k frames + if c.chunkID = k then 1 else 0 := by
  simp [framesOf, countP_cons]

variable {limit : ℕ} {sel : SentChunk → Bool} {l : List SentChunk}

/-- The frames that are sent again are those of chunks of the list. -/
theorem framesOf_charge {k : ℕ} (h : k ∉ l.map SentChunk.chunkID) :
    framesOf k (charge limit sel l).2.1 = 0 := by
  refine framesOf_eq_zero fun f hf heq => h ?_
  obtain ⟨c, hc, rfl⟩ := mem_map.mp ((charge_eq limit sel l).2 f hf)
  exact mem_map.mpr ⟨c, hc, heq⟩

/-- A frame that is sent again is charged to its chunk, within the limit. -/
theorem charge_retries (hl : (l.map SentChunk.chunkID).Nodup) :
    ∀ c' ∈ (charge limit sel l).1, ∃ c ∈ l, c.chunkID = c'.chunkID ∧
      c.retries + framesOf c'.chunkID (charge limit sel l).2.1 ≤ c'.retries ∧
      (c.retries ≤ limit → c'.retries ≤ limit) := by
  induction l with
  | nil => nofun
  | cons c rest ih =>
    obtain ⟨hnew, hrest⟩ := nodup_cons.mp hl
    have hnone : framesOf c.chunkID (charge limit sel rest).2.1 = 0 := framesOf_charge hnew
    -- the chunks after the first one are charged as before
    have hlater : ∀ c' ∈ (charge limit sel rest).1, c.chunkID ≠ c'.chunkID ∧ ∃ d ∈ c :: rest,
        d.chunkID = c'.chunkID ∧
        d.retries + framesOf c'.chunkID (charge limit sel rest).2.1 ≤ c'.retries ∧
        (d.retries ≤ limit → c'.retries ≤ limit) := by
      intro c' hc'
      obtain ⟨d, hd, hid, hcharged⟩ := ih hrest c' hc'
      refine ⟨fun heq => ?_, d, mem_cons_of_mem c hd, hid, hcharged⟩
      exact hnew (mem_map.mpr ⟨d, hd, hid.trans heq.symm⟩)
    rw [charge]
    split_ifs with hsel hspent
    · intro c' hc'
      exact ⟨c', hc', rfl, le_rfl, fun h => h⟩
    · intro c' hc'
      rw [framesOf_cons]
      rcases mem_cons.mp hc' with rfl | hc'
      · refine ⟨c, mem_cons_self, rfl, ?_, fun _ => Nat.not_le.mp hspent⟩
        show c.retries + (framesOf c.chunkID _ + if c.chunkID = c.chunkID then 1 else 0) ≤
          c.retries + 1
        rw [if_pos rfl, hnone]
      · obtain ⟨hne, hd⟩ := hlater c' hc'
        rw [show (SentChunk.chunk c).chunkID = c.chunkID from rfl, if_neg hne]
        exact hd
    · intro c' hc'
      rcases mem_cons.mp hc' with rfl | hc'
      · refine ⟨c', mem_cons_self, rfl, ?_, fun h => h⟩
        rw [hnone]
        rfl
      · exact (hlater c' hc').2

/-- A chunk without retries left ends the charge with an error. -/
theorem charge_exhausted (h : ∃ c ∈ l, sel c = true ∧ limit ≤ c.retries) :
    (charge limit sel l).2.2 ≠ none := by
  induction l with
  | nil => simp at h
  | cons c rest ih =>
    rw [charge]
    split_ifs with hsel hspent
    · simp
    · refine ih ?_
      obtain ⟨d, hd, hdsel, hdspent⟩ := h
      rcases mem_cons.mp hd with rfl | hd
      · exact absurd hdspent hspent
      · exact ⟨d, hd, hdsel, hdspent⟩
    · refine ih ?_
      obtain ⟨d, hd, hdsel, hdspent⟩ := h
      rcases mem_cons.mp hd with rfl | hd
      · exact absurd hdsel hsel
      · exact ⟨d, hd, hdsel, hdspent⟩

variable (ot : OutgoingTransfer)

/-- A record with chunks that were charged, or with the same ones; the frames are among those that
    were charged. -/
def Charged (ot ot' : OutgoingTransfer) (frames : List Chunk) : Prop :=
  (ot'.pending = ot.pending ∧ frames = []) ∨ ∃ sel,
    ot'.pending = (charge ot.retryLimit sel ot.pending).1 ∧
      (frames = (charge ot.retryLimit sel ot.pending).2.1 ∨ frames = [])

theorem charged_handleNack (n : Nack) : ot.Charged (ot.handleNack n).1 (ot.handleNack n).2.1 ∧
    (ot.handleNack n).1.retryLimit = ot.retryLimit ∧
    (ot.handleNack n).1.commitRetries = ot.commitRetries := by
  simp only [handleNack, applyNack, fail]
  split_ifs
  · exact ⟨.inl ⟨rfl, rfl⟩, rfl, rfl⟩
  · split
    · exact ⟨.inl ⟨rfl, rfl⟩, rfl, rfl⟩
    · split
      · rename_i pending frames heq
        refine ⟨.inr ⟨inRange n.chunkFrom n.chunkTo, ?_, .inl ?_⟩, rfl, rfl⟩ <;> rw [heq]
      · rename_i pending frames chunkID heq
        refine ⟨.inr ⟨inRange n.chunkFrom n.chunkTo, ?_, .inr rfl⟩, rfl, rfl⟩
        rw [heq]
    · exact ⟨.inl ⟨rfl, rfl⟩, rfl, rfl⟩

/-- The tick of the monitor charges the chunks that are late, and the end if it is. -/
theorem charged_expire (commit : Bool) (late : ℕ → Bool) :
    ot.Charged (ot.expire commit late).1 (ot.expire commit late).2.2 ∧
    (ot.expire commit late).1.retryLimit = ot.retryLimit ∧
    (ot.expire commit late).1.commitRetries =
      ot.commitRetries + (if (ot.expire commit late).2.1 then 1 else 0) ∧
    ((ot.expire commit late).2.1 = true → ot.commitRetries < ot.retryLimit) := by
  simp only [expire, fail]
  split
  · exact ⟨.inl ⟨rfl, rfl⟩, rfl, rfl, by simp⟩
  · split
    · exact ⟨.inl ⟨rfl, rfl⟩, rfl, rfl, by simp⟩
    · rename_i hleft
      simp only [Bool.and_eq_true, decide_eq_true_eq, not_and, not_le] at hleft
      split
      all_goals
        rename_i heq
        refine ⟨.inr ⟨fun c => late c.chunkID, ?_, .inl ?_⟩, rfl, ?_, fun hdue => hleft ?_⟩
        · rw [heq]
        · rw [heq]
        · show (if _ then _ else _) = _
          split <;> rfl
        · simpa [and_assoc] using hdue

/-- A chunk, or the end, that is late and has no retries left fails the transfer. -/
theorem expire_exhausted (commit : Bool) (late : ℕ → Bool)
    (h : (∃ c ∈ ot.pending, late c.chunkID = true ∧ ot.retryLimit ≤ c.retries) ∨
      (commit = true ∧ ot.doneSending = true ∧ ot.completed = false ∧
        ot.retryLimit ≤ ot.commitRetries)) :
    (ot.expire commit late).1.failed ≠ none := by
  simp only [expire, fail]
  split
  · rename_i hover
    simp only [Bool.or_eq_true, Bool.and_eq_true, List.isEmpty_iff] at hover
    rcases hover with hfailed | ⟨⟨-, hpending⟩, hcompleted⟩
    · exact Option.isSome_iff_ne_none.mp hfailed
    · rcases h with ⟨c, hc, -⟩ | ⟨-, -, hopen, -⟩
      · rw [hpending] at hc
        cases hc
      · rw [hcompleted] at hopen
        cases hopen
  · split
    · simp
    · rename_i hleft
      simp only [Bool.and_eq_true, Bool.not_eq_true', decide_eq_true_eq, not_and] at hleft
      rcases h with hchunk | ⟨hcommit, hdone, hopen, hspent⟩
      · have hexhausted : (charge ot.retryLimit (fun c => late c.chunkID) ot.pending).2.2 ≠ none :=
          charge_exhausted hchunk
        split
        · rename_i heq
          rw [heq] at hexhausted
          exact absurd rfl hexhausted
        · simp
      · exact absurd hspent (hleft ⟨⟨hdone, hopen⟩, hcommit⟩)

end OutgoingTransfer

/-! ## Runs -/

namespace Logged

open Upload Event OutgoingTransfer

/-- The frames that the reader has to send again. -/
def queue : SenderReader → List Chunk
  | .resending l => l
  | .ready | .stopped _ => []

theorem queue_resending (l : List Chunk) : queue (.resending l) = l := rfl

/-- Whether a task of the monitor is to send the chunk `k` again. -/
def carries (k : ℕ) : Task → Bool
  | .chunk c => c.chunkID == k
  | .commit => false

/-- The frames of the chunk `k` that were handed to the writer, are about to be, or are queued. -/
def spent (snd : Sender) (log : List Event) (k : ℕ) : ℕ :=
  log.count (.admission k) + log.count (.again k) + framesOf k (queue snd.reader) +
    snd.monitor.countP (carries k)

/-- Whether the end was sent, as a number; of a transfer that has returned it may have been. -/
def ended : Body → ℕ
  | .waiting | .returned _ => 1
  | .begin | .next _ | .encoding _ | .sendEnd => 0

/-- What was handed to the writer and what is queued is charged as a retry, but for once. -/
structure Budget (r : ℕ) (snd : Sender) (log : List Event) : Prop where
  limit : snd.ot.retryLimit = r
  pending : ∀ c ∈ snd.ot.pending, spent snd log c.chunkID ≤ 1 + c.retries ∧ c.retries ≤ r
  chunks : ∀ k, spent snd log k ≤ 1 + r
  upcoming : ∀ j, upcoming snd.body = some j → ∀ k, j ≤ k → spent snd log k = 0
  ends : log.count .finish + snd.monitor.count .commit ≤ ended snd.body + snd.ot.commitRetries
  commits : snd.ot.commitRetries ≤ r

variable {m : TransferBegin} {D : Bytes} {s s' : Logged} {r : ℕ}
variable {snd snd' : Sender} {log l : List Event}

/-- The body goes on without a new chunk. -/
def GoesOn (b b' : Body) : Prop :=
  Advances b b' ∨ ∃ k, b = .encoding k ∧ b' = .next (k + 1)

/-- A step that charges what it queues, to chunks that stay pending. -/
theorem Budget.charged (h : Budget r snd log) (hlimit : snd'.ot.retryLimit = snd.ot.retryLimit)
    (hcharged : ∀ c' ∈ snd'.ot.pending, ∃ c ∈ snd.ot.pending, c.chunkID = c'.chunkID ∧
      spent snd' (log ++ l) c'.chunkID + c.retries ≤ spent snd log c'.chunkID + c'.retries ∧
      (c.retries ≤ snd.ot.retryLimit → c'.retries ≤ snd.ot.retryLimit))
    (hrest : ∀ k, (∀ c' ∈ snd'.ot.pending, c'.chunkID ≠ k) →
      spent snd' (log ++ l) k ≤ spent snd log k)
    (hbehind : Behind m snd'.ot snd'.body) (hbody : GoesOn snd.body snd'.body)
    (hends : (log ++ l).count .finish + snd'.monitor.count .commit ≤
      ended snd'.body + snd'.ot.commitRetries)
    (hcommits : snd'.ot.commitRetries ≤ r) : Budget r snd' (log ++ l) := by
  have hpending : ∀ c' ∈ snd'.ot.pending,
      spent snd' (log ++ l) c'.chunkID ≤ 1 + c'.retries ∧ c'.retries ≤ r := by
    intro c' hc'
    obtain ⟨c, hc, hid, hle, hretries⟩ := hcharged c' hc'
    obtain ⟨hspent, hr⟩ := h.pending c hc
    rw [hid] at hspent
    rw [h.limit] at hretries
    exact ⟨by omega, hretries hr⟩
  -- the chunk that is admitted next was not before one that was admitted next
  have hnext : ∀ j, Logged.upcoming snd'.body = some j →
      ∃ i ≤ j, Logged.upcoming snd.body = some i := by
    intro j hj
    rcases hbody with hadv | ⟨k, hb, hb'⟩
    · generalize snd.body = b at hadv
      generalize snd'.body = b' at hadv hj
      cases hadv with
      | stay => exact ⟨j, le_rfl, hj⟩
      | start => exact ⟨0, Nat.zero_le j, rfl⟩
      | finish | wait | stop => cases hj
    · rw [hb'] at hj
      rw [hb]
      exact ⟨j, le_rfl, hj⟩
  refine ⟨hlimit.trans h.limit, hpending, fun k => ?_, fun j hj k hk => ?_, hends, hcommits⟩
  · by_cases hk : ∃ c' ∈ snd'.ot.pending, c'.chunkID = k
    · obtain ⟨c', hc', rfl⟩ := hk
      have := hpending c' hc'
      omega
    · exact (hrest k fun c' hc' heq => hk ⟨c', hc', heq⟩).trans (h.chunks k)
  · obtain ⟨i, hi, hbefore⟩ := hnext j hj
    have hzero := h.upcoming i hbefore k (hi.trans hk)
    have hle := hrest k fun c' hc' heq => by
      have := (hbehind j hj).1 c' hc'
      omega
    omega

/-- A step that queues nothing. -/
theorem Budget.quiet (h : Budget r snd log) (hlimit : snd'.ot.retryLimit = snd.ot.retryLimit)
    (hpending : ∀ c ∈ snd'.ot.pending, c ∈ snd.ot.pending)
    (hspent : ∀ k, spent snd' (log ++ l) k ≤ spent snd log k)
    (hbehind : Behind m snd'.ot snd'.body) (hbody : GoesOn snd.body snd'.body)
    (hends : (log ++ l).count .finish + snd'.monitor.count .commit ≤
      ended snd'.body + snd'.ot.commitRetries)
    (hcommits : snd'.ot.commitRetries = snd.ot.commitRetries) : Budget r snd' (log ++ l) := by
  refine h.charged hlimit (fun c hc => ⟨c, hpending c hc, rfl, ?_, fun h => h⟩)
    (fun k _ => hspent k) hbehind hbody hends (hcommits ▸ h.commits)
  have := hspent c.chunkID
  omega

/-- Whether an event is about a frame that is neither sent again nor charged. -/
def inert : Event → Bool
  | .first _ | .window _ _ | .taken _ | .resume _ => true
  | .admission _ | .again _ | .finish => false

theorem count_inert {e : Event} (he : inert e = false) (hl : ∀ e ∈ l, inert e = true) :
    (log ++ l).count e = log.count e := by
  have hnone : l.count e = 0 := by
    refine count_eq_zero_of_not_mem fun hmem => ?_
    rw [hl e hmem] at he
    cases he
  rw [count_append, hnone, Nat.add_zero]

theorem ended_advances {b b' : Body} (h : Advances b b') : ended b ≤ ended b' := by
  cases h with
  | stay => exact le_rfl
  | start | finish | wait => exact Nat.zero_le _
  | stop b => cases b <;> exact Nat.le_of_ble_eq_true rfl

/-- A step that sends nothing again and queues nothing. -/
theorem Budget.idle (h : Budget r snd log) (hl : ∀ e ∈ l, inert e = true)
    (hlimit : snd'.ot.retryLimit = snd.ot.retryLimit)
    (hpending : ∀ c ∈ snd'.ot.pending, c ∈ snd.ot.pending)
    (hcommits : snd'.ot.commitRetries = snd.ot.commitRetries)
    (hreader : queue snd'.reader = queue snd.reader) (hmonitor : snd'.monitor <:+ snd.monitor)
    (hbehind : Behind m snd'.ot snd'.body) (hbody : GoesOn snd.body snd'.body) :
    Budget r snd' (log ++ l) := by
  refine h.quiet hlimit hpending (fun k => ?_) hbehind hbody ?_ hcommits
  · have hfewer := hmonitor.sublist.countP_le (p := carries k)
    rw [spent, count_inert rfl hl, count_inert rfl hl, hreader, spent]
    omega
  · have hfewer := hmonitor.sublist.count_le Task.commit
    have hended : ended snd.body ≤ ended snd'.body := by
      rcases hbody with hadv | ⟨k, hb, hb'⟩
      · exact ended_advances hadv
      · rw [hb, hb']
        exact le_rfl
    have hends := h.ends
    rw [count_inert rfl hl, hcommits]
    omega

/-- A chunk is admitted. -/
theorem Budget.push (h : Budget r snd log) {k : ℕ} (hbody : snd.body = .next k)
    (hbehind : Behind m snd.ot snd.body) (payload : Bytes) :
    Budget r { snd with ot := snd.ot.push k payload, body := .encoding k }
      (log ++ [.admission k]) := by
  obtain ⟨hbelow, -⟩ := hbehind k (by rw [hbody]; rfl)
  have hnone : spent snd log k = 0 := h.upcoming k (by rw [hbody]; rfl) k le_rfl
  have hspent : ∀ j, spent { snd with ot := snd.ot.push k payload, body := .encoding k }
      (log ++ [.admission k]) j = spent snd log j + if k = j then 1 else 0 := by
    intro j
    simp only [spent, count_append, count_singleton, beq_iff_eq, Event.admission.injEq,
      reduceCtorEq, if_false]
    omega
  refine ⟨h.limit, fun c hc => ?_, fun j => ?_, fun j hj i hi => ?_, ?_, h.commits⟩
  · rw [hspent]
    rcases mem_append.mp hc with hc | hc
    · have hne : k ≠ c.chunkID := (hbelow c hc).ne'
      rw [if_neg hne]
      exact h.pending c hc
    · rw [mem_singleton.mp hc]
      show spent snd log k + (if k = k then 1 else 0) ≤ 1 + 0 ∧ 0 ≤ r
      rw [if_pos rfl, hnone]
      exact ⟨le_rfl, Nat.zero_le r⟩
  · rw [hspent]
    split_ifs with heq
    · subst heq
      omega
    · exact h.chunks j
  · obtain rfl : k + 1 = j := Option.some.inj hj
    rw [hspent, if_neg (by omega)]
    exact h.upcoming k (by rw [hbody]; rfl) i (by omega)
  · have hends := h.ends
    rw [hbody] at hends
    rw [count_append]
    exact hends

section Budget

variable (h : Budget r snd log)
include h

/-- A record whose chunks were charged for the frames that are queued. -/
theorem Budget.queued (hi : snd.ot.InFlight) {frames : List Chunk}
    (hcharged : snd.ot.Charged snd'.ot frames) (hl : ∀ e ∈ l, inert e = true)
    (hlimit : snd'.ot.retryLimit = snd.ot.retryLimit)
    (hspent : ∀ k, spent snd' (log ++ l) k ≤ spent snd log k + framesOf k frames)
    (hbehind : Behind m snd'.ot snd'.body) (hbody : snd'.body = snd.body)
    (hends : snd'.monitor.count .commit + snd.ot.commitRetries ≤
      snd.monitor.count .commit + snd'.ot.commitRetries) (hcommits : snd'.ot.commitRetries ≤ r) :
    Budget r snd' (log ++ l) := by
  have hsum : (log ++ l).count .finish + snd'.monitor.count .commit ≤
      ended snd'.body + snd'.ot.commitRetries := by
    have := h.ends
    rw [count_inert rfl hl, hbody]
    omega
  have hnodup : (snd.ot.pending.map SentChunk.chunkID).Nodup := hi.increasing.imp Nat.ne_of_lt
  rcases hcharged with ⟨hsame, rfl⟩ | ⟨sel, hpending, hframes⟩
  · refine h.charged hlimit (fun c hc => ⟨c, hsame ▸ hc, rfl, ?_, fun h => h⟩)
      (fun k _ => hspent k) hbehind (.inl (hbody ▸ .stay _)) hsum hcommits
    exact Nat.add_le_add_right (hspent c.chunkID) _
  · -- what is queued is at most what was charged
    have hfewer : ∀ k, framesOf k frames ≤
        framesOf k (charge snd.ot.retryLimit sel snd.ot.pending).2.1 := by
      rcases hframes with rfl | rfl
      · exact fun k => le_rfl
      · exact fun k => Nat.zero_le _
    refine h.charged hlimit (fun c' hc' => ?_) (fun k hk => ?_) hbehind (.inl (hbody ▸ .stay _))
      hsum hcommits
    · rw [hpending] at hc'
      obtain ⟨c, hc, hid, hle, hretries⟩ := charge_retries hnodup c' hc'
      have := hspent c'.chunkID
      have := hfewer c'.chunkID
      exact ⟨c, hc, hid, by omega, hretries⟩
    · have hmissing : k ∉ snd.ot.pending.map SentChunk.chunkID := by
        intro hmem
        rw [← map_chunkID_chunk, ← (charge_eq snd.ot.retryLimit sel snd.ot.pending).1,
          map_chunkID_chunk, ← hpending] at hmem
        obtain ⟨c', hc', heq⟩ := mem_map.mp hmem
        exact hk c' hc' heq
      have := hspent k
      have := hfewer k
      rw [framesOf_charge hmissing] at this
      omega

/-- A chunk that was queued is sent again. -/
theorem Budget.resends {reader : SenderReader} {monitor : List Task} {c : Chunk}
    (hbehind : Behind m snd.ot snd.body)
    (hqueued : ∀ k, (if c.chunkID = k then 1 else 0) + framesOf k (queue reader) +
      monitor.countP (carries k) ≤ framesOf k (queue snd.reader) + snd.monitor.countP (carries k))
    (hcommit : monitor.count .commit = snd.monitor.count .commit) :
    Budget r { snd with reader := reader, monitor := monitor } (log ++ [.again c.chunkID]) := by
  refine h.quiet rfl (fun c hc => hc) (fun k => ?_) hbehind (.inl (.stay _)) ?_ rfl
  · have := hqueued k
    simp only [spent, count_append, count_singleton, beq_iff_eq, reduceCtorEq, if_false,
      Event.again.injEq]
    omega
  · rw [hcommit, count_append, count_singleton]
    exact h.ends

/-- The end is sent, for the first time or because the monitor was to do so. -/
theorem Budget.finishes {body : Body} {monitor : List Task} (hbehind : Behind m snd.ot body)
    (hbody : Advances snd.body body)
    (hchunks : ∀ k, monitor.countP (carries k) = snd.monitor.countP (carries k))
    (hcommit : 1 + monitor.count .commit + ended snd.body ≤
      snd.monitor.count .commit + ended body) :
    Budget r { snd with body := body, monitor := monitor } (log ++ [.finish]) := by
  refine h.quiet rfl (fun c hc => hc) (fun k => ?_) hbehind (.inl hbody) ?_ rfl
  · simp [spent, count_append, hchunks]
  · have := h.ends
    rw [count_append, count_singleton_self]
    show _ + monitor.count .commit ≤ ended body + snd.ot.commitRetries
    omega

/-- The monitor queues what it has charged. -/
theorem Budget.tick (hi : snd.ot.InFlight) {commit : Bool} {late : ℕ → Bool}
    (hmonitor : snd.monitor = [])
    (hbehind : Behind m (snd.tick commit late).ot (snd.tick commit late).body) :
    Budget r (snd.tick commit late) (log ++ []) := by
  obtain ⟨hcharged, hlimit, hcommits, hleft⟩ := snd.ot.charged_expire commit late
  have hretries : (snd.tick commit late).ot.commitRetries = _ := hcommits
  have htasks : (snd.tick commit late).monitor =
      (if (snd.ot.expire commit late).2.1 = true then [Task.commit] else []) ++
        (snd.ot.expire commit late).2.2.map Task.chunk := rfl
  refine h.queued hi hcharged nofun hlimit (fun k => ?_) hbehind rfl ?_ ?_
  · -- the monitor was idle, so that what it has to do is what was charged
    have hframes : (snd.tick commit late).monitor.countP (carries k) =
        framesOf k (snd.ot.expire commit late).2.2 := by
      rw [htasks, countP_append, countP_map]
      split <;> exact Nat.zero_add _
    rw [spent, hframes, spent, hmonitor, append_nil]
    exact le_rfl
  · have hchunks : ((snd.ot.expire commit late).2.2.map Task.chunk).count .commit = 0 :=
      count_eq_zero_of_not_mem fun hmem => by simp at hmem
    rw [htasks, count_append, hchunks, hmonitor, hretries]
    split <;> simp [Nat.add_comm]
  · have hr := h.commits
    rw [h.limit] at hleft
    rw [hretries]
    split_ifs with hdue
    · exact hleft hdue
    · exact hr

theorem budget_own {label : Sender.Label} (hs : Sender.Step m D snd label snd')
    (hl : ∀ r, label ≠ .receive r) (hi : snd.ot.InFlight) (hbefore : Behind m snd.ot snd.body)
    (hbehind : Behind m snd'.ot snd'.body) :
    Budget r snd' (log ++ ownEvents snd.body snd'.body label) := by
  -- a step that neither sends nor queues a frame
  have hidle : ∀ {snd' : Sender}, Behind m snd'.ot snd'.body → Advances snd.body snd'.body →
      snd'.ot.retryLimit = snd.ot.retryLimit → snd'.ot.pending = snd.ot.pending →
      snd'.ot.commitRetries = snd.ot.commitRetries → queue snd'.reader = queue snd.reader →
      snd'.monitor <:+ snd.monitor →
      Budget r snd' (log ++ ownEvents snd.body snd'.body .internal) := by
    intro snd' hbehind hadv hlimit hpending hcommits hreader hmonitor
    rw [ownEvents_advances hadv]
    exact h.idle nofun hlimit (fun c hc => hpending ▸ hc) hcommits hreader hmonitor hbehind
      (.inl hadv)
  cases hs with
  | begin hb _ =>
    exact h.idle nofun rfl (fun c hc => hc) rfl rfl suffix_rfl hbehind
      (.inl (hb ▸ .start 0))
  | push k hb _ _ _ =>
    rw [show ownEvents snd.body (.encoding k) .internal = [.admission k] by rw [hb]; rfl]
    exact h.push hb hbefore _
  | encode k payload hb _ _ =>
    rw [show ownEvents snd.body (.next (k + 1)) (.send (.data ⟨k, payload, true⟩)) = [.first k] by
      rw [hb]; rfl]
    exact h.idle (by simp [inert]) rfl (fun c hc => hc) rfl rfl suffix_rfl hbehind
      (.inr ⟨k, hb, rfl⟩)
  | finish k hb _ => exact hidle hbehind (hb ▸ .finish k) rfl rfl rfl rfl suffix_rfl
  | sendEnd hb =>
    exact h.finishes hbehind (hb ▸ .wait) (fun _ => rfl) (by rw [hb, ended, ended]; omega)
  | acked _ _ => exact hidle hbehind (.stop _ _) rfl rfl rfl rfl suffix_rfl
  | giveUp e _ => exact hidle hbehind (.stop _ _) rfl rfl rfl rfl suffix_rfl
  | unregister => exact hidle hbehind (.stay _) rfl rfl rfl rfl suffix_rfl
  | reply r _ => exact absurd rfl (hl r)
  | resend c rest hr =>
    rw [show ownEvents snd.body snd.body (.send (.data c)) = [.again c.chunkID] by simp [ownEvents]]
    refine h.resends hbehind (fun k => ?_) rfl
    rw [hr, queue_resending, queue_resending, framesOf_cons]
    omega
  | resent hr =>
    exact hidle hbehind (.stay _) rfl rfl rfl (by rw [hr]; rfl) suffix_rfl
  | tick commit late _ hmonitor =>
    rw [show ownEvents snd.body (snd.tick commit late).body .internal = [] from
      ownEvents_advances (.stay _)]
    exact h.tick hi hmonitor hbehind
  | task t rest ht _ =>
    cases t with
    | commit =>
      refine h.finishes hbehind (.stay _) (fun k => by simp [ht, carries]) ?_
      rw [ht, count_cons_self]
      omega
    | chunk c =>
      rw [show ownEvents snd.body snd.body (.send (Task.chunk c).request) = [.again c.chunkID] by
        simp [ownEvents, Task.request]]
      refine h.resends hbehind (fun k => ?_) (by simp [ht])
      rw [ht, countP_cons]
      simp only [carries, beq_iff_eq]
      omega
  | skip t rest ht _ =>
    exact hidle hbehind (.stay _) rfl rfl rfl rfl (ht ▸ suffix_cons t rest)
  | fail e => exact hidle hbehind (.stay _) rfl rfl rfl rfl suffix_rfl

end Budget

theorem inert_answerEvents (u : Upload) (a : Answer) :
    ∀ e ∈ answerEvents m u a, inert e = true := by
  unfold answerEvents
  split
  any_goals split_ifs
  all_goals simp [inert]

/-- The reader has nothing to send again when it handles an answer. -/
theorem queue_afterReply (e : Option Err) : queue (Sender.afterReply e) = [] := by
  cases e <;> rfl

theorem budget_reply {u : Upload} (reply : Reply) (h : Budget r u.snd log) (hi : u.snd.ot.InFlight)
    (hready : u.snd.reader = .ready)
    (hbehind : Behind m (u.snd.handleReply reply).ot (u.snd.handleReply reply).body) :
    Budget r (u.snd.handleReply reply) (log ++ answerEvents m u (.reply reply)) := by
  have hinert := inert_answerEvents (m := m) u (.reply reply)
  have hq : queue u.snd.reader = [] := by rw [hready]; rfl
  by_cases hreg : u.snd.registered = true
  · cases reply with
    | ack a =>
      have hsame : (u.snd.ot.handleAck a).1.retryLimit = u.snd.ot.retryLimit ∧
          (u.snd.ot.handleAck a).1.commitRetries = u.snd.ot.commitRetries := by
        rcases u.snd.ot.handleAck_cases a with heq | ⟨failed, heq⟩
        all_goals
          rw [heq]
          exact ⟨rfl, rfl⟩
      rw [Sender.handleReply_ack hreg] at hbehind ⊢
      exact h.idle hinert hsame.1 (u.snd.ot.handleAck_spec a).2.1 hsame.2
        ((queue_afterReply _).trans hq.symm) suffix_rfl hbehind (.inl (.stay _))
    | nack n =>
      obtain ⟨hcharged, hlimit, hcommits⟩ := u.snd.ot.charged_handleNack n
      rw [Sender.handleReply_nack hreg] at hbehind ⊢
      refine h.queued hi hcharged hinert hlimit (fun k => ?_) hbehind rfl
        (Nat.add_le_add_left hcommits.ge _) (hcommits ▸ h.commits)
      rw [spent, count_inert rfl hinert, count_inert rfl hinert, spent, hq]
      simp only
      split
      · show _ + framesOf k (u.snd.ot.handleNack n).2.1 + _ ≤ _ + 0 + _ + _
        omega
      · rw [queue_afterReply]
        omega
    | window b c =>
      rw [Sender.handleReply_window hreg] at hbehind ⊢
      exact h.idle hinert rfl (fun c hc => hc) rfl rfl suffix_rfl hbehind (.inl (.stay _))
    | state t =>
      have hsame : (u.snd.ot.handleState t).1.retryLimit = u.snd.ot.retryLimit ∧
          (u.snd.ot.handleState t).1.commitRetries = u.snd.ot.commitRetries := by
        obtain ⟨completed, failed, heq⟩ := u.snd.ot.handleState_cases t
        rw [heq]
        exact ⟨rfl, rfl⟩
      rw [Sender.handleReply_state hreg] at hbehind ⊢
      exact h.idle hinert hsame.1 (fun c hc => (u.snd.ot.handleState_spec t).1 ▸ hc) hsame.2
        ((queue_afterReply _).trans hq.symm) suffix_rfl hbehind (.inl (.stay _))
  · rw [Sender.handleReply_unregistered hreg] at hbehind ⊢
    exact h.idle hinert rfl (fun c hc => hc) rfl rfl suffix_rfl hbehind (.inl (.stay _))

/-- An answer about resuming the transfer, or one that is not valid. -/
theorem Budget.answered {u u' : Upload} (h : Budget r u.snd log) {a : Answer}
    (hready : u.snd.reader = .ready) (hbehind : Behind m u'.snd.ot u'.snd.body)
    (hlimit : u'.snd.ot.retryLimit = u.snd.ot.retryLimit)
    (hpending : u'.snd.ot.pending = u.snd.ot.pending)
    (hcommits : u'.snd.ot.commitRetries = u.snd.ot.commitRetries)
    (hreader : queue u'.snd.reader = []) (hmonitor : u'.snd.monitor = u.snd.monitor)
    (hbody : u'.snd.body = u.snd.body) : Budget r u'.snd (log ++ answerEvents m u a) := by
  have hq : queue u.snd.reader = [] := by rw [hready]; rfl
  exact h.idle (inert_answerEvents u a) hlimit (fun c hc => hpending ▸ hc) hcommits
    (hreader.trans hq.symm) (hmonitor ▸ suffix_rfl) hbehind (.inl (hbody ▸ .stay _))

theorem budget_answer {u u' : Upload} {a : Answer} (h : Budget r u.snd log)
    (hs : Upload.Step m D u (some a) u') (hi : u.snd.ot.InFlight)
    (hbehind : Behind m u'.snd.ot u'.snd.body) : Budget r u'.snd (log ++ answerEvents m u a) := by
  cases hs with
  | reply reply snd hs =>
    cases hs with
    | reply reply hready => exact budget_reply reply h hi hready hbehind
  | resumeAccepted n k hready =>
    refine h.answered hready hbehind ?_ ?_ ?_ ?_ ?_ ?_
    all_goals
      simp only [handleResumeAccepted]
      split_ifs
    all_goals first | rfl | rw [hready]; rfl
  | resumeRejected reason hready =>
    refine h.answered hready hbehind ?_ ?_ ?_ ?_ ?_ ?_
    all_goals
      rw [handleResumeRejected]
      split_ifs
    all_goals first | rfl | rw [hready]; rfl
  | invalid e hready => exact h.answered hready hbehind rfl rfl rfl rfl rfl rfl

theorem budget_step {maxInFlight maxInFlightBytes : ℕ} (hs : Step m D s s')
    (hflight : Flight m D maxInFlight maxInFlightBytes s)
    (hflight' : Flight m D maxInFlight maxInFlightBytes s') (h : Budget r s.up.snd s.log) :
    Budget r s'.up.snd s'.log := by
  cases hs with
  | own label snd hs hl hp =>
    exact budget_own h hs hl hflight.inFlight hflight.behind hflight'.behind
  | answer a u hs => exact budget_answer h hs hflight.inFlight hflight'.behind
  | phase u hs hne =>
    rw [← append_nil s.log]
    cases hs with
    | own label snd hs hl hp => exact absurd rfl hne
    | requested | decided =>
      exact h.idle nofun rfl (fun c hc => hc) rfl rfl suffix_rfl hflight'.behind
        (.inl (.stay _))
    | opened n k hp =>
      have hbody := hflight.idle (by simp [hp])
      exact h.idle nofun rfl (fun c hc => hc) rfl rfl suffix_rfl hflight'.behind
        (.inl (hbody ▸ .start k))
    | giveUp e _ =>
      exact h.idle nofun rfl (fun c hc => hc) rfl rfl suffix_rfl hflight'.behind
        (.inl (.stop _ _))

theorem budget_started {id maxInFlight maxInFlightBytes : ℕ} {hasRemoteWindow : Bool}
    (h : Started (registerOutgoing id r maxInFlight maxInFlightBytes hasRemoteWindow m) s) :
    Budget r s.up.snd s.log := by
  rcases h with rfl | ⟨n, k, rfl⟩
  all_goals
    exact ⟨rfl, nofun, fun _ => Nat.zero_le _, fun _ _ _ _ => rfl, Nat.zero_le _, Nat.zero_le _⟩

/-- The frames handed to the writer for the first time are those of admitted chunks. -/
theorem count_first_le (k : ℕ) (h : Trails log) :
    log.count (.first k) ≤ log.count (.admission k) := by
  have hcount : ∀ (f : Event → Option ℕ) (e : Event), (∀ e', f e' = some k ↔ e' = e) →
      ∀ l : List Event, (l.filterMap f).count k = l.count e := by
    intro f e hf l
    induction l with
    | nil => rfl
    | cons e' l ih =>
      rw [filterMap_cons, count_cons, ← ih]
      by_cases heq : e' = e
      · rw [(hf e').mpr heq, count_cons_self, heq, beq_self_eq_true, if_pos rfl]
      · have hne : (e' == e) = false := by simpa using heq
        rw [hne, if_neg Bool.false_ne_true, Nat.add_zero]
        split
        · rfl
        · next j hj =>
          refine count_cons_of_ne fun hk => heq ?_
          exact (hf e').mp (hj.trans (congrArg some hk))
  obtain ⟨late, -, hlate⟩ := h
  have hadmit := hcount admitted? (.admission k) (fun e => by cases e <;> simp [admitted?]) log
  have hfirst := hcount first? (.first k) (fun e => by cases e <;> simp [first?]) log
  rw [← hadmit, ← hfirst]
  show (firsts log).count k ≤ (admitted log).count k
  rw [hlate, count_append]
  exact Nat.le_add_right _ _

/-- A task is done by the monitor only while it is of use. -/
theorem active_of_task {t : Task} {rest : List Task} (hs : Step m D s s')
    (ht : s.up.snd.monitor = t :: rest) (ht' : s'.up.snd.monitor = rest) (hlog : s'.log ≠ s.log) :
    s.up.snd.active t = true := by
  have hne : s'.up.snd.monitor ≠ s.up.snd.monitor := by
    rw [ht, ht']
    exact fun heq => absurd (congrArg List.length heq) (by simp)
  cases hs with
  | own label snd hs hl hp =>
    cases hs with
    | task t' rest' hmonitor hactive =>
      rw [ht] at hmonitor
      exact (List.cons.inj hmonitor).1 ▸ hactive
    | skip t' rest' hmonitor _ =>
      refine absurd ?_ hlog
      show s.log ++ ownEvents _ _ .internal = s.log
      rw [ownEvents_advances (.stay _), append_nil]
    | tick commit late _ hmonitor =>
      rw [ht] at hmonitor
      cases hmonitor
    | reply r _ => exact absurd rfl (hl r)
    | begin | push | encode | finish | sendEnd | acked | giveUp | unregister | resend | resent
      | fail => exact absurd rfl hne
  | answer a u hs =>
    refine absurd ?_ hne
    cases hs with
    | reply r snd hs =>
      cases hs with
      | reply r _ =>
        simp only [Sender.handleReply]
        split
        · rfl
        · cases r <;> rfl
    | resumeAccepted n k _ =>
      simp only [handleResumeAccepted]
      split_ifs <;> rfl
    | resumeRejected reason _ =>
      rw [handleResumeRejected]
      split_ifs <;> rfl
    | invalid => rfl
  | phase u hs hphase => exact absurd rfl hlog

/-- In every run of a sender with `r` retries, against a peer that sends what it likes and with a
    monitor that ticks at any time, a chunk is handed to the writer `r + 1` times at most, also if
    the first frame of a chunk that was admitted and could not be sent is counted, and so is the
    end; the monitor sends a frame again only if, when it looks once more, the transfer has not
    failed and the chunk is pending, or the end not completed; and a tick that finds a chunk or the
    end late that has no retries left fails the transfer. -/
theorem sends_bounded (D : Bytes) (chunkSize flags : ℕ) (checksum : Bytes)
    (id r maxInFlight maxInFlightBytes : ℕ) (hasRemoteWindow : Bool) (s₀ s : Logged) :
    let m := announce D chunkSize flags checksum
    let ot := s.up.snd.ot
    Started (registerOutgoing id r maxInFlight maxInFlightBytes hasRemoteWindow m) s₀ →
    ReflTransGen (Step m D) s₀ s →
    (∀ k, s.log.count (.first k) + s.log.count (.again k) ≤ r + 1 ∧
      s.log.count (.admission k) + s.log.count (.again k) ≤ r + 1) ∧
    s.log.count .finish ≤ r + 1 ∧
    (∀ s' t rest, Step m D s s' → s.up.snd.monitor = t :: rest → s'.up.snd.monitor = rest →
      s'.log ≠ s.log → ot.failed = none ∧
        match t with
        | .chunk c => ∃ c' ∈ ot.pending, c'.chunkID = c.chunkID
        | .commit => ot.completed = false) ∧
    ∀ commit late, ((∃ c ∈ ot.pending, late c.chunkID = true ∧ r ≤ c.retries) ∨
        (commit = true ∧ ot.doneSending = true ∧ ot.completed = false ∧ r ≤ ot.commitRetries)) →
      (s.up.snd.tick commit late).ot.failed ≠ none := by
  intro m ot hstart hrun
  obtain ⟨hflight, hbudget⟩ : Flight m D maxInFlight maxInFlightBytes s ∧
      Budget r s.up.snd s.log := by
    refine Run.invariant (fun s => Flight m D maxInFlight maxInFlightBytes s ∧
      Budget r s.up.snd s.log) ⟨flight_started hstart, budget_started hstart⟩ ?_ hrun
    intro s s' h hs
    have hflight' := flight_step rfl h.1 hs
    exact ⟨hflight', budget_step hs h.1 hflight' h.2⟩
  refine ⟨fun k => ?_, ?_, fun s' t rest hs ht ht' hlog => ?_, fun commit late h => ?_⟩
  · have hfirst := count_first_le k (hflight.ordered.trails s.log (prefix_refl _))
    have hspent := hbudget.chunks k
    rw [spent] at hspent
    exact ⟨by omega, by omega⟩
  · have hends := hbudget.ends
    have hcommits := hbudget.commits
    have hended : ended s.up.snd.body ≤ 1 := by
      cases s.up.snd.body <;> exact Nat.le_of_ble_eq_true rfl
    omega
  · have hactive := active_of_task hs ht ht' hlog
    cases t with
    | commit => simpa [Sender.active] using hactive
    | chunk c => simpa [Sender.active] using hactive
  · refine ot.expire_exhausted commit late ?_
    rw [show ot.retryLimit = r from hbudget.limit]
    exact h

/-- A chunk that is refused is sent again. -/
theorem refused_run : ∃ s, ReflTransGen (Step (announce [7] 1 0 []) [7])
      ⟨fresh (registerOutgoing 1 1 1 1 false (announce [7] 1 0 [])), []⟩ s ∧
    s.log = [.admission 0, .first 0, .again 0] :=
  ⟨_,
    .head (.own _ _ (.begin _ rfl rfl) nofun (.inl rfl)) <|
    .head (.own _ _ (.push _ 0 rfl (by decide) rfl rfl) nofun (.inl rfl)) <|
    .head (.own _ _ (.encode _ 0 [7] rfl rfl fun _ => rfl) nofun (.inl rfl)) <|
    .head (.answer _ _ (.reply (.nack ⟨0, 0, .missingChunk⟩) _ (.reply _ _ rfl))) <|
    .single (.own _ _ (.resend _ ⟨0, [7], true⟩ [] rfl) nofun (.inl rfl)), rfl⟩

theorem sends_bounded_refused : ∃ s, ReflTransGen (Step (announce [7] 1 0 []) [7])
      ⟨fresh (registerOutgoing 1 1 1 1 false (announce [7] 1 0 [])), []⟩ s ∧
    s.log = [.admission 0, .first 0, .again 0] ∧
    s.log.count (.first 0) + s.log.count (.again 0) ≤ 1 + 1 := by
  obtain ⟨s, hrun, hlog⟩ := refused_run
  exact ⟨s, hrun, hlog, ((sends_bounded [7] 1 0 [] 1 1 1 1 false _ s (.inl rfl) hrun).1 0).1⟩

end Logged

end Etp.Transfer
