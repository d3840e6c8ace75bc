import Etp.Transfer.RecoveryInvariant

/-!
# What a refused chunk costs

One refusal for want of buffer costs the refused chunk a retry for each chunk that
was in flight behind it, whatever the order in which the frames are handled. So,
where no further chunk is sent behind them, the transfer goes on exactly where the
retry limit is not below that number (`Link.refused_chunk_survives_iff`); the window
may be much larger than the limit, and then one refusal fails the transfer and ends
the session (`Link.refused_chunk_lost`).
-/

namespace Etp.Transfer

open Relation List

variable {m : TransferBegin} {D : Bytes} {H : Bytes → Bytes}

namespace Link

variable {k n limit : ℕ} {g : Stage} {r : Receiver} {l l' : Link}

/-- The sender takes the first answer on its way to it, if it is a refusal, without an error. -/
def Tolerates (l : Link) : Prop :=
  ∀ x rest, l.up = .nack x :: rest → (l.snd.ot.handleNack x).2.2 = none

/-- A missing range is only tolerated while chunk `k` has a retry left. -/
theorem Recovering.retry_left (h : Recovering m D k n limit g r l) (htol : l.Tolerates)
    (hpos : g.settled ≠ 0) {x : Nack} {rest : List Reply} (hup : l.up = .nack x :: rest) :
    g.charges < limit := by
  obtain ⟨-, -, rfl⟩ := h.missing_range hpos hup
  obtain ⟨older, hp, hold⟩ := h.pending
  by_contra hge
  exact handleNack_spent hp hold (by rw [h.retryLimit]; omega) (htol _ _ hup)

/-- With as many retries as chunks behind `k`, every refusal is tolerated. -/
theorem Recovering.tolerates (h : Recovering m D k n limit g r l) (hlim : n ≤ limit) :
    l.Tolerates := by
  intro x rest hup
  by_cases hzero : g.settled = 0
  · obtain rfl : x = ⟨k, k, .flowControl⟩ := by
      simpa [answerTo, hzero] using (h.up_cons hup).2.1
    simp [OutgoingTransfer.handleNack, OutgoingTransfer.applyNack]
  · obtain ⟨-, hlt, rfl⟩ := h.missing_range hzero hup
    obtain ⟨older, hp, hold⟩ := h.pending
    rw [handleNack_missing hp hold (Nat.le_of_lt hlt) (by rw [h.retryLimit]; omega)]

/-- Where the chunks in flight fill the window, the sender has to wait with a further one. -/
theorem Recovering.window_full (h : Recovering m D k n limit g r l)
    (hfull : l.snd.ot.maxInFlight ≤ n + 1) (size : ℕ) : l.snd.ot.blocked size = true := by
  obtain ⟨older, hp, -⟩ := h.pending
  have hlen : l.snd.ot.maxInFlight ≤ l.snd.ot.pending.length := by
    simp only [hp, pendingChunks, length_append, length_map, length_range]
    omega
  simp [OutgoingTransfer.blocked, hlen]

/-- A step of a recovery. -/
theorem Recovering.step (hm : m.Covers D) (hsize : m.chunkSize < 2 ^ 32)
    (hb : k + n < m.chunkCount) (hlim : 1 ≤ limit) (h : Recovering m D k n limit g r l)
    (htol : l.Tolerates) (hst : Recovers k l l') :
    ∃ g' r', g'.rank n < g.rank n ∧ Recovering m D k n limit g' r' l' := by
  have hrcv {r' : Receiver} (hr' : l.rcv = some r') : r' = r :=
    Option.some.inj (hr'.symm.trans h.rcv)
  cases hst with
  | chunk r' c rest hd hr hready =>
    obtain rfl := hrcv hr
    obtain ⟨g', hg⟩ := h.chunk hm hsize hb hready hd
    exact ⟨g', _, hg⟩
  | answer r' reply rest hr hrep =>
    obtain rfl := hrcv hr
    obtain ⟨g', hg⟩ := h.answer hrep
    exact ⟨g', _, hg⟩
  | nack x rest hup hready =>
    by_cases hzero : g.settled = 0
    · obtain ⟨g', hg⟩ := h.refused hready hzero hup
      exact ⟨g', r, hg⟩
    · obtain ⟨g', hg⟩ := h.missing hready hzero (h.retry_left htol hzero hup) hup
      exact ⟨g', r, hg⟩
  | resend c rest hre =>
    obtain ⟨g', hg⟩ := h.resend hre
    exact ⟨g', r, hg⟩
  | resent hre =>
    obtain ⟨g', hg⟩ := h.resent hre
    exact ⟨g', r, hg⟩
  | timeout r' hr hq hacc _ =>
    obtain rfl := hrcv hr
    obtain ⟨g', hg⟩ := h.timeout hlim hq hacc
    exact ⟨g', r', hg⟩
  | task t rest hmon _ =>
    obtain ⟨g', hg⟩ := h.task hmon
    exact ⟨g', r, hg⟩

/-- A recovery begins with the refusal of chunk `k`. -/
theorem InFlight.recovering (hm : m.Covers D) (hsize : m.chunkSize < 2 ^ 32)
    (h : InFlight m D k n r l) :
    Recovering m D k n l.snd.ot.retryLimit ⟨1, 0, 0, [], [], false, [], [answerTo k 0]⟩
      (r.handleData false (m.frame D k)) (refuse m D k n r l) := by
  have htaking : r.Taking m k := { h with }
  have hbound := h.bound
  have hroom := h.room
  have hwaiting := h.waiting
  rw [refuse, htaking.next hm hsize h.next_le (by omega), if_neg (by simp)]
  exact ⟨rfl, h.pending, h.failed, h.registered, .inl rfl, Nat.zero_le _, Nat.le_refl _,
    Nat.le_add_left _ _, Nat.zero_le _, h.resending, fun _ => rfl, h.monitor,
    fun hne => absurd rfl hne, (append_nil _).symm, rfl,
    { h with waiting := rfl }, fun _ => h.waiting, h.next_le,
    Nat.le_of_eq h.waiting.symm, nofun, h.waiting, by simp only [hwaiting]; omega, rfl,
    by simp [h.up, answerTo]⟩

/-- What is on its way to the receiver are chunks. -/
theorem Recovering.down_data (h : Recovering m D k n limit g r l) (hne : l.down ≠ []) :
    ∃ c rest, l.down = .data c :: rest := by
  obtain ⟨q, rest, hcons⟩ := exists_cons_of_ne_nil hne
  have hq : q ∈ firstSends m D k n g.handled ++ g.again.map fun j => .data (m.frame D j) := by
    rw [← h.down, hcons]
    exact mem_cons_self
  rcases mem_append.mp hq with hq | hq
  all_goals
    obtain ⟨j, -, rfl⟩ := mem_map.mp hq
    exact ⟨_, rest, hcons⟩

/-- The chunks that the monitor sends again are pending. -/
theorem Recovering.active (h : Recovering m D k n limit g r l) {j : ℕ} (hj : j ∈ g.late) :
    l.snd.active (.chunk (m.frame D j)) = true := by
  have hmem : j ∈ g.again ++ g.hand ++ g.late := mem_append_right _ hj
  have hge := h.above j hmem
  have hlt := h.smooth.lt hmem
  have hle := h.charges_le
  obtain ⟨older, hp, -⟩ := h.pending
  have hany : l.snd.ot.pending.any (·.chunkID == j) = true := by
    rw [any_eq_true]
    refine ⟨pendingChunk m D k g.charges (j - k), ?_, ?_⟩
    · rw [hp]
      exact mem_append_right _ (mem_map_of_mem (mem_range.mpr (by omega)))
    · simp only [pendingChunk, beq_iff_eq]
      omega
  simp only [Sender.active, h.failed, TransferBegin.frame, hany]
  rfl

/-- Chunk `k` was accepted. -/
def Accepted (k : ℕ) (l : Link) : Prop := ∃ r, l.rcv = some r ∧ k < r.tr.acceptedNextChunk

/-- A recovery in which nothing is left to do: all answers were handled, and chunk
    `k` was accepted. -/
theorem Recovering.stuck (h : Recovering m D k n limit g r l)
    (hst : Run.Stuck (Recovers k) l) : g.settled = n + 1 ∧ l.Accepted k := by
  have hready : r.reader = .ready := by
    by_cases hout : g.out = []
    · rw [h.reader, if_pos hout]
    · obtain ⟨reply, rest, hcons⟩ := exists_cons_of_ne_nil hout
      have hrep := h.reader
      rw [if_neg hout, hcons] at hrep
      exact absurd (.answer l r reply rest h.rcv hrep) (hst _)
  have hresending : l.snd.reader = .ready := by
    have hre := h.resending
    by_cases hbusy : g.busy = true
    · rw [if_pos hbusy] at hre
      cases hmap : g.hand.map (m.frame D) with
      | nil => exact absurd (.resent l (hmap ▸ hre)) (hst _)
      | cons c rest => exact absurd (.resend l c rest (hmap ▸ hre)) (hst _)
    · rwa [if_neg hbusy] at hre
  have hup : l.up = [] := by
    by_contra hne
    obtain ⟨reply, rest, hcons⟩ := exists_cons_of_ne_nil hne
    have hreply := (h.up_cons hcons).2.1
    rw [answerTo] at hreply
    split_ifs at hreply <;> subst hreply
    all_goals exact hst _ (.nack l _ rest hcons hresending)
  have hdown : l.down = [] := by
    by_contra hne
    obtain ⟨c, rest, hcons⟩ := h.down_data hne
    exact hst _ (.chunk l r c rest hcons h.rcv hready)
  have hmonitor : l.snd.monitor = [] := by
    cases hlate : g.late with
    | nil => rw [h.monitor, hlate]; rfl
    | cons j js =>
      have hmon := h.monitor
      rw [hlate, map_cons] at hmon
      exact absurd (.task l _ _ hmon (h.active (by simp [hlate]))) (hst _)
  have hq : l.Quiet r := ⟨hdown, hup, hready, hresending, hmonitor⟩
  refine ⟨(h.quiet hq).2.1, r, h.rcv, Nat.lt_of_le_of_ne h.past fun hacc => ?_⟩
  exact hst _ (.timeout l r h.rcv hq hacc.symm h.registered)

theorem recovers (h : Recovers k l l') : Run.Guarded (Step H m D) (Recovers k) l l' :=
  ⟨h.step, h⟩

/-- The refusal of chunk `k` does not cost the transfer: whatever the order in which
    the chunks and the refusals are handled, no refusal is an error, the transfer is
    not failed, and in the end chunk `k` is accepted. -/
structure Survives (H : Bytes → Bytes) (m : TransferBegin) (D : Bytes) (k : ℕ) (l : Link) :
    Prop where
  safe : ∀ l', ReflTransGen (Run.Guarded (Step H m D) (Recovers k)) l l' →
    l'.snd.ot.failed = none ∧ l'.Tolerates
  accepted : Run.Converges (Run.Guarded (Step H m D) (Recovers k))
    (Run.Guarded (Step H m D) (Recovers k)) (Accepted k) l

/-- With as many retries as chunks behind it, chunk `k` survives. -/
theorem Recovering.survives (hm : m.Covers D) (hsize : m.chunkSize < 2 ^ 32)
    (hb : k + n < m.chunkCount) (hone : 1 ≤ limit) (hlim : n ≤ limit)
    (h : Recovering m D k n limit g r l) : l.Survives H m D k := by
  have hstep : ∀ l l', (∃ g r, Recovering m D k n limit g r l) →
      Run.Guarded (Step H m D) (Recovers k) l l' → ∃ g r, Recovering m D k n limit g r l' := by
    rintro l l' ⟨g, r, h⟩ ⟨-, hst⟩
    obtain ⟨g', r', -, h'⟩ := h.step hm hsize hb hone (h.tolerates hlim) hst
    exact ⟨g', r', h'⟩
  refine ⟨fun l' hrun => ?_, ?_, fun l' hrun hst => ?_⟩
  · obtain ⟨g', r', h'⟩ := Run.invariant _ ⟨g, r, h⟩ hstep hrun
    exact ⟨h'.failed, h'.tolerates hlim⟩
  · refine Run.acc_of_rank
      (fun N l => ∃ g r, g.rank n = N ∧ Recovering m D k n limit g r l) ?_ ⟨g, r, rfl, h⟩
    rintro _ l l' ⟨g, r, rfl, h⟩ ⟨-, hst⟩
    obtain ⟨g', r', hlt, h'⟩ := h.step hm hsize hb hone (h.tolerates hlim) hst
    exact ⟨_, hlt, g', r', rfl, h'⟩
  · obtain ⟨g', r', h'⟩ := Run.invariant _ ⟨g, r, h⟩ hstep hrun
    exact (h'.stuck fun l'' hst' => hst l'' (recovers hst')).2

/-- Where chunk `k` survives, it has as many retries as there are chunks behind it:
    a run that goes on to the end charges it one for each of them. -/
theorem Recovering.le_limit (hm : m.Covers D) (hsize : m.chunkSize < 2 ^ 32)
    (hb : k + n < m.chunkCount) (hone : 1 ≤ limit) (h : Recovering m D k n limit g r l)
    (hsurv : l.Survives H m D k) : n ≤ limit := by
  obtain ⟨l', hrun, hst⟩ := Run.exists_stuck hsurv.accepted.terminates
  have hstep : ∀ l₁ l₂, ReflTransGen (Run.Guarded (Step H m D) (Recovers k)) l l₁ ∧
      (∃ g r, Recovering m D k n limit g r l₁) → Run.Guarded (Step H m D) (Recovers k) l₁ l₂ →
      ReflTransGen (Run.Guarded (Step H m D) (Recovers k)) l l₂ ∧
        ∃ g r, Recovering m D k n limit g r l₂ := by
    rintro l₁ l₂ ⟨hrun, g, r, h⟩ hst
    obtain ⟨g', r', -, h'⟩ := h.step hm hsize hb hone (hsurv.safe l₁ hrun).2 hst.2
    exact ⟨hrun.tail hst, g', r', h'⟩
  obtain ⟨-, g', r', h'⟩ := Run.invariant _ ⟨.refl, g, r, h⟩ hstep hrun
  have hsettled := (h'.stuck fun l'' hst' => hst l'' (recovers hst')).1
  have hwithin := h'.within
  rcases h'.charged with hc | ⟨hn, -⟩ <;> omega

/-- The refusal of chunk `k` costs it one retry for each chunk that was in flight
    behind it: exactly where it has as many, the transfer goes on, if no further chunk is
    sent before it is accepted. -/
theorem refused_chunk_survives_iff (hm : m.Covers D) (hsize : m.chunkSize < 2 ^ 32)
    (h : InFlight m D k n r l) (hlim : 1 ≤ l.snd.ot.retryLimit) :
    (refuse m D k n r l).Survives H m D k ↔ n ≤ l.snd.ot.retryLimit :=
  ⟨(h.recovering hm hsize).le_limit hm hsize h.bound hlim,
    fun hle => (h.recovering hm hsize).survives hm hsize h.bound hlim hle⟩

/-- Two chunks are on their way. -/
theorem two_inFlight : ∃ l r, ReflTransGen (Step id (announce [7, 8] 1 0 []) [7, 8])
    (start (registerOutgoing 1 1 2 2 false (announce [7, 8] 1 0 []))) l ∧
      InFlight (announce [7, 8] 1 0 []) [7, 8] 0 1 r l ∧ l.snd.ot.retryLimit = 1 :=
  ⟨_, _,
    .trans (run_opened _ 2 rfl) <|
    .trans (run_sent rfl (by decide) rfl rfl) <|
    run_sent rfl (by decide) rfl rfl,
    ⟨⟨[], rfl, nofun⟩, rfl, rfl, rfl, rfl, rfl, rfl, rfl, rfl, rfl, rfl, rfl, rfl, rfl,
      Nat.le_refl 0, by decide, by decide⟩, rfl⟩

theorem two_survive : ∃ l r, ReflTransGen (Step id (announce [7, 8] 1 0 []) [7, 8])
    (start (registerOutgoing 1 1 2 2 false (announce [7, 8] 1 0 []))) l ∧
      InFlight (announce [7, 8] 1 0 []) [7, 8] 0 1 r l ∧
      (refuse (announce [7, 8] 1 0 []) [7, 8] 0 1 r l).Survives id (announce [7, 8] 1 0 []) [7, 8]
        0 := by
  obtain ⟨l, r, hrun, h, hlimit⟩ := two_inFlight
  have hsurv := refused_chunk_survives_iff (H := id) (covers_announce rfl) (by decide) h
    (by rw [hlimit])
  exact ⟨l, r, hrun, h, hsurv.mpr (by rw [hlimit])⟩

/-- Three chunks are on their way with one retry each, and the first is refused: the
    refusals of the two others charge it two. -/
theorem refused_chunk_lost : ∃ l r l' x rest,
    ReflTransGen (Step id (announce [7, 8, 9] 1 0 []) [7, 8, 9])
      (start (registerOutgoing 1 1 3 3 false (announce [7, 8, 9] 1 0 []))) l ∧
    InFlight (announce [7, 8, 9] 1 0 []) [7, 8, 9] 0 2 r l ∧ 2 < l.snd.ot.maxInFlight ∧
    ReflTransGen (Run.Guarded (Step id (announce [7, 8, 9] 1 0 []) [7, 8, 9]) (Recovers 0))
      (refuse (announce [7, 8, 9] 1 0 []) [7, 8, 9] 0 2 r l) l' ∧
    l'.up = .nack x :: rest ∧
    (l'.snd.ot.handleNack x).2.2 = some "retry limit exceeded for transfer=1 chunk=0" :=
  ⟨_, _, _, _, _,
    .trans (run_opened _ 3 rfl) <|
    .trans (run_sent rfl (by decide) rfl rfl) <|
    .trans (run_sent rfl (by decide) rfl rfl) <|
    run_sent rfl (by decide) rfl rfl,
    ⟨⟨[], rfl, nofun⟩, rfl, rfl, rfl, rfl, rfl, rfl, rfl, rfl, rfl, rfl, rfl, rfl, rfl,
      Nat.le_refl 0, by decide, by decide⟩, by decide,
    .head (recovers (.answer _ _ _ _ rfl rfl)) <|
    .head (recovers (.chunk _ _ _ _ rfl rfl rfl)) <|
    .head (recovers (.answer _ _ _ _ rfl rfl)) <|
    .head (recovers (.chunk _ _ _ _ rfl rfl rfl)) <|
    .head (recovers (.answer _ _ _ _ rfl rfl)) <|
    .head (recovers (.nack _ _ _ rfl rfl)) <|
    .head (recovers (.resent _ rfl)) <|
    .head (recovers (.nack _ _ _ rfl rfl)) <|
    .head (recovers (.resend _ _ _ rfl)) <|
    .single (recovers (.resent _ rfl)), rfl, rfl⟩

end Link

end Etp.Transfer
