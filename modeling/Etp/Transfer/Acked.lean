import Etp.Transfer.InFlight

/-!
# What is acknowledged

`ackedBytes` counts the bytes before the first chunk of a transfer and those that
acknowledgements took from the pending chunks. It is written in two places: by
`applyAck`, and by `handleIncomingTransferState` for the decision to resume the
transfer at an offset, which is accepted wherever the transfer stands.

In the runs in which the peer decides once, before the first chunk is sent
(`Timely`), `ackedBytes` grows, and with `pendingBytes` it is the number of bytes of
the source that were read (`acked_grows`). In others it may fall
(`acked_falls`); the next acknowledgement of an honest peer then does not match it.
-/

namespace Etp.Transfer

open Relation List OutgoingTransfer

namespace Event

/-- The chunks that acknowledgements took from the pending ones. -/
def acknowledged (l : List Event) : List ℕ :=
  l.flatMap fun
    | taken chunks => chunks
    | _ => []

/-- The offset that is accepted. -/
def resume? : Event → Option ℕ
  | resume receivedBytes => some receivedBytes
  | _ => none

/-- The offsets that the peer accepted. -/
def resumes (l : List Event) : List ℕ := l.filterMap resume?

theorem acknowledged_append (l l' : List Event) :
    acknowledged (l ++ l') = acknowledged l ++ acknowledged l' := flatMap_append

theorem resumes_append (l l' : List Event) : resumes (l ++ l') = resumes l ++ resumes l' :=
  filterMap_append

theorem acknowledged_repeated {e : Event} (he : e.repeated = true) : acknowledged [e] = [] := by
  cases e <;> first | rfl | cases he

theorem resumes_repeated {e : Event} (he : e.repeated = true) : resumes [e] = [] := by
  cases e <;> first | rfl | cases he

end Event

/-! ## The record -/

namespace OutgoingTransfer

variable (ot : OutgoingTransfer) (a : Ack)

/-- What an acknowledgement takes from the pending chunks is what it counts. -/
theorem handleAck_taken : (ot.handleAck a).1.ackedBytes = ot.ackedBytes + bytes (ot.taken a) ∧
    bytes (ot.handleAck a).1.pending + bytes (ot.taken a) = bytes ot.pending := by
  rcases ot.handleAck_cases a with heq | ⟨failed, heq⟩
  · have hnone : ot.taken a = [] := by
      rw [taken, heq]
      exact filter_eq_nil_iff.mpr fun c hc => by simp [hc]
    rw [hnone, heq]
    exact ⟨rfl, rfl⟩
  · have hrange : ot.taken a = ot.pending.filter (inRange a.chunkFrom a.chunkTo) := by
      rw [taken, heq]
      refine filter_congr fun c hc => ?_
      simp [mem_filter, hc]
    have hsplit := bytes_filter (inRange a.chunkFrom a.chunkTo) ot.pending
    rw [hrange, heq]
    exact ⟨rfl, (Nat.add_comm _ _).trans hsplit⟩

end OutgoingTransfer

namespace Logged

open Upload Event

variable {m : TransferBegin} {D : Bytes} {s s' : Logged}
variable {ot ot' : OutgoingTransfer} {b b' : Body} {l log : List Event}

/-- The number of bytes of chunks. -/
def sizes (m : TransferBegin) (D : Bytes) (chunks : List ℕ) : ℕ :=
  (chunks.map fun k => (m.chunk D k).length).sum

theorem sizes_append (ks ks' : List ℕ) : sizes m D (ks ++ ks') = sizes m D ks + sizes m D ks' := by
  rw [sizes, map_append, sum_append]
  rfl

theorem sizes_singleton (k : ℕ) : sizes m D [k] = (m.chunk D k).length := Nat.add_zero _

theorem bytes_eq_sizes {l : List SentChunk} (h : ∀ c ∈ l, c.payload = m.chunk D c.chunkID) :
    bytes l = sizes m D (l.map SentChunk.chunkID) := by
  rw [bytes, sizes, List.map_map]
  exact congrArg List.sum (map_congr_left fun c hc => congrArg List.length (h c hc))

theorem Genuine.bytes_taken (h : Genuine m D ot) (a : Ack) :
    bytes (ot.taken a) =
      sizes m D (acknowledged [.taken ((ot.taken a).map SentChunk.chunkID)]) := by
  have hchunks : acknowledged [.taken ((ot.taken a).map SentChunk.chunkID)] =
      (ot.taken a).map SentChunk.chunkID := append_nil _
  rw [hchunks]
  exact bytes_eq_sizes fun c hc => h c (mem_filter.mp hc).1

/-- The chunks that were admitted are pending or acknowledged. -/
theorem Effect.sent (h : Effect m D ot b l ot' b') (hg : Genuine m D ot)
    (hs : bytes ot.pending + sizes m D (acknowledged log) =
      sizes m D (admitted log)) :
    bytes ot'.pending + sizes m D (acknowledged (log ++ l)) =
      sizes m D (admitted (log ++ l)) := by
  rw [acknowledged_append, admitted_append, sizes_append, sizes_append]
  cases h with
  | quiet _ _ halike _ =>
    rw [halike.bytes]
    exact hs
  | repeated e _ he _ =>
    rw [acknowledged_repeated he, admitted_silent (silent_of_repeated he)]
    exact hs
  | admission k _ _ =>
    have hsum : bytes [⟨k, m.chunk D k, 0⟩] =
        sizes m D (admitted [.admission k]) := rfl
    show bytes (ot.pending ++ [⟨k, m.chunk D k, 0⟩]) + (_ + 0) = _
    rw [bytes_append, hsum]
    omega
  | first | window | resumed => exact hs
  | ack a =>
    have htaken := hg.bytes_taken a
    have hsplit := (ot.handleAck_taken a).2
    show _ = sizes m D (admitted log) + 0
    omega

/-- `ackedBytes` is the offset that was accepted and what acknowledgements took. -/
theorem Effect.acked (h : Effect m D ot b l ot' b') (hg : Genuine m D ot)
    (ha : ot.ackedBytes = (resumes log).sum + sizes m D (acknowledged log))
    (hresume : ∀ n, l = [.resume n] → resumes log = [] ∧ sizes m D (acknowledged log) = 0) :
    ot'.ackedBytes = (resumes (log ++ l)).sum + sizes m D (acknowledged (log ++ l)) := by
  rw [acknowledged_append, resumes_append, sizes_append, sum_append]
  cases h with
  | quiet _ _ halike _ =>
    rw [halike.ackedBytes]
    exact ha
  | repeated e _ he _ =>
    rw [acknowledged_repeated he, resumes_repeated he]
    exact ha
  | admission | first | window => exact ha
  | ack a =>
    have htaken := hg.bytes_taken a
    have hcount := (ot.handleAck_taken a).1
    show _ = (resumes log).sum + 0 + _
    omega
  | resumed n =>
    obtain ⟨hnone, hzero⟩ := hresume n rfl
    rw [hnone, hzero]
    show n = 0 + (n + 0) + (0 + 0)
    omega

/-! ## Runs with one decision -/

/-- A step in which the peer accepts an offset only while the sender waits for its decision. -/
def Timely (s s' : Logged) : Prop :=
  ∀ receivedBytes, s'.log = s.log ++ [.resume receivedBytes] →
    s.up.phase ≠ .body ∧ s.up.resumeDecided = false

/-- What was decided, before the transfer goes on at the offset. -/
structure Decision (m : TransferBegin) (s : Logged) : Prop where
  early : s.up.phase ≠ .body → admitted s.log = []
  undecided : s.up.resumeDecided = false → resumes s.log = []
  accepted : s.up.resumeAccepted = true → resumes s.log = [s.up.resumeBytes] ∧
    transferOffsetForChunk m.totalSize m.chunkSize s.up.resumeChunk = some s.up.resumeBytes
  opening : ∀ receivedBytes nextChunk, s.up.phase = .opening receivedBytes nextChunk →
    s.up.resumeDecided = true ∧ resumes s.log = [receivedBytes] ∧
    transferOffsetForChunk m.totalSize m.chunkSize nextChunk = some receivedBytes
  sendable : s.up.phase = .deciding ∨ (∃ n k, s.up.phase = .opening n k) → m.sendable = true
  once : (resumes s.log).length ≤ 1

/-- A step that leaves the decision as it is. -/
structure SameDecision (u u' : Upload) : Prop where
  resumeDecided : u'.resumeDecided = u.resumeDecided
  resumeAccepted : u'.resumeAccepted = u.resumeAccepted
  resumeBytes : u'.resumeBytes = u.resumeBytes
  resumeChunk : u'.resumeChunk = u.resumeChunk

theorem sameDecision_answer {a : Answer} {u u' : Upload} (h : Upload.Step m D u (some a) u')
    (ha : ∀ n k, a ≠ .resumeAccepted n k) : SameDecision u u' := by
  cases h with
  | reply | invalid => exact ⟨rfl, rfl, rfl, rfl⟩
  | resumeAccepted n k _ => exact absurd rfl (ha n k)
  | resumeRejected reason _ =>
    rw [handleResumeRejected]
    split_ifs <;> exact ⟨rfl, rfl, rfl, rfl⟩

theorem phase_handleResumeAccepted (u : Upload) (n k : ℕ) :
    (u.handleResumeAccepted m n k).phase = u.phase := by
  simp only [handleResumeAccepted]
  split_ifs <;> rfl

theorem phase_answer {a : Answer} {u u' : Upload} (h : Upload.Step m D u (some a) u') :
    u'.phase = u.phase := by
  cases h with
  | reply | invalid => rfl
  | resumeAccepted n k _ => exact phase_handleResumeAccepted u n k
  | resumeRejected reason _ =>
    rw [handleResumeRejected]
    split_ifs <;> rfl

theorem resumes_ownEvents (b b' : Body) (label : Sender.Label) :
    resumes (ownEvents b b' label) = [] := by
  unfold ownEvents
  split
  · split_ifs <;> rfl
  · rfl
  · split
    · split_ifs <;> rfl
    · rfl
  · rfl

theorem resumes_answerEvents {u : Upload} {a : Answer} (ha : ∀ n k, a ≠ .resumeAccepted n k) :
    resumes (answerEvents m u a) = [] := by
  unfold answerEvents
  split
  any_goals split_ifs <;> rfl
  · next n k => exact absurd rfl (ha n k)
  · rfl

/-- A step that changes neither the decision nor the phase. -/
theorem Decision.same (h : Decision m s) (hu : SameDecision s.up s'.up)
    (hphase : s'.up.phase = s.up.phase) (hresumes : resumes s'.log = resumes s.log)
    (hearly : s.up.phase ≠ .body → admitted s'.log = admitted s.log) : Decision m s' where
  early hp := by
    rw [hphase] at hp
    exact (hearly hp).trans (h.early hp)
  undecided hd := by
    rw [hu.resumeDecided] at hd
    exact hresumes.trans (h.undecided hd)
  accepted ha := by
    rw [hu.resumeAccepted] at ha
    rw [hresumes, hu.resumeBytes, hu.resumeChunk]
    exact h.accepted ha
  opening n k hp := by
    rw [hphase] at hp
    rw [hresumes, hu.resumeDecided]
    exact h.opening n k hp
  sendable := by
    rw [hphase]
    exact h.sendable
  once := by
    rw [hresumes]
    exact h.once

/-- No chunk is admitted before the transfer goes on. -/
theorem Effect.admitted_idle (h : Effect m D ot .begin l ot' b') : admitted l = [] := by
  cases h with
  | repeated e _ he _ => exact admitted_silent (silent_of_repeated he)
  | admission k hk _ => cases hk
  | quiet | first | ack | window | resumed => rfl

theorem decision_resumed {n k : ℕ} (h : Decision m s)
    (ht : Timely s ⟨s.up.handleResumeAccepted m n k,
      s.log ++ answerEvents m s.up (.resumeAccepted n k)⟩) :
    Decision m ⟨s.up.handleResumeAccepted m n k,
      s.log ++ answerEvents m s.up (.resumeAccepted n k)⟩ := by
  by_cases hvalid : s.up.snd.registered = true ∧
      transferOffsetForChunk m.totalSize m.chunkSize k = some n
  · have hevents : answerEvents m s.up (.resumeAccepted n k) = [.resume n] := if_pos hvalid
    rw [hevents] at ht ⊢
    obtain ⟨hphase, hundecided⟩ := ht n rfl
    have hresumes : resumes (s.log ++ [.resume n]) = [n] := by
      rw [resumes_append, h.undecided hundecided]
      rfl
    have hup : s.up.handleResumeAccepted m n k = { s.up with
        snd := { s.up.snd with ot := { s.up.snd.ot with ackedBytes := n } }
        resumeDecided := true
        resumeAccepted := true
        resumeBytes := n
        resumeChunk := k
        accepts := s.up.accepts ++ [(n, k)] } := by
      simp only [handleResumeAccepted, hvalid, Bool.not_true, Bool.false_eq_true, if_false, ne_eq,
        not_true_eq_false]
    rw [hup]
    refine ⟨fun hp => ?_, by simp, fun _ => ⟨hresumes, hvalid.2⟩, fun n' k' hp => ?_, h.sendable,
      ?_⟩
    · show admitted (s.log ++ [.resume n]) = []
      rw [admitted_append, h.early hp]
      rfl
    · -- an offset that the sender goes on at was decided before
      have hdecided := (h.opening n' k' hp).1
      rw [hundecided] at hdecided
      cases hdecided
    · exact (congrArg List.length hresumes).le
  · have hevents : answerEvents m s.up (.resumeAccepted n k) = [] := if_neg hvalid
    rw [hevents, append_nil]
    refine h.same ?_ (phase_handleResumeAccepted s.up n k) rfl fun _ => rfl
    simp only [handleResumeAccepted]
    split_ifs with hreg hoffset
    · exact ⟨rfl, rfl, rfl, rfl⟩
    · exact ⟨rfl, rfl, rfl, rfl⟩
    · exact absurd ⟨by simpa using hreg, not_not.mp hoffset⟩ hvalid

theorem decision_step (h : Decision m s) (hs : Step m D s s') (ht : Timely s s')
    (hidle : s.up.phase ≠ .body → s.up.snd.body = .begin) : Decision m s' := by
  have hearly : s.up.phase ≠ .body → admitted s'.log = admitted s.log := by
    intro hp
    obtain ⟨l, hlog, he⟩ := effect_of_step hs hidle
    rw [hidle hp] at he
    rw [hlog, admitted_append, he.admitted_idle, append_nil]
  cases hs with
  | own label snd hs hl hp =>
    refine h.same ⟨rfl, rfl, rfl, rfl⟩ rfl ?_ hearly
    show resumes (s.log ++ _) = _
    rw [resumes_append, resumes_ownEvents, append_nil]
  | answer a u hs =>
    by_cases ha : ∃ n k, a = .resumeAccepted n k
    · obtain ⟨n, k, rfl⟩ := ha
      cases hs with
      | resumeAccepted n k _ => exact decision_resumed h ht
    · simp only [not_exists] at ha
      refine h.same (sameDecision_answer hs ha) (phase_answer hs) ?_ hearly
      show resumes (s.log ++ _) = _
      rw [resumes_append, resumes_answerEvents ha, append_nil]
  | phase u hs hne =>
    cases hs with
    | own label snd hs hl hp => exact absurd rfl hne
    | requested n k hp hsend _ =>
      exact ⟨fun _ => h.early (by simp [hp]), h.undecided, h.accepted, nofun, fun _ => hsend,
        h.once⟩
    | decided hp hd _ haccepted =>
      refine ⟨fun _ => h.early (by simp [hp]), h.undecided, h.accepted, fun n k heq => ?_,
        fun _ => h.sendable (.inl hp), h.once⟩
      obtain ⟨rfl, rfl⟩ := Phase.opening.inj heq
      exact ⟨hd, h.accepted haccepted⟩
    | opened | giveUp =>
      exact ⟨fun hbody => absurd rfl hbody, h.undecided, h.accepted, nofun,
        fun hp => by simp at hp, h.once⟩

/-- What is counted in a run with one decision. -/
structure Tally (m : TransferBegin) (D : Bytes) (s : Logged) : Prop where
  idle : s.up.phase ≠ .body → s.up.snd.body = .begin
  inFlight : s.up.snd.ot.InFlight
  behind : Behind m s.up.snd.ot s.up.snd.body
  genuine : Genuine m D s.up.snd.ot
  decision : Decision m s
  sent : bytes s.up.snd.ot.pending + sizes m D (acknowledged s.log) =
    sizes m D (admitted s.log)
  acked : s.up.snd.ot.ackedBytes = (resumes s.log).sum + sizes m D (acknowledged s.log)
  position : s.up.phase = .body → ∀ k, upcoming s.up.snd.body = some k →
    (resumes s.log).sum + sizes m D (admitted s.log) = m.offset k

/-- The goroutine of the transfer starts with the first chunk. -/
theorem start_own {label : Sender.Label} {snd snd' : Sender} {k : ℕ}
    (h : Sender.Step m D snd label snd') (hb : snd.body = .begin) (hb' : snd'.body = .next k) :
    k = 0 := by
  cases h with
  | begin => exact (Body.next.inj hb').symm
  | encode j _ hj _ _ =>
    rw [hb] at hj
    cases hj
  | reply r _ =>
    rw [Sender.body_handleReply, hb] at hb'
    cases hb'
  | push | finish | sendEnd | acked | giveUp => cases hb'
  | unregister | resend | resent | tick | task | skip | fail =>
    have heq : snd.body = .next k := hb'
    rw [hb] at heq
    cases heq

/-- What was admitted is what is before the chunk that is admitted next. -/
theorem Effect.position (h : Effect m D ot b l ot' b') (htotal : m.totalSize = D.length) {n : ℕ}
    (hstart : ∀ k, b = .begin → b' = .next k → k = 0)
    (hp : ∀ k, upcoming b = some k → n + sizes m D (admitted log) = m.offset k) :
    ∀ k, upcoming b' = some k → n + sizes m D (admitted (log ++ l)) = m.offset k := by
  have hadvances : Advances b b' → ∀ k, upcoming b' = some k →
      n + sizes m D (admitted log) = m.offset k := by
    intro hadv k hk
    cases hadv with
    | stay => exact hp k hk
    | start j =>
      obtain rfl := hstart j rfl rfl
      exact hp k hk
    | finish | wait | stop => cases hk
  intro k hk
  rw [admitted_append, sizes_append]
  cases h with
  | quiet _ _ _ hadv => exact hadvances hadv k hk
  | repeated e _ he hadv =>
    rw [admitted_silent (silent_of_repeated he)]
    exact hadvances hadv k hk
  | admission j hj _ =>
    rw [hj] at hp
    obtain rfl : j + 1 = k := Option.some.inj hk
    have hsucc : m.offset (j + 1) = m.offset j + (m.chunk D j).length := by
      rw [TransferBegin.offset, TransferBegin.offset, htotal]
      exact Piece.offset_succ
    have hone : sizes m D (admitted [.admission j]) = (m.chunk D j).length := sizes_singleton j
    rw [hsucc, ← hp j rfl, hone, Nat.add_assoc]
  | first j hj =>
    rw [hj] at hp
    exact hp k hk
  | ack | window | resumed => exact hp k hk

theorem position_step (htotal : m.totalSize = D.length) (hcov : m.sendable = true → m.Covers D)
    (h : Tally m D s) (hs : Step m D s s') (ht : Timely s s') :
    s'.up.phase = .body → ∀ k, upcoming s'.up.snd.body = some k →
      (resumes s'.log).sum + sizes m D (admitted s'.log) = m.offset k := by
  intro hphase
  cases hs with
  | own label snd hs hl hp =>
    have hposition := h.position hphase
    rw [show resumes (s.log ++ ownEvents s.up.snd.body snd.body label) = resumes s.log by
      rw [resumes_append, resumes_ownEvents, append_nil]]
    exact (effect_own hs hl).position htotal (fun k hb hb' => start_own hs hb hb') hposition
  | answer a u hs =>
    have hbody : s.up.phase = .body := (phase_answer hs).symm.trans hphase
    have hposition := h.position hbody
    -- an offset that is accepted now would come too late
    have hevents : resumes (answerEvents m s.up a) = [] := by
      by_cases ha : ∃ n k, a = .resumeAccepted n k
      · obtain ⟨n, k, rfl⟩ := ha
        rw [answerEvents]
        split_ifs with hvalid
        · exact absurd hbody (ht n (by rw [answerEvents, if_pos hvalid])).1
        · rfl
      · exact resumes_answerEvents fun n k heq => ha ⟨n, k, heq⟩
    rw [show resumes (s.log ++ answerEvents m s.up a) = resumes s.log by
      rw [resumes_append, hevents, append_nil]]
    have hsame : u.snd.body = s.up.snd.body := by
      cases hs with
      | reply r snd hs => cases hs with | reply r _ => exact Sender.body_handleReply _ r
      | resumeAccepted n k _ =>
        simp only [handleResumeAccepted]
        split_ifs <;> rfl
      | resumeRejected reason _ =>
        rw [handleResumeRejected]
        split_ifs <;> rfl
      | invalid => rfl
    refine (effect_answer hs).position htotal (fun k hb hb' => ?_) hposition
    rw [hsame, hb] at hb'
    cases hb'
  | phase u hs hne =>
    cases hs with
    | own label snd hs hl hp => exact absurd rfl hne
    | requested | decided => cases hphase
    | opened n j hp =>
      intro k hk
      obtain rfl : j = k := Option.some.inj hk
      obtain ⟨-, hresumes, hoffset⟩ := h.decision.opening n j hp
      have hsend := h.decision.sendable (.inr ⟨n, j, hp⟩)
      rw [show admitted s.log = [] from h.decision.early (by simp [hp]), hresumes,
        ← offset_of_transferOffsetForChunk (hcov hsend) hoffset]
      show n + 0 + 0 = n
      omega
    | giveUp => simp [upcoming]

theorem tally_step (htotal : m.totalSize = D.length) (hcov : m.sendable = true → m.Covers D)
    (h : Tally m D s) (hs : Step m D s s') (ht : Timely s s') : Tally m D s' := by
  obtain ⟨l, hlog, he⟩ := effect_of_step hs h.idle
  refine ⟨idle_step hs h.idle, he.inFlight h.inFlight h.behind, he.behind htotal h.behind,
    he.genuine h.genuine, decision_step h.decision hs ht h.idle, ?_, ?_,
    position_step htotal hcov h hs ht⟩
  · rw [hlog]
    exact he.sent h.genuine h.sent
  · rw [hlog]
    refine he.acked h.genuine h.acked fun n hl => ?_
    -- nothing was admitted when an offset is accepted, so that nothing is acknowledged
    obtain ⟨hphase, hundecided⟩ := ht n (hl ▸ hlog)
    have hsent := h.sent
    rw [h.decision.early hphase] at hsent
    exact ⟨h.decision.undecided hundecided, (Nat.add_eq_zero_iff.mp hsent).2⟩

theorem tally_started {id retryLimit maxInFlight maxInFlightBytes : ℕ} {hasRemoteWindow : Bool}
    (h : Started (registerOutgoing id retryLimit maxInFlight maxInFlightBytes hasRemoteWindow m)
      s) : Tally m D s := by
  have hflight : Flight m D maxInFlight maxInFlightBytes s := flight_started h
  have hzero : m.offset 0 = 0 := Piece.offset_zero
  rcases h with rfl | ⟨n, k, rfl⟩
  · refine ⟨hflight.idle, hflight.inFlight, hflight.behind, nofun, ?_, rfl, rfl, fun _ k hk => ?_⟩
    · exact ⟨fun _ => rfl, fun _ => rfl, nofun, nofun, fun hp => by simp [fresh] at hp,
        Nat.zero_le 1⟩
    · obtain rfl : 0 = k := Option.some.inj hk
      exact hzero.symm
  · refine ⟨hflight.idle, hflight.inFlight, hflight.behind, nofun, ?_, rfl, rfl, nofun⟩
    exact ⟨fun _ => rfl, fun _ => rfl, nofun, nofun, fun hp => by simp [Upload.again] at hp,
      Nat.zero_le 1⟩

/-- In every run of a sender whose peer accepts an offset only while the sender waits for the
    decision, and otherwise sends what it likes, `ackedBytes` never falls; it is the offset the
    transfer started at, zero or the one that was accepted, and the bytes of the chunks that
    acknowledgements took from the pending ones; and with `pendingBytes` it is the number of bytes
    of the source up to the chunk that is read next. -/
theorem acked_grows (D : Bytes) (chunkSize flags : ℕ) (checksum : Bytes)
    (id retryLimit maxInFlight maxInFlightBytes : ℕ) (hasRemoteWindow : Bool) (s₀ s : Logged) :
    let m := announce D chunkSize flags checksum
    let ot := s.up.snd.ot
    Started (registerOutgoing id retryLimit maxInFlight maxInFlightBytes hasRemoteWindow m) s₀ →
    ReflTransGen (Run.Guarded (Step m D) Timely) s₀ s →
    (∀ s', Run.Guarded (Step m D) Timely s s' → ot.ackedBytes ≤ s'.up.snd.ot.ackedBytes) ∧
    (∃ start, (resumes s.log = [] ∧ start = 0 ∨ resumes s.log = [start]) ∧
      ot.ackedBytes = start + sizes m D (acknowledged s.log) ∧
      ot.ackedBytes + ot.pendingBytes = start + sizes m D (admitted s.log)) ∧
    (s.up.phase = .body → ∀ k, upcoming s.up.snd.body = some k →
      ot.ackedBytes + ot.pendingBytes = m.offset k) := by
  intro m ot hstart hrun
  have hcov : m.sendable = true → m.Covers D := covers_announce
  have htally : Tally m D s := Run.invariant _ (tally_started hstart)
    (fun _ _ h hs => tally_step rfl hcov h hs.1 hs.2) hrun
  have hsum : ot.ackedBytes + ot.pendingBytes =
      (resumes s.log).sum + sizes m D (admitted s.log) := by
    rw [← htally.sent, show ot.ackedBytes = _ from htally.acked,
      show ot.pendingBytes = _ from htally.inFlight.pendingBytes]
    omega
  refine ⟨fun s' hs => ?_, ⟨(resumes s.log).sum, ?_, htally.acked, hsum⟩, fun hphase k hk => ?_⟩
  · -- the log grows, and with it what `ackedBytes` is the sum of
    have htally' := tally_step rfl hcov htally hs.1 hs.2
    obtain ⟨l, hlog, -⟩ := effect_of_step hs.1 htally.idle
    rw [show ot.ackedBytes = _ from htally.acked, htally'.acked, hlog, resumes_append,
      acknowledged_append, sizes_append, sum_append]
    omega
  · have honce := htally.decision.once
    cases hresumes : resumes s.log with
    | nil => exact .inl ⟨rfl, rfl⟩
    | cons n rest =>
      rw [hresumes] at honce
      obtain rfl : rest = [] := length_eq_zero_iff.mp (by simpa using honce)
      exact .inr rfl
  · rw [hsum]
    exact htally.position hphase k hk

/-- A byte of two is sent and acknowledged. -/
theorem half_acked_run : ∃ s, ReflTransGen (Run.Guarded (Step (announce [7, 8] 1 0 []) [7, 8])
      Timely) ⟨fresh (registerOutgoing 1 1 2 2 false (announce [7, 8] 1 0 [])), []⟩ s ∧
    s.up.snd.ot.ackedBytes = 1 ∧ s.up.snd.ot.failed = none ∧ s.up.snd.registered = true ∧
    s.up.snd.reader = .ready ∧ s.up.phase = .body ∧ s.up.snd.body = .next 1 :=
  ⟨_,
    .head ⟨.own _ _ (.begin _ rfl rfl) nofun (.inl rfl), nofun⟩ <|
    .head ⟨.own _ _ (.push _ 0 rfl (by decide) rfl rfl) nofun (.inl rfl), nofun⟩ <|
    .head ⟨.own _ _ (.encode _ 0 [7] rfl rfl fun _ => rfl) nofun (.inl rfl), nofun⟩ <|
    .single ⟨.answer _ _ (.reply (.ack ⟨0, 0, 1⟩) _ (.reply _ _ rfl)), nofun⟩,
    rfl, rfl, rfl, rfl, rfl, rfl⟩

/-- An accepted offset of zero, of a transfer that was never to be resumed, takes back the
    acknowledged byte. -/
theorem acked_falls : ∃ s s', ReflTransGen (Step (announce [7, 8] 1 0 []) [7, 8])
      ⟨fresh (registerOutgoing 1 1 2 2 false (announce [7, 8] 1 0 [])), []⟩ s ∧
    Step (announce [7, 8] 1 0 []) [7, 8] s s' ∧ s'.up.snd.ot.failed = none ∧
    s'.up.snd.ot.ackedBytes < s.up.snd.ot.ackedBytes := by
  obtain ⟨s, hrun, hacked, hfailed, hreg, hready, -, -⟩ := half_acked_run
  have hoffset : transferOffsetForChunk (announce [7, 8] 1 0 []).totalSize
      (announce [7, 8] 1 0 []).chunkSize 0 = some 0 := by decide
  refine ⟨s, _, Run.of_guarded hrun, .answer _ _ (.resumeAccepted 0 0 hready), ?_⟩
  simp only [handleResumeAccepted, hreg, hoffset, Bool.not_true, Bool.false_eq_true, if_false,
    ne_eq, not_true_eq_false]
  exact ⟨hfailed, by rw [hacked]; exact Nat.zero_lt_one⟩

theorem acked_grows_half : ∃ s, ReflTransGen (Run.Guarded (Step (announce [7, 8] 1 0 []) [7, 8])
      Timely) ⟨fresh (registerOutgoing 1 1 2 2 false (announce [7, 8] 1 0 [])), []⟩ s ∧
    s.up.snd.ot.ackedBytes = 1 ∧ s.up.snd.ot.ackedBytes + s.up.snd.ot.pendingBytes = 1 := by
  obtain ⟨s, hrun, hacked, -, -, -, hphase, hbody⟩ := half_acked_run
  have hnext : upcoming s.up.snd.body = some 1 := by rw [hbody]; rfl
  exact ⟨s, hrun, hacked,
    (acked_grows [7, 8] 1 0 [] 1 1 2 2 false _ s (.inl rfl) hrun).2.2 hphase 1 hnext⟩

end Logged

end Etp.Transfer
