import Etp.Transfer.Recovery

/-!
# The invariant of a recovery

`Recovering` says where the chunks and their refusals are. The chunks `k`, …,
`k + n` arrive in order and are answered one by one; the answers reach the sender
in the same order, and the one to `k + i` charges chunk `k` its `i`-th retry and
sends the chunks `k`, …, `k + i - 1` again, which the receiver can accept.

Every step leads to a stage of smaller rank, but for a range that arrives when
chunk `k` has no retry left.
-/

namespace Etp.Transfer

open OutgoingTransfer List

variable {m : TransferBegin} {D : Bytes}

namespace Link

/-! ## The invariant -/

/-- The answer to the chunk `k + i`: the refusal of `k`, and then one missing range
    for each chunk behind it. -/
def answerTo (k i : ℕ) : Reply :=
  if i = 0 then .nack ⟨k, k, .flowControl⟩ else .nack ⟨k, k + i - 1, .missingChunk⟩

/-- How far a recovery has come. Of the chunks `k`, …, `k + n`, `handled` have arrived
    for the first time; `settled` of their answers were handled, which has charged
    chunk `k` the number `charges` of retries. The chunks `again` are on their way for
    another time, `hand` and `late` are still with the reader and with the monitor of
    the sender, and `out` are the answers still with the reader of the receiver. -/
structure Stage where
  handled : ℕ
  settled : ℕ
  charges : ℕ
  again : List ℕ
  hand : List ℕ
  busy : Bool
  late : List ℕ
  out : List Reply

/-- The invariant of a recovery. -/
structure Recovering (m : TransferBegin) (D : Bytes) (k n limit : ℕ) (g : Stage) (r : Receiver)
    (l : Link) : Prop where
  retryLimit : l.snd.ot.retryLimit = limit
  pending : ∃ older, l.snd.ot.pending = older ++ pendingChunks m D k n g.charges ∧
    ∀ c ∈ older, c.chunkID < k
  failed : l.snd.ot.failed = none
  registered : l.snd.registered = true
  charged : g.charges = g.settled - 1 ∨
    (n = 0 ∧ g.settled = 1 ∧ g.handled = 1 ∧ g.charges = 1)
  within : g.charges ≤ limit
  first : 1 ≤ g.handled
  handled_le : g.handled ≤ n + 1
  settled_le : g.settled ≤ g.handled
  resending : l.snd.reader = if g.busy then .resending (g.hand.map (m.frame D)) else .ready
  idle : g.busy = false → g.hand = []
  monitor : l.snd.monitor = g.late.map fun j => .chunk (m.frame D j)
  alone : g.late ≠ [] → g.hand = [] ∧ g.settled = n + 1
  down : l.down = firstSends m D k n g.handled ++ g.again.map fun j => .data (m.frame D j)
  rcv : l.rcv = some r
  taking : r.Taking m r.tr.acceptedNextChunk
  waiting : g.handled ≤ n → r.tr.acceptedNextChunk = k
  next_le : r.tr.nextChunk ≤ k
  past : k ≤ r.tr.acceptedNextChunk
  above : ∀ j ∈ g.again ++ g.hand ++ g.late, k ≤ j
  smooth : Smooth r.tr.acceptedNextChunk (g.again ++ g.hand ++ g.late) (k + g.charges)
  room : r.tr.queue.length + n + k < r.tr.capacity + r.tr.acceptedNextChunk
  reader : r.reader = if g.out = [] then .ready else .replying g.out
  answers : l.up ++ g.out = (List.range' g.settled (g.handled - g.settled)).map (answerTo k)

variable {k n limit : ℕ} {g : Stage} {r : Receiver} {l : Link}

/-- The rank of a stage: what is left to do. -/
def Stage.rank (n : ℕ) (g : Stage) : ℕ :=
  (n + 1 - g.handled) * (2 * n + 6) + g.out.length * (2 * n + 5) +
    (g.handled - g.settled - g.out.length) * (2 * n + 4) + 2 * g.hand.length +
    2 * g.late.length + g.again.length + (if g.busy then 1 else 0) +
    (if g.charges = 0 then 3 else 0)

/-- Chunk `k` is charged at most `n` retries, or one where nothing was behind it. -/
theorem Recovering.charges_le (h : Recovering m D k n limit g r l) :
    g.charges ≤ n ∨ (n = 0 ∧ g.charges = 1) := by
  have := h.handled_le
  have := h.settled_le
  rcases h.charged with hc | ⟨hn, -, -, hc⟩
  · omega
  · exact .inr ⟨hn, hc⟩

theorem firstSends_cons {p : ℕ} (h : p ≤ n) :
    firstSends m D k n p = .data (m.frame D (k + p)) :: firstSends m D k n (p + 1) := by
  have : n + 1 - p = n + 1 - (p + 1) + 1 := by omega
  rw [firstSends, this, List.range'_succ]
  rfl

theorem firstSends_nil : firstSends m D k n (n + 1) = [] := by simp [firstSends]

/-- How many answers are on their way. -/
theorem Recovering.up_length (h : Recovering m D k n limit g r l) :
    l.up.length + g.out.length = g.handled - g.settled := by
  have := congrArg List.length h.answers
  simpa using this

variable {c : Chunk}

/-- A chunk that arrives for the first time is answered. -/
theorem Recovering.first_arrives (hm : m.Covers D) (hb : k + n < m.chunkCount)
    (h : Recovering m D k n limit g r l) (hlt : g.handled ≤ n) (hout : g.out = [])
    {rest : List Request} (hd : l.down = .data c :: rest) :
    ∃ g', g'.rank n < g.rank n ∧ Recovering m D k n limit g' (r.handleData true c)
      { l with rcv := some (r.handleData true c), down := rest } := by
  have hfirst := h.first
  have hle := h.settled_le
  have hacc := h.waiting hlt
  rw [h.down, firstSends_cons hlt, cons_append, List.cons.injEq, Request.data.injEq] at hd
  obtain ⟨rfl, rfl⟩ := hd
  have htaking := h.taking
  rw [hacc] at htaking
  rw [htaking.ahead hm h.next_le (by omega) (by omega)]
  have hcount : g.handled + 1 - g.settled = g.handled - g.settled + 1 := by omega
  refine ⟨{ g with handled := g.handled + 1, out := [answerTo k g.handled] }, ?_, { h with
    charged := ?_, first := Nat.le_add_left _ _, handled_le := Nat.succ_le_succ hlt,
    settled_le := Nat.le_succ_of_le hle, alone := fun hl => ?_, down := rfl, rcv := rfl,
    taking := { h.taking with }, waiting := fun _ => hacc,
    reader := ?_, answers := ?_ }⟩
  · have hlen := h.up_length
    simp only [hout, length_nil] at hlen
    obtain ⟨d, hdiff⟩ : ∃ d, n + 1 - g.handled = d + 1 := ⟨n - g.handled, by omega⟩
    have hdiff' : n + 1 - (g.handled + 1) = d := by omega
    simp only [Stage.rank, hout, hdiff, hdiff', hcount, length_nil, length_singleton,
      Nat.add_mul, Nat.add_sub_cancel, Nat.sub_zero]
    omega
  · rcases h.charged with hc | ⟨hn, -, hp, -⟩
    · exact .inl hc
    · omega
  · have := (h.alone hl).2
    omega
  · have hne : g.handled ≠ 0 := by omega
    simp [answerTo, hne]
  · simp only
    rw [hcount, List.range'_1_concat, map_append, ← h.answers, hout, append_nil,
      Nat.add_sub_of_le hle]
    rfl

/-- A chunk that arrives again is accepted, or was before. -/
theorem Recovering.again_arrives (hm : m.Covers D) (hsize : m.chunkSize < 2 ^ 32)
    (hb : k + n < m.chunkCount) (h : Recovering m D k n limit g r l) (hall : g.handled = n + 1)
    {rest : List Request} (hd : l.down = .data c :: rest) :
    ∃ g', g'.rank n < g.rank n ∧ Recovering m D k n limit g' (r.handleData true c)
      { l with rcv := some (r.handleData true c), down := rest } := by
  rw [h.down, hall, firstSends_nil, nil_append] at hd
  obtain ⟨j, js, hagain, hj, hjs⟩ := map_eq_cons_iff.mp hd
  obtain rfl : m.frame D j = c := by simpa using hj
  have habove := h.above
  have hsmooth := h.smooth
  rw [hagain] at habove hsmooth
  simp only [cons_append] at habove hsmooth
  obtain ⟨hle, hsmooth⟩ := hsmooth
  have hkj : k ≤ j := habove j mem_cons_self
  have hcharges := h.charges_le
  have hnext := h.next_le
  have hreader := h.reader
  have hroom := h.room
  have hrank : ({ g with again := js } : Stage).rank n < g.rank n := by
    simp only [Stage.rank, hagain, length_cons]
    omega
  have habove' : ∀ x ∈ js ++ g.hand ++ g.late, k ≤ x :=
    fun x hx => habove x (mem_cons_of_mem _ hx)
  by_cases heq : j = r.tr.acceptedNextChunk
  · rw [if_pos heq] at hsmooth
    have hlast := hsmooth.le
    subst heq
    rw [h.taking.next hm hsize (by omega) (by omega), if_pos ⟨rfl, by omega⟩]
    refine ⟨{ g with again := js }, hrank, { h with
      down := ?_, rcv := rfl, taking := { h.taking with waiting := rfl },
      waiting := fun hlt => ?_, past := Nat.le_succ_of_le h.past, above := habove',
      smooth := hsmooth, room := ?_, reader := hreader }⟩
    · simp only [hall, firstSends_nil, nil_append]
      exact hjs.symm
    · simp only [hall] at hlt
      omega
    · simp only [length_append, length_singleton]
      omega
  · rw [if_neg heq] at hsmooth
    have hlast := hsmooth.le
    rw [h.taking.again hm (by omega) (by omega) (by omega)]
    refine ⟨{ g with again := js }, hrank, { h with
      down := ?_, rcv := rfl, above := habove', smooth := hsmooth, reader := hreader }⟩
    simp only [hall, firstSends_nil, nil_append]
    exact hjs.symm

/-- A chunk arrives. -/
theorem Recovering.chunk (hm : m.Covers D) (hsize : m.chunkSize < 2 ^ 32)
    (hb : k + n < m.chunkCount) (h : Recovering m D k n limit g r l) (hready : r.reader = .ready)
    {rest : List Request} (hd : l.down = .data c :: rest) :
    ∃ g', g'.rank n < g.rank n ∧ Recovering m D k n limit g' (r.handleData true c)
      { l with rcv := some (r.handleData true c), down := rest } := by
  by_cases hlt : g.handled ≤ n
  · refine h.first_arrives hm hb hlt ?_ hd
    by_contra hne
    rw [h.reader, if_neg hne] at hready
    cases hready
  · have := h.handled_le
    exact h.again_arrives hm hsize hb (by omega) hd

variable {rest : List Reply}

section Recovering

variable (h : Recovering m D k n limit g r l)
include h

/-- An answer is sent. -/
theorem Recovering.answer {reply : Reply} (hrep : r.reader = .replying (reply :: rest)) :
    ∃ g', g'.rank n < g.rank n ∧ Recovering m D k n limit g'
      { r with reader := if rest = [] then .ready else .replying rest }
      { l.answer reply with
        rcv := some { r with reader := if rest = [] then .ready else .replying rest } } := by
  have hout : g.out = reply :: rest := by
    by_cases hnil : g.out = []
    · rw [h.reader, if_pos hnil] at hrep
      cases hrep
    · rw [h.reader, if_neg hnil] at hrep
      exact Reader.replying.inj hrep
  refine ⟨{ g with out := rest }, ?_, { h with
    rcv := rfl, taking := { h.taking with }, reader := rfl,
    answers := ?_ }⟩
  · have hlen := h.up_length
    rw [hout, length_cons] at hlen
    have hone : g.handled - g.settled - rest.length =
        g.handled - g.settled - (rest.length + 1) + 1 := by omega
    simp only [Stage.rank, hout, length_cons, hone, Nat.add_mul]
    omega
  · have := h.answers
    rw [hout] at this
    simpa [Link.answer] using this

/-- What is left in the hands of the sender while its reader is free. -/
theorem Recovering.hand_nil (hready : l.snd.reader = .ready) : g.busy = false ∧ g.hand = [] := by
  have hbusy : g.busy = false := by
    by_contra hb
    rw [h.resending, if_pos (by simpa using hb)] at hready
    cases hready
  exact ⟨hbusy, h.idle hbusy⟩

/-- The first answer that the sender has not handled. -/
theorem Recovering.up_cons {reply : Reply} (hup : l.up = reply :: rest) :
    g.settled < g.handled ∧ reply = answerTo k g.settled ∧
      rest ++ g.out =
        (List.range' (g.settled + 1) (g.handled - (g.settled + 1))).map (answerTo k) := by
  have hlen := h.up_length
  rw [hup, length_cons] at hlen
  have hone : g.handled - g.settled = g.handled - (g.settled + 1) + 1 := by omega
  have hans := h.answers
  rw [hup, hone, List.range'_succ, map_cons, cons_append, List.cons.injEq] at hans
  exact ⟨by omega, hans⟩

/-- The refusal for want of buffer is handled: nothing is sent again. -/
theorem Recovering.refused (hready : l.snd.reader = .ready) (hzero : g.settled = 0) {x : Nack}
    (hup : l.up = .nack x :: rest) :
    ∃ g', g'.rank n < g.rank n ∧ Recovering m D k n limit g' r
      { l with snd := l.snd.handleReply (.nack x), up := rest } := by
  obtain ⟨hlt, hx, hrest⟩ := h.up_cons hup
  obtain ⟨hbusy, hhand⟩ := h.hand_nil hready
  obtain rfl : x = ⟨k, k, .flowControl⟩ := by simpa [answerTo, hzero] using hx
  have hcharges : g.charges = 0 := by
    rcases h.charged with hc | ⟨-, hone, -⟩ <;> omega
  have hreply : l.snd.handleReply (.nack ⟨k, k, .flowControl⟩) =
      { l.snd with
        ot := { l.snd.ot with
          hasRemoteWindow := true, remoteWindowBytes := 0, remoteWindowChunks := 0 }
        reader := .resending [] } := by
    simp [Sender.handleReply, h.registered, OutgoingTransfer.handleNack,
      OutgoingTransfer.applyNack]
  rw [hreply]
  refine ⟨{ g with settled := 1, busy := true }, ?_, { h with
    charged := .inl hcharges, settled_le := h.first, resending := ?_, idle := by simp,
    alone := fun hl => ?_, answers := ?_ }⟩
  · have hlen := h.up_length
    rw [hup, length_cons] at hlen
    have hone : g.handled - g.settled - g.out.length =
        g.handled - 1 - g.out.length + 1 := by omega
    simp only [Stage.rank, hbusy, hone, Nat.add_mul, if_true, Bool.false_eq_true, if_false]
    omega
  · rw [if_pos rfl, hhand]
    rfl
  · have := (h.alone hl).2
    omega
  · rw [hzero] at hrest
    exact hrest

/-- What a missing range says. -/
theorem Recovering.missing_range (hpos : g.settled ≠ 0) {x : Nack} (hup : l.up = .nack x :: rest) :
    g.settled = g.charges + 1 ∧ g.charges < n ∧ x = ⟨k, k + g.charges, .missingChunk⟩ := by
  obtain ⟨hlt, hx, -⟩ := h.up_cons hup
  have hle := h.handled_le
  have hcharges : g.settled = g.charges + 1 := by
    rcases h.charged with hc | ⟨-, hone, hp, -⟩ <;> omega
  exact ⟨hcharges, by omega, by simpa [answerTo, hcharges, ← Nat.add_assoc] using hx⟩

/-- A missing range is handled while chunk `k` has a retry left: the chunks up to the
    last one of the range are sent again. -/
theorem Recovering.missing (hready : l.snd.reader = .ready) (hpos : g.settled ≠ 0)
    (hlim : g.charges < limit) {x : Nack} (hup : l.up = .nack x :: rest) :
    ∃ g', g'.rank n < g.rank n ∧ Recovering m D k n limit g' r
      { l with snd := l.snd.handleReply (.nack x), up := rest } := by
  obtain ⟨hlt, -, hrest⟩ := h.up_cons hup
  obtain ⟨hbusy, hhand⟩ := h.hand_nil hready
  have hle := h.handled_le
  obtain ⟨hcharges, hqn, rfl⟩ := h.missing_range hpos hup
  have hlate : g.late = [] := by
    by_contra hne
    have := (h.alone hne).2
    omega
  obtain ⟨older, hp, hold⟩ := h.pending
  have hnack := handleNack_missing hp hold (by omega) (by rwa [h.retryLimit])
  have hreply : l.snd.handleReply (.nack ⟨k, k + g.charges, .missingChunk⟩) =
      { l.snd with
        ot := { l.snd.ot with pending := older ++ pendingChunks m D k n (g.charges + 1) }
        reader := .resending ((List.range (g.charges + 1)).map fun j => m.frame D (k + j)) } := by
    simp [Sender.handleReply, h.registered, hnack]
  rw [hreply]
  have habove := h.above
  have hsmooth := h.smooth
  simp only [hhand, hlate, append_nil] at habove hsmooth
  refine ⟨{ g with
      settled := g.settled + 1, charges := g.charges + 1, busy := true,
      hand := (List.range (g.charges + 1)).map (k + ·) }, ?_, { h with
    pending := ⟨older, rfl, hold⟩, charged := .inl ?_, within := hlim, settled_le := hlt,
    resending := ?_, idle := by simp, alone := fun hl => absurd hlate hl, above := ?_, smooth := ?_,
    answers := hrest }⟩
  · have hlen := h.up_length
    rw [hup, length_cons] at hlen
    have hone : g.handled - g.settled - g.out.length =
        g.handled - (g.settled + 1) - g.out.length + 1 := by omega
    simp only [Stage.rank, hbusy, hhand, hone, Nat.add_mul, if_true, Bool.false_eq_true, if_false,
      length_map, length_range, length_nil, Nat.succ_ne_zero]
    split <;> omega
  · rw [hcharges]
    rfl
  · simp only [if_true, map_map]
    rfl
  · simp only [hlate, append_nil, mem_append, mem_map]
    rintro j (hj | ⟨i, -, rfl⟩)
    · exact habove j hj
    · omega
  · simp only [hlate, append_nil]
    exact hsmooth.append (smooth_again k g.charges)

/-- What is in the hands of the reader of the sender. -/
theorem Recovering.hand_map {cs : List Chunk} (hre : l.snd.reader = .resending cs) :
    g.busy = true ∧ g.hand.map (m.frame D) = cs := by
  have hmap := h.resending
  rw [hre] at hmap
  split_ifs at hmap with hbusy
  exact ⟨hbusy, (SenderReader.resending.inj hmap).symm⟩

/-- A chunk is sent again by the reader of the sender. -/
theorem Recovering.resend {rest : List Chunk} (hre : l.snd.reader = .resending (c :: rest)) :
    ∃ g', g'.rank n < g.rank n ∧ Recovering m D k n limit g' r
      { l with
        snd := { l.snd with reader := .resending rest }
        down := l.down ++ [.data c] } := by
  obtain ⟨hbusy, hmap⟩ := h.hand_map hre
  obtain ⟨j, js, hhand, rfl, rfl⟩ := map_eq_cons_iff.mp hmap
  have hlist : g.again ++ [j] ++ js ++ g.late = g.again ++ g.hand ++ g.late := by
    rw [hhand, append_assoc g.again]
    rfl
  refine ⟨{ g with again := g.again ++ [j], hand := js }, ?_, { h with
    resending := ?_, idle := fun hb => ?_, alone := fun hl => ?_, down := ?_,
    above := hlist ▸ h.above, smooth := hlist ▸ h.smooth }⟩
  · simp only [Stage.rank, hhand, length_append, length_cons, length_nil]
    omega
  · rw [if_pos hbusy]
  · rw [hbusy] at hb
    cases hb
  · have := (h.alone hl).1
    rw [hhand] at this
    cases this
  · rw [h.down, map_append, append_assoc]
    rfl

/-- The last chunk of a range was sent again. -/
theorem Recovering.resent (hre : l.snd.reader = .resending []) :
    ∃ g', g'.rank n < g.rank n ∧ Recovering m D k n limit g' r
      { l with snd := { l.snd with reader := .ready } } := by
  obtain ⟨hbusy, hmap⟩ := h.hand_map hre
  have hhand := map_eq_nil_iff.mp hmap
  refine ⟨{ g with busy := false }, ?_, { h with resending := rfl, idle := fun _ => hhand }⟩
  simp [Stage.rank, hbusy]

/-- A chunk is sent again by the monitor. -/
theorem Recovering.task {t : Task} {rest : List Task} (hmon : l.snd.monitor = t :: rest) :
    ∃ g', g'.rank n < g.rank n ∧ Recovering m D k n limit g' r
      { l with
        snd := { l.snd with monitor := rest }
        down := l.down ++ [t.request] } := by
  rw [h.monitor] at hmon
  obtain ⟨j, js, hlate, rfl, rfl⟩ := map_eq_cons_iff.mp hmon
  obtain ⟨hhand, hall⟩ := h.alone (by rw [hlate]; nofun)
  have hlist : g.again ++ [j] ++ g.hand ++ js = g.again ++ g.hand ++ g.late := by
    rw [hlate, hhand]
    simp
  refine ⟨{ g with again := g.again ++ [j], late := js }, ?_, { h with
    monitor := rfl, alone := fun _ => ⟨hhand, hall⟩, down := ?_, above := hlist ▸ h.above,
    smooth := hlist ▸ h.smooth }⟩
  · simp only [Stage.rank, hlate, length_append, length_cons, length_nil]
    omega
  · rw [h.down, map_append, append_assoc]
    rfl

/-- In a quiet state all answers were handled, and nothing is left to arrive. -/
theorem Recovering.quiet (hq : l.Quiet r) :
    g.handled = n + 1 ∧ g.settled = n + 1 ∧ g.again = [] ∧ g.hand = [] ∧ g.late = [] ∧
      g.out = [] ∧ r.tr.acceptedNextChunk = k + g.charges := by
  have hdown := h.down
  rw [hq.down] at hdown
  obtain ⟨hfirst, hagain⟩ := append_eq_nil_iff.mp hdown.symm
  have hle := h.handled_le
  have hall : g.handled = n + 1 := by
    by_contra hne
    rw [firstSends_cons (by omega)] at hfirst
    cases hfirst
  have hout : g.out = [] := by
    by_contra hne
    have := h.reader
    rw [hq.reader, if_neg hne] at this
    cases this
  have hlen := h.up_length
  rw [hq.up, hout] at hlen
  have hsettled := h.settled_le
  have hnil := map_eq_nil_iff.mp hagain
  have hhand := (h.hand_nil hq.resending).2
  have hlate := map_eq_nil_iff.mp (hq.monitor ▸ h.monitor).symm
  have hsmooth := h.smooth
  rw [hnil, hhand, hlate] at hsmooth
  simp only [length_nil] at hlen
  exact ⟨hall, by omega, hnil, hhand, hlate, hout, hsmooth⟩

end Recovering

/-- The deadline of chunk `k` has passed while nothing is on its way: no chunk was
    behind it, and it is charged its first retry. -/
theorem Recovering.timeout (hlim : 1 ≤ limit) (h : Recovering m D k n limit g r l)
    (hq : l.Quiet r) (hacc : r.tr.acceptedNextChunk = k) :
    ∃ g', g'.rank n < g.rank n ∧ Recovering m D k n limit g' r
      { l with snd := l.snd.tick false (· == k) } := by
  obtain ⟨hall, hsettled, hagain, hhand, hlate, hout, hnext⟩ := h.quiet hq
  have hzero : g.charges = 0 := by omega
  obtain rfl : n = 0 := by rcases h.charged with hc | ⟨hn, -⟩ <;> omega
  obtain ⟨older, hp, hold⟩ := h.pending
  have hsel : ∀ j, ((pendingChunk m D k 0 j).chunkID == k) = decide (j ≤ 0) := by
    intro j
    rw [Bool.eq_iff_iff]
    simp [pendingChunk]
  have hlimit : 0 < l.snd.ot.retryLimit := by rwa [h.retryLimit]
  have hcharge : charge l.snd.ot.retryLimit (fun c => c.chunkID == k) l.snd.ot.pending =
      (older ++ pendingChunks m D k 0 1, [m.frame D k], none) := by
    rw [hp, hzero, charge_append fun c hc => by have := hold c hc; simp; omega, pendingChunks,
      charge_pending hsel hlimit, filter_range (Nat.le_refl 0)]
    rfl
  have htick : l.snd.tick false (· == k) =
      { l.snd with
        ot := { l.snd.ot with pending := older ++ pendingChunks m D k 0 1 }
        monitor := [.chunk (m.frame D k)] } := by
    have hne : l.snd.ot.pending.isEmpty = false := by
      rw [hp, pendingChunks]
      simp
    simp [Sender.tick, OutgoingTransfer.expire, h.failed, hne, hcharge]
  rw [htick]
  have hbusy := (h.hand_nil hq.resending).1
  refine ⟨{ g with charges := 1, late := [k] }, ?_, { h with
    pending := ⟨older, rfl, hold⟩, charged := .inr ⟨rfl, hsettled, hall, rfl⟩, within := hlim,
    monitor := rfl, alone := fun _ => ⟨hhand, hsettled⟩, above := ?_, smooth := ?_ }⟩
  · simp only [Stage.rank, hzero, hlate, length_nil, length_singleton, if_true,
      Nat.one_ne_zero, if_false]
    omega
  · simp [hagain, hhand]
  · simp only [hagain, hhand, nil_append]
    rw [hacc]
    exact smooth_again k 0

end Link

end Etp.Transfer
