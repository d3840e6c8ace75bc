import Etp.Transfer.Integrity

/-!
# The recovery of a refused chunk

A chunk that the receiver has no buffer for is refused, and so are all chunks that
are on their way behind it: each of them is ahead of the one the receiver waits
for, and is answered with a range of missing chunks that begins with the refused
one. The sender charges a retry to every chunk of every range.

`Recovers` are the steps of the two sessions between the refusal and the
acceptance. `InFlight` is the situation before the refusal. The rest of this
module is what one frame does in it: `charge_pending` is the price of one range,
`Receiver.Taking` the answer to one chunk, and `Smooth` the lists of chunks none of
which arrives ahead of the others.
-/

namespace Etp.Transfer

open OutgoingTransfer List

variable {m : TransferBegin} {D : Bytes} {H : Bytes → Bytes}

/-- The frame of chunk `j`. -/
def TransferBegin.frame (m : TransferBegin) (D : Bytes) (j : ℕ) : Chunk := ⟨j, m.chunk D j, true⟩

namespace Link

/-! ## The steps of a recovery -/

/-- Nothing is on its way or in the hands of a goroutine. -/
structure Quiet (l : Link) (r : Receiver) : Prop where
  down : l.down = []
  up : l.up = []
  reader : r.reader = .ready
  resending : l.snd.reader = .ready
  monitor : l.snd.monitor = []

/-- The steps between the refusal of chunk `k` and its acceptance: the receiver has
    room for the chunks that arrive, the sender handles the refusals and sends
    chunks again. The deadline of chunk `k` passes only when nothing else happens.
    The sender sends no further chunk in between, as it waits where its window is full
    (`Recovering.window_full`), and no acknowledgement or window reaches it. -/
inductive Recovers (k : ℕ) : Link → Link → Prop
  | chunk (l : Link) (r : Receiver) (c : Chunk) (rest : List Request) :
      l.down = .data c :: rest → l.rcv = some r → r.reader = .ready →
      Recovers k l { l with rcv := some (r.handleData true c), down := rest }
  | answer (l : Link) (r : Receiver) (reply : Reply) (rest : List Reply) : l.rcv = some r →
      r.reader = .replying (reply :: rest) →
      Recovers k l { l.answer reply with
        rcv := some { r with reader := if rest = [] then .ready else .replying rest } }
  | nack (l : Link) (x : Nack) (rest : List Reply) : l.up = .nack x :: rest →
      l.snd.reader = .ready →
      Recovers k l { l with snd := l.snd.handleReply (.nack x), up := rest }
  | resend (l : Link) (c : Chunk) (rest : List Chunk) : l.snd.reader = .resending (c :: rest) →
      Recovers k l { l with
        snd := { l.snd with reader := .resending rest }
        down := l.down ++ [.data c] }
  | resent (l : Link) : l.snd.reader = .resending [] →
      Recovers k l { l with snd := { l.snd with reader := .ready } }
  | timeout (l : Link) (r : Receiver) : l.rcv = some r → l.Quiet r → r.tr.acceptedNextChunk = k →
      l.snd.registered = true →
      Recovers k l { l with snd := l.snd.tick false (· == k) }
  | task (l : Link) (t : Task) (rest : List Task) : l.snd.monitor = t :: rest →
      l.snd.active t = true →
      Recovers k l { l with
        snd := { l.snd with monitor := rest }
        down := l.down ++ [t.request] }

/-- They are steps of the two sessions. -/
theorem Recovers.step {k : ℕ} {l l' : Link} (h : Recovers k l l') : Step H m D l l' := by
  cases h with
  | chunk r c rest hd hr hready => exact .received l r _ _ rest hd hr (.data r true c hready)
  | answer r reply rest hr hrep => exact .reply l r _ reply hr (.reply r reply rest hrep)
  | nack x rest hup hready => exact .handled l _ _ rest hup (.reply _ _ hready)
  | resend c rest hre => exact .request l _ _ (.resend _ c rest hre)
  | resent hre => exact .sender l _ (.resent _ hre)
  | timeout r hr hq _ hreg => exact .sender l _ (.tick _ false _ hreg hq.monitor)
  | task t rest hmon hact => exact .request l _ _ (.task _ t rest hmon hact)

/-! ## The situation -/

/-- A pending chunk that was charged `q - j` retries. -/
def pendingChunk (m : TransferBegin) (D : Bytes) (k q j : ℕ) : SentChunk :=
  ⟨k + j, m.chunk D (k + j), q - j⟩

/-- The pending chunks `k`, …, `k + n` after `q` charges of the first. -/
def pendingChunks (m : TransferBegin) (D : Bytes) (k n q : ℕ) : List SentChunk :=
  (List.range (n + 1)).map (pendingChunk m D k q)

/-- The chunks from `k + p` to `k + n`, on their way for the first time. -/
def firstSends (m : TransferBegin) (D : Bytes) (k n p : ℕ) : List Request :=
  (List.range' p (n + 1 - p)).map fun j => .data (m.frame D (k + j))

/-- The chunks `k`, …, `k + n` are on their way for the first time, and the receiver
    waits for `k`. -/
structure InFlight (m : TransferBegin) (D : Bytes) (k n : ℕ) (r : Receiver) (l : Link) : Prop where
  pending : ∃ older, l.snd.ot.pending = older ++ pendingChunks m D k n 0 ∧
    ∀ c ∈ older, c.chunkID < k
  failed : l.snd.ot.failed = none
  registered : l.snd.registered = true
  resending : l.snd.reader = .ready
  monitor : l.snd.monitor = []
  down : l.down = firstSends m D k n 0
  up : l.up = []
  rcv : l.rcv = some r
  listed : r.listed = true
  reader : r.reader = .ready
  metadata : r.tr.metadata = m
  intact : r.tr.failed = none
  accepting : r.tr.accepting = true
  waiting : r.tr.acceptedNextChunk = k
  next_le : r.tr.nextChunk ≤ k
  room : r.tr.queue.length + n < r.tr.capacity
  bound : k + n < m.chunkCount

/-- The receiver refuses the first chunk for want of buffer. -/
def refuse (m : TransferBegin) (D : Bytes) (k n : ℕ) (r : Receiver) (l : Link) : Link :=
  { l with
    rcv := some (r.handleData false (m.frame D k))
    down := firstSends m D k n 1 }

end Link

/-! ## Charging retries -/

theorem charge_append {limit : ℕ} {sel : SentChunk → Bool} {l₁ : List SentChunk}
    (h : ∀ c ∈ l₁, sel c = false) (l₂ : List SentChunk) :
    charge limit sel (l₁ ++ l₂) =
      (l₁ ++ (charge limit sel l₂).1, (charge limit sel l₂).2.1, (charge limit sel l₂).2.2) := by
  induction l₁ with
  | nil => rfl
  | cons c l₁ ih =>
    rw [forall_mem_cons] at h
    rw [cons_append, charge, if_neg (by simp [h.1]), ih h.2]
    rfl

namespace Link

variable {k n q : ℕ}

/-- One charge of the chunks up to `k + q`, none of which has spent its retries. -/
theorem charge_pending {limit : ℕ} {sel : SentChunk → Bool}
    (hsel : ∀ j, sel (pendingChunk m D k q j) = decide (j ≤ q)) (hq : q < limit) (js : List ℕ) :
    charge limit sel (js.map (pendingChunk m D k q)) =
      (js.map (pendingChunk m D k (q + 1)),
        (js.filter (· ≤ q)).map fun j => m.frame D (k + j), none) := by
  induction js with
  | nil => rfl
  | cons j js ih =>
    by_cases hj : j ≤ q
    · have hlt : ¬limit ≤ (pendingChunk m D k q j).retries := by
        simp only [pendingChunk]
        omega
      have hsucc : q - j + 1 = q + 1 - j := by omega
      rw [map_cons, charge, if_pos (by simp [hsel, hj]), if_neg hlt, ih,
        filter_cons_of_pos (by simpa using hj)]
      simp only [pendingChunk, hsucc, map_cons]
      rfl
    · have hzero : q - j = q + 1 - j := by omega
      rw [map_cons, charge, if_neg (by simp [hsel, hj]), ih,
        filter_cons_of_neg (by simpa using hj)]
      simp only [pendingChunk, hzero, map_cons]

theorem filter_range (hq : q ≤ n) : (List.range (n + 1)).filter (· ≤ q) = List.range (q + 1) := by
  induction n with
  | zero =>
    obtain rfl : q = 0 := by omega
    rfl
  | succ n ih =>
    rw [range_succ, filter_append]
    by_cases h : q = n + 1
    · subst h
      rw [filter_eq_self.mpr fun j hj => by
        have := mem_range.mp hj
        simp
        omega]
      simp [range_succ]
    · rw [ih (by omega)]
      simp
      omega

/-- The refusal of the chunks from `k` to `k + q`, with retries left. -/
theorem handleNack_missing {ot : OutgoingTransfer} {older : List SentChunk}
    (hp : ot.pending = older ++ pendingChunks m D k n q) (hold : ∀ c ∈ older, c.chunkID < k)
    (hqn : q ≤ n) (hq : q < ot.retryLimit) :
    ot.handleNack ⟨k, k + q, .missingChunk⟩ =
      ({ ot with pending := older ++ pendingChunks m D k n (q + 1) },
        (List.range (q + 1)).map (fun j => m.frame D (k + j)), none) := by
  have hsel : ∀ j, inRange k (k + q) (pendingChunk m D k q j) = decide (j ≤ q) := by
    intro j
    simp [inRange, pendingChunk]
  rw [handleNack, if_neg (by simp), applyNack]
  simp only [hp]
  rw [charge_append fun c hc => by have := hold c hc; simp [inRange]; omega, pendingChunks,
    charge_pending hsel hq, filter_range hqn]
  rfl

/-- The refusal of chunk `k` when it has no retry left. -/
theorem handleNack_spent {ot : OutgoingTransfer} {older : List SentChunk}
    (hp : ot.pending = older ++ pendingChunks m D k n q) (hold : ∀ c ∈ older, c.chunkID < k)
    (hq : ot.retryLimit ≤ q) : (ot.handleNack ⟨k, k + q, .missingChunk⟩).2.2 ≠ none := by
  rw [handleNack, if_neg (by simp), applyNack]
  simp only [hp]
  rw [charge_append fun c hc => by have := hold c hc; simp [inRange]; omega, pendingChunks,
    range_succ_eq_map, map_cons, charge, if_pos (by simp [inRange, pendingChunk]),
    if_pos (by simpa [pendingChunk] using hq)]
  simp

/-! ## Frames that arrive in an order the receiver can accept -/

/-- The chunks `js`, handled one after another, take the cursor from `a` to `b`, and
    none of them is ahead of it. -/
def Smooth : ℕ → List ℕ → ℕ → Prop
  | a, [], b => a = b
  | a, j :: js, b => j ≤ a ∧ Smooth (if j = a then a + 1 else a) js b

theorem Smooth.append {a b c : ℕ} {js js' : List ℕ} (h : Smooth a js b) (h' : Smooth b js' c) :
    Smooth a (js ++ js') c := by
  induction js generalizing a with
  | nil =>
    obtain rfl : a = b := h
    exact h'
  | cons j js ih => exact ⟨h.1, ih h.2⟩

variable {js : List ℕ}

theorem Smooth.le {a b : ℕ} (h : Smooth a js b) : a ≤ b := by
  induction js generalizing a with
  | nil => exact Nat.le_of_eq h
  | cons j js ih =>
    have := ih h.2
    split_ifs at this <;> omega

theorem Smooth.lt {a b j : ℕ} (h : Smooth a js b) (hj : j ∈ js) : j < b := by
  induction js generalizing a with
  | nil => cases hj
  | cons i js ih =>
    rcases mem_cons.mp hj with rfl | hj
    · have := h.1
      have hle := h.2.le
      split_ifs at hle <;> omega
    · exact ih h.2 hj

theorem smooth_of_lt {a : ℕ} (h : ∀ j ∈ js, j < a) : Smooth a js a := by
  induction js with
  | nil => rfl
  | cons j js ih =>
    rw [forall_mem_cons] at h
    exact ⟨Nat.le_of_lt h.1, by rw [if_neg (by omega)]; exact ih h.2⟩

/-- The chunks that one refusal sends again. -/
theorem smooth_again (k q : ℕ) :
    Smooth (k + q) ((List.range (q + 1)).map (k + ·)) (k + (q + 1)) := by
  rw [range_succ, map_append]
  refine Smooth.append (b := k + q) (smooth_of_lt fun j hj => ?_) ⟨Nat.le_refl _, ?_⟩
  · obtain ⟨i, hi, rfl⟩ := mem_map.mp hj
    have := mem_range.mp hi
    omega
  · rw [if_pos rfl]
    exact Nat.add_assoc _ _ _

end Link

/-! ## The receiver -/

/-- The chunks have the size the receiver expects. -/
theorem expectedSize_chunk {tr : IncomingTransfer} {j : ℕ} (hm : m.Covers D)
    (hsize : m.chunkSize < 2 ^ 32) (hmeta : tr.metadata = m) (hj : j < m.chunkCount) :
    (m.chunk D j).length = tr.expectedSize j := by
  obtain ⟨hall, hpos⟩ := hm.count_bounds
  rw [IncomingTransfer.expectedSize, hmeta, TransferBegin.chunk]
  split_ifs with hlast
  · rw [← hlast, Nat.add_mul, Nat.one_mul] at hall
    rw [Piece.length_piece, hm.totalSize, Nat.mod_eq_of_lt (by omega)]
    omega
  · exact Piece.length_piece_full (Nat.le_of_lt (hpos (j + 1) (by omega)))

namespace Receiver

/-- The transfer is open and takes chunks, the next one being `a`. -/
structure Taking (m : TransferBegin) (a : ℕ) (r : Receiver) : Prop where
  listed : r.listed = true
  metadata : r.tr.metadata = m
  intact : r.tr.failed = none
  accepting : r.tr.accepting = true
  waiting : r.tr.acceptedNextChunk = a

variable {r : Receiver} {a j : ℕ}

/-- A chunk ahead of the next one is refused. -/
theorem Taking.ahead (h : r.Taking m a) (hm : m.Covers D) (hn : r.tr.nextChunk ≤ a) (hj : a < j)
    (hb : j < m.chunkCount) : r.handleData true (m.frame D j) =
      { r with reader := .replying [.nack ⟨a, j - 1, .missingChunk⟩] } := by
  have hne : m.chunk D j ≠ [] := ne_nil_of_length_pos (hm.chunk_length_pos hb)
  obtain ⟨h1, h2, h3, h4, h5⟩ := h
  simp only [handleData, IncomingTransfer.handleData, TransferBegin.frame, h1, h3, h4, h5]
  rw [if_neg hne, if_neg (by simp), if_neg (by simp), if_neg (by omega), if_neg (by omega),
    if_pos hj]

/-- A chunk that was accepted before is ignored. -/
theorem Taking.again (h : r.Taking m a) (hm : m.Covers D) (hn : r.tr.nextChunk ≤ j) (hj : j < a)
    (hb : j < m.chunkCount) : r.handleData true (m.frame D j) = r := by
  have hne : m.chunk D j ≠ [] := ne_nil_of_length_pos (hm.chunk_length_pos hb)
  obtain ⟨h1, h2, h3, h4, h5⟩ := h
  simp only [handleData, IncomingTransfer.handleData, TransferBegin.frame, h1, h3, h4, h5]
  rw [if_neg hne, if_neg (by simp), if_neg (by simp), if_neg (by omega), if_pos hj]
  exact congrArg (fun listed => ({ r with listed := listed } : Receiver)) h1.symm

/-- The next chunk is queued where there is room, and refused where there is none. -/
theorem Taking.next (h : r.Taking m a) (hm : m.Covers D) (hsize : m.chunkSize < 2 ^ 32)
    (hn : r.tr.nextChunk ≤ a) (hb : a < m.chunkCount) (reserve : Bool) :
    r.handleData reserve (m.frame D a) =
      if reserve = true ∧ r.tr.queue.length < r.tr.capacity then
        { r with tr := { r.tr with
          queue := r.tr.queue ++ [m.frame D a]
          acceptedBytes := r.tr.acceptedBytes + (m.chunk D a).length
          acceptedNextChunk := a + 1 } }
      else
        { r with
          tr := { r.tr with flowBlocked := true }
          reader := .replying [.nack ⟨a, a, .flowControl⟩] } := by
  have hne : m.chunk D a ≠ [] := ne_nil_of_length_pos (hm.chunk_length_pos hb)
  have hexpected := expectedSize_chunk hm hsize h.metadata hb
  have hle : (m.chunk D a).length ≤ m.chunkSize := hm.chunk_length_le
  have hbounds : ¬(m.chunkCount ≤ a ∨ m.chunkSize < (m.chunk D a).length) := by omega
  obtain ⟨h1, h2, h3, h4, h5⟩ := h
  simp only [handleData, IncomingTransfer.handleData, TransferBegin.frame, h1, h2, h3, h4, h5]
  rw [if_neg hne, if_neg (by simp), if_neg (by simp), if_neg (by omega), if_neg (by omega),
    if_neg (by omega), if_neg (by simpa using hbounds), if_neg (by simpa using hexpected)]
  cases reserve with
  | false => rfl
  | true =>
    simp only [Bool.not_true, Bool.false_eq_true, if_false, true_and]
    split_ifs <;> rfl

end Receiver

end Etp.Transfer
