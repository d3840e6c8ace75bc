import Etp.Lib.Pool
import Etp.Transfer.InFlight

/-!
# The pool of chunk buffers

All transfers of all sessions read their chunks into buffers of one pool
(`chunkBufferPool`). The goroutine of a transfer takes a buffer, reads a chunk into
it and appends the chunk, with the buffer, to the pending ones; it encodes the frame
from the buffer afterwards. An acknowledgement gives the buffers of the chunks it
takes back to the pool, and so does the end of the transfer with those of the chunks
that are left. Frames that are sent again are copied from the buffers under the
lock.

`Buffers` are the senders of all transfers with the pool and the contents of the
buffers. The payload of a pending chunk is what its buffer holds when it is looked
at (`view`).

* The buffers have one holder each, and the pending chunks keep their payloads
  (`Inv`). So every step of a transfer is one of its `Sender`: the model of a single
  sender, which knows no buffers and lets the frame of a chunk that is no longer
  pending carry anything, leaves nothing out (`step_sender`).
* Where no chunk is acknowledged before its frame is encoded, every frame carries
  the bytes of its own chunk (`own_bytes`).
* A chunk that is acknowledged earlier may be sent with the bytes of another
  transfer (`foreign_bytes`).
-/

namespace Etp.Transfer

open Relation Logged Function List SentChunk

/-- The first bytes of a buffer. -/
def bufferSlice (f : ℕ → UInt8) (n : ℕ) : Bytes := (List.range n).map f

/-- A buffer after bytes were written to its front. -/
def bufferWrite (f : ℕ → UInt8) (p : Bytes) : ℕ → UInt8 := fun j => p.getD j (f j)

/-- The senders of all transfers, the buffers that they hold, and the frames handed to the writers:
    `held` is the buffer a chunk is read into, `buf` that of a chunk, `free` the pool and `next` the
    number of buffers that were made. -/
structure Buffers (ι : Type*) where
  snd : ι → Sender
  held : ι → Option ℕ
  buf : ι → ℕ → ℕ
  released : ι → Bool
  mem : ℕ → ℕ → UInt8
  free : List ℕ
  next : ℕ
  out : List (ι × Chunk) := []

namespace Buffers

variable {ι : Type*}

/-- The sender of a transfer, with the payloads that the buffers of its pending chunks hold. -/
def view (s : Buffers ι) (i : ι) : Sender :=
  { s.snd i with
    ot := { (s.snd i).ot with
      pending := (s.snd i).ot.pending.map fun c =>
        { c with payload := bufferSlice (s.mem (s.buf i c.chunkID)) c.payload.length } } }

/-- The buffers of chunks. -/
def bufsOf (s : Buffers ι) (i : ι) (l : List SentChunk) : List ℕ :=
  l.map fun c => s.buf i c.chunkID

/-- The frames that a sender has copied to send them again. -/
def copies (snd : Sender) : List Chunk :=
  (match snd.reader with
    | .resending l => l
    | .ready | .stopped _ => []) ++
  snd.monitor.filterMap fun
    | .chunk c => some c
    | .commit => none

variable (m : ι → TransferBegin) (D : ι → Bytes)

/-- One step of one transfer, of those that send `D` announced as `m`, or of the pool, with the
    acknowledgement it handles. -/
inductive Step [DecidableEq ι] (s : Buffers ι) : Option (ι × Ack) → Buffers ι → Prop
  -- `getChunkBuffer`
  | take (i : ι) (k b : ℕ) : (s.snd i).body = .next k → (m i).offset k < (m i).totalSize →
      s.held i = none → b ∈ s.free →
      Step s none { s with held := update s.held i (some b), free := s.free.erase b }
  | make (i : ι) (k : ℕ) : (s.snd i).body = .next k → (m i).offset k < (m i).totalSize →
      s.held i = none →
      Step s none { s with held := update s.held i (some s.next), next := s.next + 1 }
  | forget (b : ℕ) : b ∈ s.free → Step s none { s with free := s.free.erase b }
  -- the source writes into the buffer, piece by piece
  | read (i : ι) (b : ℕ) (p : Bytes) : s.held i = some b →
      Step s none { s with mem := update s.mem b (bufferWrite (s.mem b) p) }
  -- the source has failed, the context is cancelled or the transfer has failed
  | giveBack (i : ι) (k b : ℕ) (e : Err) : (s.snd i).body = .next k → s.held i = some b →
      Step s none { s with
        snd := update s.snd i { s.snd i with body := .returned (some e) }
        held := update s.held i none
        free := s.free ++ [b] }
  -- the two halves of `sendReliableChunk`, of a chunk that was read
  | push (i : ι) (k b : ℕ) : (s.snd i).body = .next k → s.held i = some b →
      (m i).offset k < (m i).totalSize →
      bufferSlice (s.mem b) ((m i).chunk (D i) k).length = (m i).chunk (D i) k →
      (s.snd i).ot.failed = none → (s.snd i).ot.blocked ((m i).chunk (D i) k).length = false →
      Step s none { s with
        snd := update s.snd i { s.snd i with
          ot := (s.snd i).ot.push k ((m i).chunk (D i) k)
          body := .encoding k }
        held := update s.held i none
        buf := update s.buf i (update (s.buf i) k b) }
  | encode (i : ι) (k : ℕ) : (s.snd i).body = .encoding k →
      Step s none { s with
        snd := update s.snd i { s.snd i with body := .next (k + 1) }
        out := s.out ++
          [(i, ⟨k, bufferSlice (s.mem (s.buf i k)) ((m i).chunk (D i) k).length, true⟩)] }
  -- `applyAck`
  | ack (i : ι) (a : Ack) : (s.snd i).reader = .ready → s.released i = false →
      (s.snd i).registered = true →
      Step s (some (i, a)) { s with
        snd := update s.snd i ((s.view i).handleReply (.ack a))
        free := s.free ++ s.bufsOf i ((s.view i).ot.taken a) }
  -- whatever else the goroutines of a transfer do
  | other (i : ι) (label : Sender.Label) (snd : Sender) : s.released i = false →
      Sender.Step (m i) (D i) (s.view i) label snd → Advances (s.snd i).body snd.body →
      (∀ a, label ≠ .receive (.ack a)) →
      Step s none { s with
        snd := update s.snd i snd
        out := s.out ++ (Upload.sentBy label).map fun c => (i, c) }
  -- `releasePending`, when nothing is left to be sent again
  | release (i : ι) (err : Option Err) : s.released i = false →
      (s.snd i).body = .returned err → (s.snd i).registered = false → copies (s.snd i) = [] →
      Step s none { s with
        released := update s.released i true
        free := s.free ++ s.bufsOf i (s.snd i).ot.pending }

/-- Who may hold a buffer: the goroutine that reads a chunk, or a pending chunk. -/
inductive Holder (ι : Type*)
  | reader (i : ι)
  | chunk (i : ι) (k : ℕ)

/-- What is held. -/
def owner (s : Buffers ι) : Holder ι → Option ℕ
  | .reader i => s.held i
  | .chunk i k =>
    if s.released i = false ∧ k ∈ (s.snd i).ot.pending.map chunkID then some (s.buf i k)
    else none

/-- What holds in every run. -/
structure Inv (s : Buffers ι) : Prop where
  sound : Pool.Sound s.owner s.free s.next
  inFlight : ∀ i, (s.snd i).ot.InFlight
  behind : ∀ i, Behind (m i) (s.snd i).ot (s.snd i).body
  genuine : ∀ i, Genuine (m i) (D i) (s.snd i).ot
  stored : ∀ i, s.released i = false → ∀ c ∈ (s.snd i).ot.pending,
    bufferSlice (s.mem (s.buf i c.chunkID)) c.payload.length = c.payload
  copied : ∀ i, ∀ c ∈ copies (s.snd i), c.payload = (m i).chunk (D i) c.chunkID
  gone : ∀ i, s.released i = true → ∃ err, (s.snd i).body = .returned err

variable {m D} {s s' : Buffers ι} {i : ι}

@[simp] theorem length_bufferSlice (f : ℕ → UInt8) (n : ℕ) : (bufferSlice f n).length = n := by
  simp [bufferSlice]

/-- A transfer that is not over has not released its buffers. -/
theorem Inv.busy (h : Inv m D s) (hbody : ∀ err, (s.snd i).body ≠ .returned err) :
    s.released i = false := by
  by_contra hgone
  obtain ⟨err, herr⟩ := h.gone i (by simpa using hgone)
  exact hbody err herr

/-- The buffers hold what the model of a single sender says. -/
theorem Inv.view_eq (h : Inv m D s) (hi : s.released i = false) : s.view i = s.snd i := by
  have hpending : ((s.snd i).ot.pending.map fun c =>
      { c with payload := bufferSlice (s.mem (s.buf i c.chunkID)) c.payload.length }) =
      (s.snd i).ot.pending := by
    refine (map_congr_left fun c hc => ?_).trans (map_id' _)
    show SentChunk.mk c.chunkID (bufferSlice (s.mem (s.buf i c.chunkID)) c.payload.length)
      c.retries = c
    rw [h.stored i hi c hc]
  rw [view, hpending]

/-- The frame of a chunk that is still pending carries the chunk. -/
theorem Inv.payload_pending (h : Inv m D s) (hi : s.released i = false) {k : ℕ}
    (hk : ∃ c ∈ (s.snd i).ot.pending, c.chunkID = k) :
    bufferSlice (s.mem (s.buf i k)) ((m i).chunk (D i) k).length = (m i).chunk (D i) k := by
  obtain ⟨c, hc, rfl⟩ := hk
  have hstored := h.stored i hi c hc
  rw [h.genuine i c hc] at hstored
  exact hstored

/-- Buffers are held by the chunks that are pending. -/
theorem owner_chunk {k : ℕ} (hi : s.released i = false)
    (hk : k ∈ (s.snd i).ot.pending.map chunkID) :
    s.owner (.chunk i k) = some (s.buf i k) := if_pos ⟨hi, hk⟩

theorem of_owner_chunk {k b : ℕ} (h : s.owner (.chunk i k) = some b) :
    s.released i = false ∧ k ∈ (s.snd i).ot.pending.map chunkID ∧ s.buf i k = b := by
  simp only [owner] at h
  split_ifs at h with hk
  exact ⟨hk.1, hk.2, Option.some.inj h⟩

/-- The chunks of a list of pending ones hold different buffers. -/
theorem Inv.nodup_bufsOf (h : Inv m D s) (hi : s.released i = false) {l : List SentChunk}
    (hl : l.Sublist (s.snd i).ot.pending) : (s.bufsOf i l).Nodup := by
  have hids : (l.map chunkID).Nodup :=
    ((h.inFlight i).increasing.sublist (hl.map _)).imp Nat.ne_of_lt
  have hmap : s.bufsOf i l = (l.map chunkID).map (s.buf i) := (List.map_map ..).symm
  rw [hmap]
  refine hids.map_on fun k hk k' hk' heq => ?_
  have hmem : ∀ k ∈ l.map chunkID, k ∈ (s.snd i).ot.pending.map chunkID :=
    fun k hk => (hl.map _).subset hk
  have hsingle := h.sound.single _ _ _ (owner_chunk hi (hmem k hk))
    (heq ▸ owner_chunk hi (hmem k' hk'))
  exact (Holder.chunk.inj hsingle).2

/-- Chunks that leave the pending ones give their buffers back. -/
theorem Inv.sound_giveBack (h : Inv m D s) (hi : s.released i = false) {l : List SentChunk}
    (hl : l.Sublist (s.snd i).ot.pending) {owner' : Holder ι → Option ℕ}
    (howner : ∀ x b, owner' x = some b → s.owner x = some b ∧
      ∀ c ∈ l, x ≠ .chunk i c.chunkID) :
    Pool.Sound owner' (s.free ++ s.bufsOf i l) s.next := by
  have hchunk : ∀ c ∈ l, s.owner (.chunk i c.chunkID) = some (s.buf i c.chunkID) := fun c hc =>
    owner_chunk hi (mem_map_of_mem (hl.subset hc))
  refine h.sound.giveBack (h.nodup_bufsOf hi hl) (fun b hb => ?_) fun x b hx => ?_
  · obtain ⟨c, hc, rfl⟩ := mem_map.mp hb
    exact ⟨_, hchunk c hc⟩
  · obtain ⟨hx, hne⟩ := howner x b hx
    refine ⟨hx, fun hb => ?_⟩
    obtain ⟨c, hc, rfl⟩ := mem_map.mp hb
    exact hne c hc (h.sound.single _ _ _ hx (hchunk c hc))

/-- A step that leaves the pending chunks, their buffers and what they hold. -/
theorem Inv.kept (h : Inv m D s) (s' : Buffers ι)
    (hchunks : ∀ j, (s'.snd j).ot.pending.map chunk =
      (s.snd j).ot.pending.map chunk)
    (hbuf : s'.buf = s.buf) (hreleased : s'.released = s.released)
    (hmem : ∀ j, s.released j = false → ∀ k ∈ (s.snd j).ot.pending.map chunkID,
      s'.mem (s.buf j k) = s.mem (s.buf j k)) :
    (∀ j, (s'.snd j).ot.pending.map chunkID =
      (s.snd j).ot.pending.map chunkID) ∧ (s'.held = s.held → s'.owner = s.owner) ∧
    ∀ j, s'.released j = false → ∀ c ∈ (s'.snd j).ot.pending,
      bufferSlice (s'.mem (s'.buf j c.chunkID)) c.payload.length = c.payload := by
  have hids : ∀ j, (s'.snd j).ot.pending.map chunkID =
      (s.snd j).ot.pending.map chunkID := by
    intro j
    rw [← OutgoingTransfer.map_chunkID_chunk, hchunks, OutgoingTransfer.map_chunkID_chunk]
  refine ⟨hids, fun hheld => ?_, ?_⟩
  · funext x
    cases x with
    | reader i => exact congrFun hheld i
    | chunk i k => simp only [owner, hbuf, hreleased, hids]
  · intro j hlive c hc
    have hin : c.chunk ∈ (s'.snd j).ot.pending.map chunk := mem_map_of_mem hc
    rw [hchunks] at hin
    obtain ⟨c₀, hc₀, heq⟩ := mem_map.mp hin
    have hid : c₀.chunkID = c.chunkID := congrArg Chunk.chunkID heq
    have hpayload : c₀.payload = c.payload := congrArg Chunk.payload heq
    rw [hreleased] at hlive
    rw [hbuf, ← hid, ← hpayload, hmem j hlive _ (mem_map_of_mem hc₀)]
    exact h.stored j hlive c₀ hc₀

/-- Transfers that start, or are resumed at a chunk, with any buffers in the pool. -/
structure Initial (m : ι → TransferBegin) (s : Buffers ι) : Prop where
  registered : ∀ i, ∃ id retryLimit maxInFlight maxInFlightBytes hasRemoteWindow, (s.snd i).ot =
    registerOutgoing id retryLimit maxInFlight maxInFlightBytes hasRemoteWindow (m i)
  body : ∀ i, (s.snd i).body = .begin ∨ ∃ k, (s.snd i).body = .next k
  copies : ∀ i, copies (s.snd i) = []
  held : ∀ i, s.held i = none
  released : ∀ i, s.released i = false
  free : s.free.Nodup ∧ ∀ b ∈ s.free, b < s.next
  out : s.out = []

theorem inv_initial (h : Initial m s) : Inv m D s := by
  have hpending : ∀ i, (s.snd i).ot.pending = [] := by
    intro i
    obtain ⟨id, retryLimit, maxInFlight, maxInFlightBytes, hasRemoteWindow, heq⟩ := h.registered i
    rw [heq]
    rfl
  have hnone : ∀ x b, s.owner x ≠ some b := by
    intro x b hx
    cases x with
    | reader i =>
      have hheld : s.held i = some b := hx
      rw [h.held i] at hheld
      cases hheld
    | chunk i k =>
      obtain ⟨-, hk, -⟩ := of_owner_chunk hx
      rw [hpending i] at hk
      cases hk
  refine ⟨⟨fun x _ b hx => absurd hx (hnone x b), fun x b hx => absurd hx (hnone x b), h.free.1,
    fun x b hx => absurd hx (hnone x b), h.free.2⟩, fun i => ?_, fun i k hk => ?_, fun i c hc => ?_,
    fun i _ c hc => ?_, fun i c hc => ?_, fun i hi => ?_⟩
  · obtain ⟨id, retryLimit, maxInFlight, maxInFlightBytes, hasRemoteWindow, heq⟩ := h.registered i
    rw [heq]
    exact ⟨.nil, rfl, Nat.zero_le _, Nat.zero_le _⟩
  · rw [hpending i]
    exact ⟨nofun, Nat.zero_le _⟩
  · rw [hpending i] at hc
    cases hc
  · rw [hpending i] at hc
    cases hc
  · rw [h.copies i] at hc
    cases hc
  · rw [h.released i] at hi
    cases hi

/-- What holds in the runs in which chunks are acknowledged after their frames were encoded. -/
structure Own (m : ι → TransferBegin) (D : ι → Bytes) (s : Buffers ι) : Prop where
  inv : Inv m D s
  encoding : ∀ i k, (s.snd i).body = .encoding k → ∃ c ∈ (s.snd i).ot.pending, c.chunkID = k
  out : ∀ i c, (i, c) ∈ s.out → c.payload = (m i).chunk (D i) c.chunkID

theorem own_initial (h : Initial m s) : Own m D s := by
  refine ⟨inv_initial h, fun i k hk => ?_, fun i c hc => ?_⟩
  · rcases h.body i with hb | ⟨j, hb⟩
    all_goals
      rw [hb] at hk
      cases hk
  · rw [h.out] at hc
    cases hc

variable [DecidableEq ι] {ack : Option (ι × Ack)}

/-- Every step of a transfer is one of the model of a single sender. -/
theorem step_sender (h : Inv m D s) (hs : Step m D s ack s') (j : ι) :
    s'.snd j = s.snd j ∨ ∃ label, Sender.Step (m j) (D j) (s.snd j) label (s'.snd j) := by
  -- the other transfers do nothing
  have hupdate : ∀ {i : ι} {snd : Sender}, (∃ label, Sender.Step (m i) (D i) (s.snd i) label snd) →
      update s.snd i snd j = s.snd j ∨
        ∃ label, Sender.Step (m j) (D j) (s.snd j) label (update s.snd i snd j) := by
    intro i snd hsnd
    by_cases hij : j = i
    · subst hij
      rw [update_self]
      exact .inr hsnd
    · exact .inl (update_of_ne hij snd s.snd)
  cases hs with
  | take | make | forget | read | release => exact .inl rfl
  | giveBack i k b e hb _ => exact hupdate ⟨_, .giveUp _ e (by simp [hb])⟩
  | push i k b hb _ hoffset _ hfailed hroom => exact hupdate ⟨_, .push _ k hb hoffset hfailed hroom⟩
  | encode i k hb =>
    have hlive : s.released i = false := by
      by_contra hgone
      obtain ⟨err, herr⟩ := h.gone i (by simpa using hgone)
      rw [hb] at herr
      cases herr
    exact hupdate ⟨_, .encode _ k _ hb (length_bufferSlice _ _) (h.payload_pending hlive)⟩
  | ack i a hready hlive _ =>
    rw [h.view_eq hlive]
    exact hupdate ⟨_, .reply _ (.ack a) hready⟩
  | other i label snd hlive hs _ _ =>
    rw [h.view_eq hlive] at hs
    exact hupdate ⟨label, hs⟩

/-! ## The invariant -/

/-- What a step of a sender does to its record. -/
theorem effect_sender {m : TransferBegin} {D : Bytes} {snd snd' : Sender} {label : Sender.Label}
    (h : Sender.Step m D snd label snd') :
    ∃ l, Effect m D snd.ot snd.body l snd'.ot snd'.body := by
  by_cases hl : ∃ r, label = .receive r
  · obtain ⟨r, rfl⟩ := hl
    cases h with
    | reply r _ =>
      rw [Sender.body_handleReply]
      exact ⟨_, effect_reply { snd := snd } r⟩
  · exact ⟨_, effect_own h fun r heq => hl ⟨r, heq⟩⟩

/-- What a step does that neither pushes nor encodes nor handles an acknowledgement: the pending
    chunks are as they were, frames are copied of pending chunks only, and those that are sent were
    copied. -/
structure Leaves (snd snd' : Sender) (sent : List Chunk) : Prop where
  pending : snd'.ot.pending.map chunk = snd.ot.pending.map chunk
  copied : ∀ c ∈ copies snd', c ∈ copies snd ∨ c ∈ snd.ot.pending.map chunk
  sent : ∀ c ∈ sent, c ∈ copies snd

section Leaves

variable {m : TransferBegin} {D : Bytes} {snd snd' : Sender}

theorem Leaves.same (hpending : snd'.ot.pending = snd.ot.pending)
    (hcopies : copies snd' = copies snd) : Leaves snd snd' [] :=
  ⟨by rw [hpending], fun c hc => .inl (hcopies ▸ hc), nofun⟩

theorem copies_monitor {t : Task} {rest : List Task} (ht : snd.monitor = t :: rest) :
    ∀ c ∈ copies { snd with monitor := rest }, c ∈ copies snd := by
  intro c hc
  rw [copies, ht]
  exact ((sublist_cons_self t rest).filterMap _).append_left _ |>.subset hc

theorem copies_afterReply (hready : snd.reader = .ready) (e : Option Err) (ot : OutgoingTransfer) :
    copies { snd with ot := ot, reader := Sender.afterReply e } = copies snd := by
  cases e <;> simp only [copies, hready] <;> rfl

theorem leaves_reply (hready : snd.reader = .ready) {r : Reply} (hr : ∀ a, r ≠ .ack a) :
    Leaves snd (snd.handleReply r) [] := by
  by_cases hreg : snd.registered = true
  · cases r with
    | ack a => exact absurd rfl (hr a)
    | nack n =>
      obtain ⟨-, hpending, hframes⟩ := snd.ot.handleNack_spec n
      rw [Sender.handleReply_nack hreg]
      refine ⟨hpending, fun c hc => ?_, nofun⟩
      by_cases he : (snd.ot.handleNack n).2.2 = none
      · simp only [he, if_true] at hc
        rcases mem_append.mp hc with hc | hc
        · exact .inr (hframes c hc)
        · exact .inl (mem_append_right _ hc)
      · simp only [he, if_false] at hc
        exact .inl (copies_afterReply hready _ _ ▸ hc)
    | window b c =>
      rw [Sender.handleReply_window hreg]
      exact .same rfl rfl
    | state t =>
      rw [Sender.handleReply_state hreg]
      exact .same (snd.ot.handleState_spec t).1 (copies_afterReply hready _ _)
  · rw [Sender.handleReply_unregistered hreg]
    exact .same rfl rfl

/-- A tick copies pending chunks. -/
theorem leaves_tick (commit : Bool) (late : ℕ → Bool) : Leaves snd (snd.tick commit late) [] := by
  obtain ⟨-, hpending, hframes⟩ := snd.ot.expire_spec commit late
  refine ⟨hpending, fun c hc => ?_, nofun⟩
  rcases mem_append.mp hc with hc | hc
  · exact .inl (mem_append_left _ hc)
  · refine .inr (hframes c ?_)
    obtain ⟨t, ht, htc⟩ := mem_filterMap.mp hc
    rcases mem_append.mp ht with ht | ht
    · split at ht
      · rw [mem_singleton.mp ht] at htc
        cases htc
      · cases ht
    · obtain ⟨d, hd, rfl⟩ := mem_map.mp ht
      exact Option.some.inj htc ▸ hd

theorem leaves_other {label : Sender.Label} (h : Sender.Step m D snd label snd')
    (hadv : Advances snd.body snd'.body) (hl : ∀ a, label ≠ .receive (.ack a)) :
    Leaves snd snd' (Upload.sentBy label) := by
  cases h with
  | push k hb _ _ _ =>
    rw [hb] at hadv
    cases hadv
  | encode k payload hb _ _ =>
    rw [hb] at hadv
    cases hadv
  | begin | finish | sendEnd | acked | giveUp | unregister | fail => exact .same rfl rfl
  | resent hr => exact .same rfl (by rw [copies, copies, hr])
  | resend c rest hr =>
    have hcopies : copies snd = c :: (rest ++ snd.monitor.filterMap fun
        | .chunk c => some c
        | .commit => none) := by
      rw [copies, hr]
      rfl
    refine ⟨rfl, fun d hd => .inl ?_, fun d hd => ?_⟩
    · rw [hcopies]
      exact mem_cons_of_mem c hd
    · rw [hcopies, mem_singleton.mp hd]
      exact mem_cons_self
  | tick commit late _ _ => exact leaves_tick commit late
  | task t rest ht _ =>
    refine ⟨rfl, fun d hd => .inl (copies_monitor ht d hd), fun d hd => ?_⟩
    rw [copies, ht]
    cases t with
    | commit => cases hd
    | chunk c =>
      rw [mem_singleton.mp hd]
      exact mem_append_right _ mem_cons_self
  | skip t rest ht _ => exact ⟨rfl, fun d hd => .inl (copies_monitor ht d hd), nofun⟩
  | reply r hready => exact leaves_reply hready fun a hr => hl a (congrArg _ hr)

end Leaves

variable {snd : Sender}

/-- What is true of the sender of one transfer after a step of it, and was of all. -/
theorem forall_update {P : ι → Sender → Prop} (h : ∀ j, P j (s.snd j)) (hi : P i snd) (j : ι) :
    P j (update s.snd i snd j) := by
  by_cases hij : j = i
  · subst hij
    rwa [update_self]
  · rw [update_of_ne hij]
    exact h j

/-- The chunks that an acknowledgement leaves are those it does not take. -/
theorem not_taken {ot : OutgoingTransfer} {a : Ack} {c c' : SentChunk}
    (hids : (ot.pending.map chunkID).Nodup) (hc : c ∈ ot.taken a)
    (hc' : c' ∈ (ot.handleAck a).1.pending) : c'.chunkID ≠ c.chunkID := by
  intro heq
  obtain ⟨hmem, hgone⟩ := mem_filter.mp hc
  have hmem' := (ot.handleAck_spec a).2.1 c' hc'
  obtain rfl : c' = c := inj_on_of_nodup_map hids hmem' hmem heq
  simp [hc'] at hgone

theorem copies_ack (hready : snd.reader = .ready) (a : Ack) :
    copies (snd.handleReply (.ack a)) = copies snd := by
  simp only [Sender.handleReply]
  split
  · rfl
  · simp only [copies, hready]
    cases (snd.ot.handleAck a).2 <;> rfl

/-- What follows for the record of each sender. -/
theorem Inv.records (htotal : ∀ i, (m i).totalSize = (D i).length) (h : Inv m D s)
    (hs : Step m D s ack s') (j : ι) : (s'.snd j).ot.InFlight ∧
      Behind (m j) (s'.snd j).ot (s'.snd j).body ∧ Genuine (m j) (D j) (s'.snd j).ot := by
  rcases step_sender h hs j with heq | ⟨label, hstep⟩
  · rw [heq]
    exact ⟨h.inFlight j, h.behind j, h.genuine j⟩
  · obtain ⟨l, he⟩ := effect_sender hstep
    exact ⟨he.inFlight (h.inFlight j) (h.behind j), he.behind (htotal j) (h.behind j),
      he.genuine (h.genuine j)⟩

theorem inv_push {k b : ℕ} (h : Inv m D s) (hb : (s.snd i).body = .next k)
    (hheld : s.held i = some b)
    (hread : bufferSlice (s.mem b) ((m i).chunk (D i) k).length = (m i).chunk (D i) k) :
    let s' := { s with
      snd := update s.snd i { s.snd i with
        ot := (s.snd i).ot.push k ((m i).chunk (D i) k)
        body := .encoding k }
      held := update s.held i none
      buf := update s.buf i (update (s.buf i) k b) }
    Pool.Sound s'.owner s'.free s'.next ∧ ∀ j, s'.released j = false →
      ∀ c ∈ (s'.snd j).ot.pending,
        bufferSlice (s'.mem (s'.buf j c.chunkID)) c.payload.length = c.payload := by
  intro s'
  obtain ⟨hbelow, -⟩ := h.behind i k (by rw [hb]; rfl)
  have hsnd : ∀ {j}, j ≠ i → s'.snd j = s.snd j := fun hj => update_of_ne hj _ _
  have hpending : (s'.snd i).ot.pending =
      (s.snd i).ot.pending ++ [⟨k, (m i).chunk (D i) k, 0⟩] := by
    show (update s.snd i _ i).ot.pending = _
    rw [update_self]
    rfl
  have hbuf : ∀ j n, s'.buf j n = if j = i ∧ n = k then b else s.buf j n := by
    intro j n
    show update s.buf i (update (s.buf i) k b) j n = _
    by_cases hj : j = i
    · subst hj
      by_cases hn : n = k
      · simp [hn]
      · simp [hn]
    · simp [hj]
  constructor
  · refine h.sound.hand (.reader i) (.chunk i k) fun x c hx => ?_
    cases x with
    | reader j =>
      have hne : j ≠ i := by
        rintro rfl
        simp [s', owner] at hx
      refine .inr ⟨fun heq => hne (Holder.reader.inj heq), ?_⟩
      rw [← hx]
      exact (update_of_ne hne _ _).symm
    | chunk j n =>
      obtain ⟨hlive, hn, hc⟩ := of_owner_chunk hx
      rw [hbuf] at hc
      by_cases hnew : j = i ∧ n = k
      · obtain ⟨rfl, rfl⟩ := hnew
        rw [if_pos ⟨rfl, rfl⟩] at hc
        exact .inl ⟨rfl, hc ▸ hheld⟩
      · rw [if_neg hnew] at hc
        refine .inr ⟨nofun, hc ▸ owner_chunk hlive ?_⟩
        by_cases hj : j = i
        · subst hj
          rw [hpending, map_append] at hn
          refine (mem_append.mp hn).resolve_right fun hk => hnew ⟨rfl, ?_⟩
          exact mem_singleton.mp hk
        · rwa [hsnd hj] at hn
  · intro j hlive c hc
    rw [hbuf]
    by_cases hj : j = i
    · subst hj
      rw [hpending] at hc
      rcases mem_append.mp hc with hc | hc
      · rw [if_neg fun heq => absurd heq.2 (hbelow c hc).ne]
        exact h.stored j hlive c hc
      · rw [mem_singleton.mp hc, if_pos ⟨rfl, rfl⟩]
        exact hread
    · rw [hsnd hj] at hc
      rw [if_neg fun heq => hj heq.1]
      exact h.stored j hlive c hc

theorem inv_ack {a : Ack} (h : Inv m D s) (hlive : s.released i = false)
    (hreg : (s.snd i).registered = true) :
    let s' := { s with
      snd := update s.snd i ((s.snd i).handleReply (.ack a))
      free := s.free ++ s.bufsOf i ((s.snd i).ot.taken a) }
    Pool.Sound s'.owner s'.free s'.next ∧ ∀ j, s'.released j = false →
      ∀ c ∈ (s'.snd j).ot.pending,
        bufferSlice (s'.mem (s'.buf j c.chunkID)) c.payload.length = c.payload := by
  intro s'
  have hsnd : ∀ {j}, j ≠ i → s'.snd j = s.snd j := fun hj => update_of_ne hj _ _
  have hpending : (s'.snd i).ot.pending = ((s.snd i).ot.handleAck a).1.pending := by
    show (update s.snd i _ i).ot.pending = _
    rw [update_self, Sender.handleReply_ack hreg]
  have hsub := ((s.snd i).ot.handleAck_spec a).2.1
  have hids : ((s.snd i).ot.pending.map chunkID).Nodup :=
    (h.inFlight i).increasing.imp Nat.ne_of_lt
  constructor
  · refine h.sound_giveBack hlive filter_sublist fun x b hx => ?_
    cases x with
    | reader j => exact ⟨hx, nofun⟩
    | chunk j n =>
      obtain ⟨hlive', hn, hb⟩ := of_owner_chunk hx
      by_cases hj : j = i
      · subst hj
        rw [hpending] at hn
        obtain ⟨c', hc', rfl⟩ := mem_map.mp hn
        refine ⟨hb ▸ owner_chunk hlive' (mem_map_of_mem (hsub c' hc')), fun c hc heq => ?_⟩
        exact not_taken hids hc hc' (Holder.chunk.inj heq).2
      · rw [hsnd hj] at hn
        exact ⟨hb ▸ owner_chunk hlive' hn, fun c _ heq => hj (Holder.chunk.inj heq).1⟩
  · intro j hlive' c hc
    by_cases hj : j = i
    · subst hj
      rw [hpending] at hc
      exact h.stored j hlive' c (hsub c hc)
    · rw [hsnd hj] at hc
      exact h.stored j hlive' c hc

/-- The part of the invariant about the buffers: who holds what, what is in the buffers, and the
    copies. -/
structure Rest (m : ι → TransferBegin) (D : ι → Bytes) (s : Buffers ι) : Prop where
  sound : Pool.Sound s.owner s.free s.next
  stored : ∀ j, s.released j = false → ∀ c ∈ (s.snd j).ot.pending,
    bufferSlice (s.mem (s.buf j c.chunkID)) c.payload.length = c.payload
  copied : ∀ j, ∀ c ∈ copies (s.snd j), c.payload = (m j).chunk (D j) c.chunkID
  gone : ∀ j, s.released j = true → ∃ err, (s.snd j).body = .returned err

theorem Inv.gone_update (h : Inv m D s) (hi : s.released i = false) (j : ι)
    (hj : s.released j = true) : ∃ err, (update s.snd i snd j).body = .returned err := by
  have hne : j ≠ i := by
    rintro rfl
    rw [hi] at hj
    cases hj
  rw [update_of_ne hne]
  exact h.gone j hj

theorem Inv.copied_update (h : Inv m D s) (hc : copies snd = copies (s.snd i)) :
    ∀ j, ∀ c ∈ copies (update s.snd i snd j), c.payload = (m j).chunk (D j) c.chunkID :=
  forall_update (P := fun j snd => ∀ c ∈ copies snd,
    c.payload = (m j).chunk (D j) c.chunkID) h.copied (hc ▸ h.copied i)

theorem chunks_update (hc : snd.ot.pending.map chunk = (s.snd i).ot.pending.map chunk) (j : ι) :
    (update s.snd i snd j).ot.pending.map chunk =
      (s.snd j).ot.pending.map chunk :=
  forall_update (P := fun j snd => snd.ot.pending.map chunk =
    (s.snd j).ot.pending.map chunk) (fun _ => rfl) hc j

/-- A buffer that the reader of a transfer takes. -/
theorem owner_held {b c : ℕ} {x : Holder ι}
    (hx : { s with held := update s.held i (some b) }.owner x = some c) :
    (x = .reader i ∧ c = b) ∨ s.owner x = some c := by
  cases x with
  | reader j =>
    have heq : update s.held i (some b) j = some c := hx
    by_cases hj : j = i
    · rw [hj, update_self] at heq
      exact .inl ⟨hj ▸ rfl, (Option.some.inj heq).symm⟩
    · rw [update_of_ne hj] at heq
      exact .inr heq
  | chunk j n => exact .inr hx

omit [DecidableEq ι] in
/-- The buffer that is written is that of no pending chunk. -/
theorem rest_read {b : ℕ} (h : Inv m D s) (hb : s.held i = some b) (p : Bytes) :
    Rest m D { s with mem := update s.mem b (bufferWrite (s.mem b) p) } := by
  refine ⟨h.sound, ?_, h.copied, h.gone⟩
  refine (h.kept { s with mem := update s.mem b (bufferWrite (s.mem b) p) }
    (fun _ => rfl) rfl rfl fun j hlive k hk => ?_).2.2
  refine update_of_ne (fun heq => ?_) _ _
  have hreader : s.owner (.reader i) = some (s.buf j k) := hb.trans (congrArg some heq.symm)
  cases h.sound.single _ _ _ hreader (owner_chunk hlive hk)

theorem rest_giveBack {k b : ℕ} (h : Inv m D s) (hb : (s.snd i).body = .next k)
    (hheld : s.held i = some b) (e : Err) :
    Rest m D { s with
      snd := update s.snd i { s.snd i with body := .returned (some e) }
      held := update s.held i none
      free := s.free ++ [b] } := by
  obtain ⟨hids, -, hstored⟩ := h.kept { s with
    snd := update s.snd i { s.snd i with body := .returned (some e) }
    held := update s.held i none
    free := s.free ++ [b] } (chunks_update rfl) rfl rfl fun _ _ _ _ => rfl
  refine ⟨h.sound.giveBack (nodup_singleton b) (fun c hc => ?_) fun x c hx => ?_, hstored,
    h.copied_update rfl, h.gone_update (h.busy (by simp [hb]))⟩
  · rw [mem_singleton.mp hc]
    exact ⟨.reader i, hheld⟩
  · have hx' : s.owner x = some c ∧ x ≠ .reader i := by
      cases x with
      | reader j =>
        have hne : j ≠ i := by
          rintro rfl
          simp [owner] at hx
        refine ⟨?_, fun heq => hne (Holder.reader.inj heq)⟩
        rw [← hx]
        exact (update_of_ne hne _ _).symm
      | chunk j n =>
        obtain ⟨hlive, hn, hc⟩ := of_owner_chunk hx
        rw [hids] at hn
        exact ⟨hc ▸ owner_chunk hlive hn, nofun⟩
    refine ⟨hx'.1, fun hc => hx'.2 ?_⟩
    rw [mem_singleton.mp hc] at hx'
    exact h.sound.single _ _ _ hx'.1 hheld

/-- A transfer goes on with the same chunks in the same buffers. -/
theorem rest_same (h : Inv m D s) (out : List (ι × Chunk)) (hlive : s.released i = false)
    (hpending : snd.ot.pending.map chunk = (s.snd i).ot.pending.map chunk)
    (hcopies : ∀ c ∈ copies snd, c ∈ copies (s.snd i) ∨ c ∈ (s.snd i).ot.pending.map chunk) :
    Rest m D { s with snd := update s.snd i snd, out := out } := by
  obtain ⟨-, howner, hstored⟩ := h.kept { s with snd := update s.snd i snd, out := out }
    (chunks_update hpending) rfl rfl fun _ _ _ _ => rfl
  refine ⟨?_, hstored, ?_, h.gone_update hlive⟩
  · rw [howner rfl]
    exact h.sound
  · refine forall_update (P := fun j snd => ∀ c ∈ copies snd,
      c.payload = (m j).chunk (D j) c.chunkID) h.copied fun c hc => ?_
    rcases hcopies c hc with hc | hc
    · exact h.copied i c hc
    · obtain ⟨c₀, hc₀, rfl⟩ := mem_map.mp hc
      exact h.genuine i c₀ hc₀

/-- The buffers of the other transfers stay. -/
theorem rest_release {err : Option Err} (h : Inv m D s) (hlive : s.released i = false)
    (hb : (s.snd i).body = .returned err) :
    Rest m D { s with
      released := update s.released i true
      free := s.free ++ s.bufsOf i (s.snd i).ot.pending } := by
  have hother : ∀ {j}, update s.released i true j = false →
      j ≠ i ∧ s.released j = false := by
    intro j hj
    have hne : j ≠ i := by
      rintro rfl
      simp at hj
    exact ⟨hne, by rwa [update_of_ne hne] at hj⟩
  refine ⟨h.sound_giveBack hlive (List.Sublist.refl _) fun x b hx => ?_, fun j hj => ?_, h.copied,
    fun j hj => ?_⟩
  · cases x with
    | reader j => exact ⟨hx, nofun⟩
    | chunk j n =>
      obtain ⟨hj, hn, hb⟩ := of_owner_chunk hx
      obtain ⟨hne, hlive'⟩ := hother hj
      exact ⟨hb ▸ owner_chunk hlive' hn, fun c _ heq => hne (Holder.chunk.inj heq).1⟩
  · exact h.stored j (hother hj).2
  · by_cases hne : j = i
    · exact ⟨err, hne ▸ hb⟩
    · have hgone : s.released j = true := by
        rw [← hj]
        exact (update_of_ne hne _ _).symm
      exact h.gone j hgone

theorem inv_step (htotal : ∀ i, (m i).totalSize = (D i).length) (h : Inv m D s)
    (hs : Step m D s ack s') : Inv m D s' := by
  have hrecords := h.records htotal hs
  suffices hrest : Rest m D s' from
    ⟨hrest.sound, fun j => (hrecords j).1, fun j => (hrecords j).2.1, fun j => (hrecords j).2.2,
      hrest.stored, hrest.copied, hrest.gone⟩
  cases hs with
  | take i k b _ _ _ hb =>
    exact ⟨h.sound.take (a := .reader i) hb fun x c hx => owner_held hx, h.stored, h.copied, h.gone⟩
  | make i k _ _ _ =>
    exact ⟨h.sound.make (a := .reader i) fun x c hx => owner_held hx, h.stored, h.copied, h.gone⟩
  | forget b _ => exact ⟨h.sound.forget b, h.stored, h.copied, h.gone⟩
  | read i b p hb => exact rest_read h hb p
  | giveBack i k b e hb hheld => exact rest_giveBack h hb hheld e
  | push i k b hb hheld _ hread _ _ =>
    obtain ⟨hsound, hstored⟩ := inv_push h hb hheld hread
    exact ⟨hsound, hstored, h.copied_update rfl, h.gone_update (h.busy (by simp [hb]))⟩
  | encode i k hb => exact rest_same h _ (h.busy (by simp [hb])) rfl fun c => .inl
  | ack i a hready hlive hreg =>
    rw [h.view_eq hlive]
    obtain ⟨hsound, hstored⟩ := inv_ack (a := a) h hlive hreg
    exact ⟨hsound, hstored, h.copied_update (copies_ack hready a), h.gone_update hlive⟩
  | other i label snd hlive hs hadv hl =>
    rw [h.view_eq hlive] at hs
    have hleaves := leaves_other hs hadv hl
    exact rest_same h _ hlive hleaves.pending hleaves.copied
  | release i err hlive hb _ _ => exact rest_release h hlive hb

/-- In every run, whatever is acknowledged, no buffer has two holders, and each transfer runs as a
    sender without buffers. -/
theorem refines_senders {s₀ : Buffers ι} (htotal : ∀ i, (m i).totalSize = (D i).length)
    (hstart : Initial m s₀) (hrun : ReflTransGen (fun s s' => ∃ ack, Step m D s ack s') s₀ s) :
    Pool.Sound s.owner s.free s.next ∧ ∀ i, ReflTransGen
      (fun x y => ∃ l, Sender.Step (m i) (D i) x l y) (s₀.snd i) (s.snd i) := by
  suffices h : Inv m D s ∧ _ from ⟨h.1.sound, h.2⟩
  induction hrun with
  | refl => exact ⟨inv_initial hstart, fun _ => .refl⟩
  | tail _ hs ih =>
    obtain ⟨_, hs⟩ := hs
    refine ⟨inv_step htotal ih.1 hs, fun i => ?_⟩
    rcases step_sender ih.1 hs i with heq | hstep
    · exact heq ▸ ih.2 i
    · exact (ih.2 i).tail hstep

/-! ## What the frames carry -/

/-- The chunk that a transfer is about to encode is not acknowledged. -/
def Awaited (s : Buffers ι) (ack : Option (ι × Ack)) : Prop :=
  ∀ i a k, ack = some (i, a) → (s.snd i).body = .encoding k → ¬ (a.chunkFrom ≤ k ∧ k ≤ a.chunkTo)

/-- A step in which chunks are acknowledged after their frames were encoded. -/
def AwaitedStep (m : ι → TransferBegin) (D : ι → Bytes) (s s' : Buffers ι) : Prop :=
  ∃ ack, Step m D s ack s' ∧ s.Awaited ack

theorem own_step (htotal : ∀ i, (m i).totalSize = (D i).length) (h : Own m D s)
    (hs : AwaitedStep m D s s') : Own m D s' := by
  obtain ⟨ack, hs, hw⟩ := hs
  suffices hrest : (∀ i k, (s'.snd i).body = .encoding k →
      ∃ c ∈ (s'.snd i).ot.pending, c.chunkID = k) ∧
      ∀ i c, (i, c) ∈ s'.out → c.payload = (m i).chunk (D i) c.chunkID from
    ⟨inv_step htotal h.inv hs, hrest.1, hrest.2⟩
  -- what one transfer does keeps what is true of the others
  have hencoding : ∀ {i : ι} {snd : Sender},
      (∀ k, snd.body = .encoding k → ∃ c ∈ snd.ot.pending, c.chunkID = k) →
      ∀ j k, (update s.snd i snd j).body = .encoding k →
        ∃ c ∈ (update s.snd i snd j).ot.pending, c.chunkID = k :=
    fun hi => forall_update (P := fun _ snd => ∀ k, snd.body = .encoding k →
      ∃ c ∈ snd.ot.pending, c.chunkID = k) h.encoding hi
  cases hs with
  | take | make | forget | read | release => exact ⟨h.encoding, h.out⟩
  | giveBack i k b e _ _ => exact ⟨hencoding nofun, h.out⟩
  | push i k b _ _ _ _ _ _ =>
    refine ⟨hencoding fun j hj => ?_, h.out⟩
    obtain rfl : k = j := Body.encoding.inj hj
    exact ⟨_, mem_append_right _ mem_cons_self, rfl⟩
  | encode i k hb =>
    refine ⟨hencoding nofun, fun j c hc => ?_⟩
    rcases mem_append.mp hc with hc | hc
    · exact h.out j c hc
    · obtain ⟨rfl, rfl⟩ := Prod.mk.inj (mem_singleton.mp hc)
      exact h.inv.payload_pending (h.inv.busy (by simp [hb])) (h.encoding j k hb)
  | ack i a _ hlive hreg =>
    rw [h.inv.view_eq hlive]
    refine ⟨hencoding fun k hk => ?_, h.out⟩
    rw [Sender.body_handleReply] at hk
    obtain ⟨c, hc, rfl⟩ := h.encoding i k hk
    rw [Sender.handleReply_ack hreg]
    -- the chunk is not in the range that is acknowledged
    refine ⟨c, Upload.handleAck_outside (s.snd i).ot a hc ?_, rfl⟩
    rw [OutgoingTransfer.inRange, ← Bool.not_eq_true, Bool.and_eq_true, decide_eq_true_eq,
      decide_eq_true_eq]
    exact hw i a _ rfl hk
  | other i label snd hlive hs hadv hl =>
    rw [h.inv.view_eq hlive] at hs
    obtain ⟨hpending, -, hsent⟩ := leaves_other hs hadv hl
    refine ⟨hencoding fun k hk => ?_, fun j c hc => ?_⟩
    · have hsame : (s.snd i).body = .encoding k := by
        generalize (s.snd i).body = b at hadv
        rw [hk] at hadv
        cases hadv
        rfl
      obtain ⟨c, hc, rfl⟩ := h.encoding i k hsame
      have hmem : c.chunk ∈ snd.ot.pending.map chunk := by
        rw [hpending]
        exact mem_map_of_mem hc
      obtain ⟨c', hc', heq⟩ := mem_map.mp hmem
      exact ⟨c', hc', congrArg Chunk.chunkID heq⟩
    · rcases mem_append.mp hc with hc | hc
      · exact h.out j c hc
      · obtain ⟨c₀, hc₀, heq⟩ := mem_map.mp hc
        obtain ⟨rfl, rfl⟩ := Prod.mk.inj heq
        exact h.inv.copied i c₀ (hsent c₀ hc₀)

/-- In every run of transfers that share the pool, in which no chunk is acknowledged between its
    becoming pending and its frame being encoded, every frame handed to the writer carries the bytes
    read from the source of its transfer for its chunk. -/
theorem own_bytes (D : ι → Bytes) (chunkSize flags : ι → ℕ) (checksum : ι → Bytes)
    (s₀ s : Buffers ι) :
    let m := fun i => announce (D i) (chunkSize i) (flags i) (checksum i)
    Initial m s₀ → ReflTransGen (AwaitedStep m D) s₀ s →
      ∀ i c, (i, c) ∈ s.out → c.payload = (m i).chunk (D i) c.chunkID := by
  intro m hstart hrun
  have hown : Own m D s :=
    Run.invariant _ (own_initial hstart) (fun _ _ h hs => own_step (fun _ => rfl) h hs) hrun
  exact hown.out

/-- Two transfers of a byte each, that have not started. -/
def twoTransfers : Buffers Bool where
  snd i := { ot := registerOutgoing 1 1 1 1 false (announce [if i then 9 else 7] 1 0 []) }
  held _ := none
  buf _ _ := 0
  released _ := false
  mem _ _ := 0
  free := []
  next := 0

theorem twoTransfers_initial :
    Initial (fun i : Bool => announce [if i then 9 else 7] 1 0 []) twoTransfers :=
  ⟨fun _ => ⟨1, 1, 1, 1, false, rfl⟩, fun _ => .inl rfl, fun _ => rfl, fun _ => rfl, fun _ => rfl,
    ⟨.nil, nofun⟩, rfl⟩

/-- The byte of one transfer is acknowledged before its frame is encoded, and the other transfer
    reads its byte into the buffer. -/
theorem foreign_run : ∃ s, ReflTransGen (fun s s' => ∃ ack,
      Step (fun i : Bool => announce [if i then 9 else 7] 1 0 []) (fun i => [if i then 9 else 7])
        s ack s') twoTransfers s ∧
    s.out = [(false, ⟨0, [9], true⟩)] ∧ s.held true = some 0 ∧ s.free = [] :=
  ⟨_,
    .head ⟨_, .other false _ _ rfl (.begin _ rfl rfl) (.start 0) nofun⟩ <|
    .head ⟨_, .make false 0 rfl (by decide) rfl⟩ <|
    .head ⟨_, .read false 0 [7] rfl⟩ <|
    .head ⟨_, .push false 0 0 rfl rfl (by decide) rfl rfl rfl⟩ <|
    .head ⟨_, .ack false ⟨0, 0, 1⟩ rfl rfl rfl⟩ <|
    .head ⟨_, .other true _ _ rfl (.begin _ rfl rfl) (.start 0) nofun⟩ <|
    .head ⟨_, .take true 0 0 rfl (by decide) rfl mem_cons_self⟩ <|
    .head ⟨_, .read true 0 [9] rfl⟩ <|
    .single ⟨_, .encode false 0 rfl⟩, rfl, rfl, rfl⟩

/-- That run is one of two senders without buffers, too. -/
theorem refines_senders_two : ∃ s : Buffers Bool, s.out = [(false, ⟨0, [9], true⟩)] ∧
    s.held true = some 0 ∧ Pool.Sound s.owner s.free s.next ∧
    ∀ i, ReflTransGen (fun x y => ∃ l, Sender.Step (announce [if i then 9 else 7] 1 0 [])
      [if i then 9 else 7] x l y) (twoTransfers.snd i) (s.snd i) := by
  obtain ⟨s, hrun, hout, hheld, -⟩ := foreign_run
  exact ⟨s, hout, hheld, refines_senders (fun _ => rfl) twoTransfers_initial hrun⟩

theorem foreign_bytes : ∃ s, ReflTransGen (fun s s' => ∃ ack,
      Step (fun i : Bool => announce [if i then 9 else 7] 1 0 []) (fun i => [if i then 9 else 7])
        s ack s') twoTransfers s ∧
    (false, ⟨0, [9], true⟩) ∈ s.out ∧
    (announce [if false then 9 else 7] 1 0 []).chunk [if false then 9 else 7] 0 = [7] := by
  obtain ⟨s, hrun, hout, -⟩ := foreign_run
  exact ⟨s, hrun, hout ▸ mem_cons_self, rfl⟩

/-- The byte of one transfer is acknowledged after its frame was encoded, and the other transfer
    sends its byte from the same buffer. -/
theorem own_byte : ∃ s, ReflTransGen (AwaitedStep
      (fun i : Bool => announce [if i then 9 else 7] 1 0 []) fun i => [if i then 9 else 7])
      twoTransfers s ∧ s.out.map Prod.fst = [false, true] ∧ s.buf true 0 = s.buf false 0 ∧
    ∀ i c, (i, c) ∈ s.out →
      c.payload = (announce [if i then 9 else 7] 1 0 []).chunk [if i then 9 else 7] c.chunkID := by
  obtain ⟨s, hrun, hout, hbuf⟩ : ∃ s, ReflTransGen (AwaitedStep
      (fun i : Bool => announce [if i then 9 else 7] 1 0 []) fun i => [if i then 9 else 7])
      twoTransfers s ∧ s.out.map Prod.fst = [false, true] ∧ s.buf true 0 = s.buf false 0 :=
    ⟨_,
      .head ⟨_, .other false _ _ rfl (.begin _ rfl rfl) (.start 0) nofun, nofun⟩ <|
      .head ⟨_, .make false 0 rfl (by decide) rfl, nofun⟩ <|
      .head ⟨_, .read false 0 [7] rfl, nofun⟩ <|
      .head ⟨_, .push false 0 0 rfl rfl (by decide) rfl rfl rfl, nofun⟩ <|
      .head ⟨_, .encode false 0 rfl, nofun⟩ <|
      .head ⟨_, .ack false ⟨0, 0, 1⟩ rfl rfl rfl, by rintro _ _ k ⟨⟩ hk; cases hk⟩ <|
      .head ⟨_, .other true _ _ rfl (.begin _ rfl rfl) (.start 0) nofun, nofun⟩ <|
      .head ⟨_, .take true 0 0 rfl (by decide) rfl mem_cons_self, nofun⟩ <|
      .head ⟨_, .read true 0 [9] rfl, nofun⟩ <|
      .head ⟨_, .push true 0 0 rfl rfl (by decide) rfl rfl rfl, nofun⟩ <|
      .single ⟨_, .encode true 0 rfl, nofun⟩, rfl, rfl⟩
  exact ⟨s, hrun, hout, hbuf, own_bytes _ (fun _ => 1) (fun _ => 0) (fun _ => []) _ s
    twoTransfers_initial hrun⟩

end Buffers

end Etp.Transfer
