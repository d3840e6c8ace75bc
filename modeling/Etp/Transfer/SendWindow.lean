import Etp.Transfer.SenderInvariant

/-!
# The window of a sender

The pending chunks of a sender are consecutive: those below the first of them are
acknowledged, and their bytes are what `ackedBytes` counts. A cumulative
acknowledgement, of the chunks up to one that was pushed, is therefore accepted
when it is not behind the last one that was handled (`handleAck_window`), and it
moves the window on.
-/

namespace Etp.Transfer

open List

variable {m : TransferBegin} {D : Bytes}

open OutgoingTransfer

theorem Chunks.range {a b : ℕ} {l : List Chunk} (h : Chunks m D a l b) :
    ∀ c ∈ l, a ≤ c.chunkID ∧ c.chunkID < b := by
  induction l generalizing a with
  | nil => nofun
  | cons d l ih =>
    intro c hc
    have hle := h.2.2.le
    rcases mem_cons.mp hc with rfl | hc
    · have := h.1
      omega
    · have := ih h.2.2 c hc
      omega

/-- An acknowledgement up to `j` splits the pending chunks at `j + 1`. -/
theorem Chunks.acked {a b j : ℕ} {l : List SentChunk} (hm : m.Covers D)
    (h : Chunks m D a (l.map SentChunk.chunk) b) (ha : a ≤ j + 1) (hb : j < b) :
    Chunks m D (j + 1) ((l.filter fun c => !inRange 0 j c).map SentChunk.chunk) b ∧
      m.offset a + bytes (l.filter (inRange 0 j)) = m.offset (j + 1) ∧
      (l.filter (inRange 0 j) = [] → a = j + 1) := by
  induction l generalizing a with
  | nil =>
    obtain rfl : a = b := h
    obtain rfl : a = j + 1 := by omega
    exact ⟨rfl, by simp [bytes], fun _ => rfl⟩
  | cons c l ih =>
    obtain ⟨hid, hp, hrest⟩ := h
    have hid : c.chunkID = a := hid
    have hp : c.payload = m.chunk D a := hp
    by_cases hle : a ≤ j
    · obtain ⟨h1, h2, -⟩ := ih hrest (by omega)
      have hin : inRange 0 j c = true := by simp [inRange, hid, hle]
      rw [filter_cons_of_neg (by simp [hin]), filter_cons_of_pos hin]
      refine ⟨h1, ?_, by simp⟩
      rw [← h2, hm.offset_succ, bytes, map_cons, sum_cons, hp]
      simp only [bytes]
      omega
    · obtain rfl : a = j + 1 := by omega
      have hout : ∀ d ∈ c :: l, inRange 0 j d = false := by
        intro d hd
        rcases mem_cons.mp hd with rfl | hd
        · simp [inRange, hid]
        · have := (hrest.range _ (mem_map_of_mem hd)).1
          have : j + 1 + 1 ≤ d.chunkID := this
          simp [inRange]
          omega
      rw [filter_eq_self.mpr (by simpa using hout),
        filter_eq_nil_iff.mpr (by simpa using hout)]
      exact ⟨⟨hid, hp, hrest⟩, by simp [bytes], fun _ => rfl⟩

/-- A cumulative acknowledgement that is not behind the last one is accepted. -/
theorem handleAck_window {ot : OutgoingTransfer} {a b : ℕ} {x : Ack} (hm : m.Covers D)
    (hpend : Chunks m D a (ot.pending.map SentChunk.chunk) b) (hacked : ot.ackedBytes = m.offset a)
    (htotal : ot.totalBytes = m.totalSize) (hcount : ot.chunkCount = m.chunkCount)
    (hb : b ≤ m.chunkCount) (hx : AckOf m b x) (ha : a ≤ x.chunkTo + 1) :
    Chunks m D (x.chunkTo + 1) ((ot.handleAck x).1.pending.map SentChunk.chunk) b ∧
      (ot.handleAck x).1.ackedBytes = m.offset (x.chunkTo + 1) ∧
      (ot.handleAck x).1.totalBytes = m.totalSize ∧
      (ot.handleAck x).1.chunkCount = m.chunkCount ∧
      (ot.handleAck x).2 = none ∧ (ot.handleAck x).1.failed = ot.failed := by
  obtain ⟨hfrom, hto, hbytes⟩ := hx
  obtain ⟨h1, h2, h3⟩ := hpend.acked hm ha hto
  have hle : m.offset (x.chunkTo + 1) ≤ m.totalSize :=
    hm.offset_count ▸ TransferBegin.offset_mono (by omega)
  have hmono : m.offset a ≤ m.offset (x.chunkTo + 1) := TransferBegin.offset_mono ha
  simp only [handleAck, applyAck, hfrom, Nat.not_lt_zero, if_false]
  rw [if_neg (by simp [hcount, hbytes, hacked, htotal]; omega)]
  simp only [hbytes, hacked]
  split_ifs with hne hbad hlast
  · exact absurd h2.symm hbad
  · exact ⟨h1, h2, htotal, hcount, rfl, rfl⟩
  · exact ⟨h1, h2, htotal, hcount, rfl, rfl⟩
  · omega

/-! ## The sender -/

namespace Sender

variable {s s' : Sender} {a b : ℕ}

/-- The chunks below `a` are acknowledged, those below `b` were pushed, and the ones
    between them are pending. -/
structure Window (m : TransferBegin) (D : Bytes) (a b : ℕ) (s : Sender) : Prop where
  chunks : Chunks m D a (s.ot.pending.map SentChunk.chunk) b
  acked : s.ot.ackedBytes = m.offset a
  totalBytes : s.ot.totalBytes = m.totalSize
  chunkCount : s.ot.chunkCount = m.chunkCount
  bound : b ≤ m.chunkCount
  body : match s.body with
    | .begin => b = 0
    | .next k => k = b
    | .encoding k => k + 1 = b
    | _ => True
  holds : s.Holds (·.chunkID < b)

/-- The record changes in nothing that matters. -/
theorem Window.record {ot : OutgoingTransfer} {reader : SenderReader} {monitor : List Task}
    (h : s.Window m D a b) (hsame : s.ot.SameChunks ot)
    (hholds : ({ s with ot := ot, reader := reader, monitor := monitor } : Sender).Holds
      (·.chunkID < b)) :
    ({ s with ot := ot, reader := reader, monitor := monitor } : Sender).Window m D a b :=
  ⟨hsame.pending ▸ h.chunks, hsame.ackedBytes.trans h.acked, hsame.totalBytes.trans h.totalBytes,
    hsame.chunkCount.trans h.chunkCount, h.bound, h.body, hholds⟩

theorem Window.pending (h : s.Window m D a b) :
    ∀ f ∈ s.ot.pending.map SentChunk.chunk, f.chunkID < b :=
  fun f hf => (h.chunks.range f hf).2

/-- The answers other than acknowledgements leave the window as it is. -/
theorem window_reply {r : Reply} (h : s.Window m D a b) (hr : ∀ x, r ≠ .ack x) :
    (s.handleReply r).Window m D a b := by
  have hholds := h.holds.reply (r := r) h.pending
  by_cases hreg : s.registered = true
  · cases r with
    | ack x => exact absurd rfl (hr x)
    | nack n =>
      rw [handleReply_nack hreg] at hholds ⊢
      exact h.record (s.ot.sameChunks_handleNack n) hholds
    | window _ _ =>
      rw [handleReply_window hreg] at hholds ⊢
      exact h.record ⟨rfl, rfl, rfl, rfl, rfl⟩ hholds
    | state t =>
      rw [handleReply_state hreg] at hholds ⊢
      exact h.record (s.ot.sameChunks_handleState t) hholds
  · rwa [handleReply_unregistered hreg]

/-- An acknowledgement moves the window on. -/
theorem window_ack {x : Ack} (hm : m.Covers D) (h : s.Window m D a b) (hx : AckOf m b x)
    (ha : a ≤ x.chunkTo + 1) :
    (s.handleReply (.ack x)).Window m D (if s.registered then x.chunkTo + 1 else a) b := by
  obtain ⟨h1, h2, h3, h4, -, -⟩ :=
    handleAck_window hm h.chunks h.acked h.totalBytes h.chunkCount h.bound hx ha
  by_cases hreg : s.registered = true
  · rw [if_pos hreg, handleReply_ack hreg]
    exact ⟨h1, h2, h3, h4, h.bound, h.body, h.holds.reading⟩
  · rwa [if_neg hreg, handleReply_unregistered hreg]

/-- A step of the sender other than the handling of an acknowledgement. -/
theorem window_step {l : Label} (hm : m.Covers D) (h : s.Window m D a b)
    (hs : Step m D s l s') (hl : ∀ x, l ≠ .receive (.ack x)) :
    ∃ b', b ≤ b' ∧ s'.Window m D a b' := by
  have hkeep : s'.Window m D a b → ∃ b', b ≤ b' ∧ s'.Window m D a b' := fun h =>
    ⟨b, Nat.le_refl _, h⟩
  have hholds := h.holds.step h.pending hs
  have hbody := h.body
  cases hs with
  | begin hb _ =>
    simp only [hb] at hbody
    exact hkeep { h with body := hbody.symm, holds := hholds }
  | push k hb hlt _ _ =>
    simp only [hb] at hbody
    subst hbody
    refine ⟨k + 1, Nat.le_succ _, ⟨?_, h.acked, h.totalBytes, h.chunkCount, hm.lt_chunkCount hlt,
      rfl, hholds.imp fun f hf => Nat.lt_succ_of_lt hf⟩⟩
    simp only [push, map_append, map_cons, map_nil]
    exact h.chunks.snoc rfl rfl
  | encode k payload hb _ _ =>
    simp only [hb] at hbody
    exact hkeep { h with body := hbody, holds := hholds }
  | finish | sendEnd | acked | giveUp => exact hkeep { h with body := trivial, holds := hholds }
  | reply r _ => exact hkeep (window_reply h fun x hx => hl x (hx ▸ rfl))
  | tick commit late _ _ => exact hkeep (h.record (s.ot.sameChunks_expire commit late) hholds)
  | unregister | resend | resent | task | skip | fail => exact hkeep { h with holds := hholds }

/-- What is sent was pushed. -/
theorem Window.sends {l : Label} {c : Chunk} (h : s.Window m D a b) (hs : Step m D s l s')
    (hl : l = .send (.data c)) : c.chunkID < b := by
  rcases h.holds.sends hs hl with hlt | ⟨hb, -⟩
  · exact hlt
  · have hbody := h.body
    simp only [hb] at hbody
    omega

end Sender

end Etp.Transfer
