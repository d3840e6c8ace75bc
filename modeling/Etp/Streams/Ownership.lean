import Etp.Lib.Run
import Etp.Streams.Machine

/-!
# The streams a transport owns

One of the two transports against a peer that does what it likes: it opens
streams, writes any preface and any frames to them, or none (`Apart` says what it
leaves alone). `Close` closes the streams it has collected one after another, once
it has left the lock (`State.closing`).

A stream that was opened or accepted is closed, or it belongs to a goroutine that
will close it or pass it on (`stream`, `Inv.owned`), and to one only (`Inv.once`).
The goroutines that serve a channel serve the streams registered for it, with the
channel that was written or read as the preface (`Serves`, `Inv.holds`). So the
properties of `streams_owned` hold in every state that is reached.
-/

namespace Etp.Streams.Owner

open Relation Function List

/-! ## The transport and its peer -/

/-- The stream that a goroutine has to see to. -/
def stream : Thread → Option ℕ
  | .writePreface _ _ s | .register _ _ s | .startOutgoing _ _ s | .readPreface s | .enter s _
  | .startIncoming _ s | .read _ s | .hold _ s _ | .remove _ s => some s
  | .look _ _ | .lockOpen _ _ | .lookAgain _ _ | .openStream _ _ | .send _ _ _ => none

/-- The goroutine is an `acceptStream`. -/
def awaits : Thread → Bool
  | .readPreface _ | .enter _ _ | .startIncoming _ _ => true
  | _ => false

/-- The goroutine reads from the stream, or will. -/
def reading : Thread → Option ℕ
  | .readPreface s | .read _ s | .hold _ s _ => some s
  | _ => none

/-- The goroutine serves a stream that is registered for the channel. -/
def Serves (c : UInt16) (s : ℕ) : Thread → Prop
  | .startOutgoing c' _ s' | .startIncoming c' s' | .read c' s' | .hold c' s' _
  | .remove c' s' => c' = c ∧ s' = s
  | _ => False

/-- The transports, what `Close` has still to close, and a history: the channel written as the
    preface of a stream or read as it, and the streams that the frames in `reads` and those that
    `ReadFrameLease` returned came from. -/
structure State where
  sys : System
  closing : List ℕ := []
  preface : ℕ → Option UInt16 := fun _ => none
  queued : List (ℕ × Bytes) := []
  delivered : List (ℕ × Bytes) := []

/-- What the peer leaves alone. -/
structure Apart (w : Side) (σ τ : System) : Prop where
  config : τ.config w = σ.config w
  incoming : τ.incoming w = σ.incoming w
  outgoing : τ.outgoing w = σ.outgoing w
  openMu : τ.openMu w = σ.openMu w
  reads : τ.reads w = σ.reads w
  errs : τ.errs w = σ.errs w
  prefaces : τ.prefaces w = σ.prefaces w
  accepting : τ.accepting w = σ.accepting w
  closed : τ.closed w = σ.closed w
  done : τ.done w = σ.done w
  threads : τ.threads w = σ.threads w
  shut : τ.shut w = σ.shut w
  returned : τ.returned w = σ.returned w
  next : σ.next ≤ τ.next
  opener : ∀ s < σ.next, τ.opener s = σ.opener s
  accepted : ∀ s < σ.next, σ.opener s = w.peer → τ.accepted s = σ.accepted s
  fresh : ∀ s, σ.next ≤ s → s < τ.next → τ.opener s = w.peer ∧ τ.accepted s = false

/-- The history of the prefaces after a step of a goroutine. -/
def prefaced (preface : ℕ → Option UInt16) : Thread → List Thread → ℕ → Option UInt16
  | .writePreface c _ s, [.register _ _ _] => update preface s (some c)
  | .readPreface s, [.enter _ c] => update preface s (some c)
  | _, _ => preface

/-- What a step of a goroutine puts in `reads`. -/
def pushed : Thread → List Thread → List (ℕ × Bytes)
  | .hold _ s frame, [.read _ _] => [(s, frame)]
  | _, _ => []

/-- A stream is accepted, and a token of `prefaces` goes to its `acceptStream`. -/
def take (w : Side) (σ : System) (s : ℕ) : System :=
  { σ with
    accepted := update σ.accepted s true
    prefaces := update σ.prefaces w (σ.prefaces w + 1) }

/-- A step of the transport of the side `w` or of its peer. -/
inductive Act (w : Side) (σ : State) : State → Prop
  | thread (pre : List Thread) (t : Thread) (post ts : List Thread) (τ : System) :
      σ.sys.threads w = pre ++ t :: post → Move w σ.sys t ts τ →
      Act w σ { σ with
        sys := τ.setThreads w (pre ++ (ts ++ post))
        preface := prefaced σ.preface t ts
        queued := σ.queued ++ pushed t ts }
  /-- `SendFrameOnChannel`, past its checks -/
  | call (c : UInt16) (frame : Bytes) : validChannel c = true → channelOf frame = .ok c →
      Act w σ { σ with sys := σ.sys.setThreads w (σ.sys.threads w ++ [.look c frame]) }
  /-- a turn of `acceptLoop` -/
  | accept (s : ℕ) : σ.sys.accepting w = true → σ.sys.closed w = false →
      σ.sys.prefaces w < (σ.sys.config w).prefaceLimit → s < σ.sys.next →
      σ.sys.opener s = w.peer → σ.sys.accepted s = false →
      Act w σ { σ with
        sys := (take w σ.sys s).setThreads w (σ.sys.threads w ++ [.readPreface s]) }
  | acceptClosed (s : ℕ) : σ.sys.accepting w = true → σ.sys.closed w = true → s < σ.sys.next →
      σ.sys.opener s = w.peer → σ.sys.accepted s = false →
      Act w σ { σ with sys := { σ.sys with
        accepted := update σ.sys.accepted s true
        shut := set σ.sys.shut w s true
        accepting := update σ.sys.accepting w false } }
  | acceptFails (err : Option Err) : σ.sys.accepting w = true →
      Act w σ { σ with sys := System.reportErr { σ.sys with
        accepting := update σ.sys.accepting w false } w err }
  /-- `ReadFrameLease` returns a frame -/
  | readFrameLease (frame : Bytes) (rest : List Bytes) : σ.sys.reads w = frame :: rest →
      Act w σ { σ with
        sys := { σ.sys with
          reads := update σ.sys.reads w rest
          returned := update σ.sys.returned w (σ.sys.returned w ++ [frame]) }
        queued := σ.queued.tail
        delivered := σ.delivered ++ σ.queued.take 1 }
  /-- `ReadFrameLease` returns an error -/
  | readErr : Act w σ { σ with sys := { σ.sys with errs := update σ.sys.errs w none } }
  | cancel : Act w σ { σ with sys := { σ.sys with done := update σ.sys.done w true } }
  /-- `Close` under the lock, with the streams it collects -/
  | close (streams : List ℕ) : σ.sys.closed w = false →
      (∀ s, s ∈ streams ↔ σ.sys.Owned w s) →
      Act w σ { σ with
        sys := { σ.sys with
          closed := update σ.sys.closed w true
          done := update σ.sys.done w true }
        closing := streams }
  /-- `Close` of the next one -/
  | closeNext (s : ℕ) (streams : List ℕ) : σ.closing = s :: streams →
      Act w σ { σ with sys := σ.sys.shutStream w s, closing := streams }
  /-- the loop at the end of `Close` -/
  | drain (frame : Bytes) (rest : List Bytes) : σ.sys.closed w = true → σ.closing = [] →
      σ.sys.reads w = frame :: rest →
      Act w σ { σ with
        sys := { σ.sys with reads := update σ.sys.reads w rest }
        queued := σ.queued.tail }
  | peer (τ : System) : Apart w σ.sys τ → Act w σ { σ with sys := τ }

/-- Two new transports. -/
def begin (config : Side → Config) : State where
  sys := start config

/-- The goroutine waits for the peer: it reads from a stream that is not closed. -/
def Waits (w : Side) (σ : System) (t : Thread) : Prop :=
  ∃ s, σ.shut w s = false ∧ (t = .readPreface s ∨ ∃ c, t = .read c s)

/-- Nothing is left to do at the side `w` unless the peer does something: `Close` has closed all it
    collected, and every goroutine that could go on waits for the peer. -/
def Quiescent (w : Side) (σ : State) : Prop :=
  σ.closing = [] ∧ ∀ t ∈ σ.sys.threads w,
    Waits w σ.sys t ∨ ∀ ts τ, ¬Move w σ.sys t ts τ

/-! ## The invariant -/

variable {w : Side} {σ τ : System} {t : Thread} {ts : List Thread} {c : UInt16} {s : ℕ}

/-- The side has opened the stream. -/
def Opened (w : Side) (σ : System) (s : ℕ) : Prop := s < σ.next ∧ σ.opener s = w

/-- The side has accepted the stream. -/
def Accepted (w : Side) (σ : System) (s : ℕ) : Prop :=
  s < σ.next ∧ σ.opener s = w.peer ∧ σ.accepted s = true

/-- The stream is registered for the channel. -/
def Registered (w : Side) (σ : System) (c : UInt16) (s : ℕ) : Prop :=
  Opened w σ s ∧ σ.outgoing w c = some s ∨ Accepted w σ s ∧ σ.incoming w c = some s

/-- What the variables of a goroutine satisfy. -/
def Holds (w : Side) (σ : System) (preface : ℕ → Option UInt16) : Thread → Prop
  | .writePreface _ _ s => Opened w σ s ∧ preface s = none
  | .register c _ s => Opened w σ s ∧ preface s = some c
  | .readPreface s => Accepted w σ s ∧ preface s = none
  | .enter s c => Accepted w σ s ∧ preface s = some c
  | .startOutgoing c _ s | .startIncoming c s | .read c s | .remove c s =>
    Registered w σ c s ∧ preface s = some c
  | .hold c s frame => (Registered w σ c s ∧ preface s = some c) ∧ channelOf frame = .ok c
  | .look _ _ | .lockOpen _ _ | .lookAgain _ _ | .openStream _ _ | .send _ _ _ => True

structure Inv (w : Side) (σ : State) : Prop where
  owned : ∀ s, Opened w σ.sys s ∨ Accepted w σ.sys s →
    σ.sys.shut w s = true ∨ ∃ t ∈ σ.sys.threads w, stream t = some s
  once : ((σ.sys.threads w).filterMap stream).Nodup
  holds : ∀ t ∈ σ.sys.threads w, Holds w σ.sys σ.preface t
  incoming : ∀ c s, σ.sys.incoming w c = some s → Accepted w σ.sys s ∧ σ.preface s = some c
  outgoing : ∀ c s, σ.sys.outgoing w c = some s → Opened w σ.sys s ∧ σ.preface s = some c
  blank : ∀ s, ¬Opened w σ.sys s → ¬Accepted w σ.sys s → σ.preface s = none
  tokens : σ.sys.prefaces w = (σ.sys.threads w).countP awaits
  limit : σ.sys.prefaces w ≤ (σ.sys.config w).prefaceLimit
  closed : σ.sys.closed w = true → σ.sys.done w = true ∧ ∀ t ∈ σ.sys.threads w, ∀ s,
    reading t = some s → σ.sys.shut w s = true ∨ s ∈ σ.closing
  reads : σ.queued.map Prod.snd = σ.sys.reads w
  returned : σ.delivered.map Prod.snd = σ.sys.returned w
  channel : ∀ p ∈ σ.queued ++ σ.delivered, ∃ c, σ.preface p.1 = some c ∧ channelOf p.2 = .ok c

/-! ## What a goroutine leaves alone -/

/-- What a step of the goroutine `t` leaves alone, as far as the others are concerned. -/
structure Spares (w : Side) (t : Thread) (σ τ : System) : Prop where
  config : τ.config w = σ.config w
  next : σ.next ≤ τ.next
  opener : ∀ s < σ.next, τ.opener s = σ.opener s
  accepted : ∀ s < σ.next, σ.opener s = w.peer → σ.accepted s = true → τ.accepted s = true
  incoming : ∀ c s, σ.incoming w c = some s → stream t ≠ some s → τ.incoming w c = some s
  outgoing : ∀ c s, σ.outgoing w c = some s → stream t ≠ some s → τ.outgoing w c = some s
  shut : ∀ s, σ.shut w s = true → τ.shut w s = true
  closed : τ.closed w = σ.closed w
  done : τ.done w = σ.done w
  returned : τ.returned w = σ.returned w

variable {s' : ℕ}

theorem set_true {f : Side → ℕ → Bool} (h : f w s' = true) : set f w s true w s' = true := by
  by_cases hs : s' = s
  · rw [hs, set_same]
  · rw [set_of_ne fun hw => hs hw.2, h]

variable {f : Side → UInt16 → Option ℕ} {c' : UInt16}

/-- An entry that is set where there was none. -/
theorem set_new {v : Option ℕ} (hnone : f w c = none) (h : f w c' = some s') :
    set f w c v w c' = some s' := by
  rw [set_of_ne fun hw => ?_, h]
  rw [hw.2, hnone] at h
  cases h

theorem removed (h : f w c' = some s') (hs : s' ≠ s) :
    (if f w c = some s then set f w c none else f) w c' = some s' := by
  split
  · rename_i hc
    rw [set_of_ne fun hw => ?_, h]
    rw [hw.2, hc] at h
    exact hs (Option.some.inj h).symm
  · exact h

theorem find_none (h : σ.find w c = none) : σ.incoming w c = none ∧ σ.outgoing w c = none :=
  Option.or_eq_none_iff.mp h

theorem Spares.refl (w : Side) (t : Thread) (σ : System) : Spares w t σ σ :=
  ⟨rfl, le_rfl, fun _ _ => rfl, fun _ _ _ h => h, fun _ _ h _ => h, fun _ _ h _ => h, fun _ h => h,
    rfl, rfl, rfl⟩

theorem move_spares (h : Move w σ t ts τ) : Spares w t σ τ := by
  have hrefl := Spares.refl w t σ
  cases h with
  | opened c frame =>
    exact { hrefl with
      next := Nat.le_succ _
      opener := fun s hs => update_of_ne hs.ne _ _ }
  | registerNew c frame s _ hfind =>
    exact { hrefl with outgoing := fun _ _ h _ => set_new (find_none hfind).2 h }
  | enterNew s c _ hnone => exact { hrefl with incoming := fun _ _ h _ => set_new hnone h }
  | remove c s =>
    exact { hrefl with
      incoming := fun _ _ h hs => removed h fun he => hs (congrArg some he.symm)
      outgoing := fun _ _ h hs => removed h fun he => hs (congrArg some he.symm)
      shut := fun _ => set_true }
  | prefaceFails | registerClosed | registerFound | outgoingClosed | prefaceInvalid | prefaceLost
  | enterClosed | enterFound | incomingClosed => exact { hrefl with shut := fun _ => set_true }
  | _ => exact { hrefl with }

theorem move_accepted (h : Move w σ t ts τ) : τ.accepted = σ.accepted := by
  cases h with
  | _ => rfl

section Spares

variable {preface : ℕ → Option UInt16} {u : Thread}

theorem Spares.opened (h : Spares w t σ τ) (hs : Opened w σ s) : Opened w τ s :=
  ⟨hs.1.trans_le h.next, (h.opener s hs.1).trans hs.2⟩

theorem Spares.isAccepted (h : Spares w t σ τ) (hs : Accepted w σ s) : Accepted w τ s :=
  ⟨hs.1.trans_le h.next, (h.opener s hs.1).trans hs.2.1, h.accepted s hs.1 hs.2.1 hs.2.2⟩

theorem Spares.registered (h : Spares w t σ τ) (hs : Registered w σ c s)
    (ht : stream t ≠ some s) : Registered w τ c s :=
  hs.imp (.imp h.opened fun ho => h.outgoing c s ho ht)
    (.imp h.isAccepted fun hi => h.incoming c s hi ht)

theorem prefaced_of_ne (hs : stream t ≠ some s) : prefaced preface t ts s = preface s := by
  unfold prefaced
  split
  · exact update_of_ne (fun he => hs (congrArg some he.symm)) _ _
  · exact update_of_ne (fun he => hs (congrArg some he.symm)) _ _
  · rfl

/-- The other goroutines are as they were. -/
theorem Spares.holds (h : Spares w t σ τ) (hu : Holds w σ preface u)
    (hstream : ∀ s, stream u = some s → stream t ≠ some s) :
    Holds w τ (prefaced preface t ts) u := by
  cases u with
  | look | lockOpen | lookAgain | openStream | send => trivial
  | writePreface | register =>
    exact ⟨h.opened hu.1, (prefaced_of_ne (hstream _ rfl)).trans hu.2⟩
  | readPreface | enter =>
    exact ⟨h.isAccepted hu.1, (prefaced_of_ne (hstream _ rfl)).trans hu.2⟩
  | startOutgoing | startIncoming | read | remove =>
    exact ⟨h.registered hu.1 (hstream _ rfl), (prefaced_of_ne (hstream _ rfl)).trans hu.2⟩
  | hold =>
    exact ⟨⟨h.registered hu.1.1 (hstream _ rfl), (prefaced_of_ne (hstream _ rfl)).trans hu.1.2⟩,
      hu.2⟩

end Spares

/-! ## What a goroutine does -/

section Move

variable {preface : ℕ → Option UInt16}

/-- With a frame that it has read a read loop ends, or goes on to hold it. -/
theorem received_cases {P : Thread → Prop} {c : UInt16} {s : ℕ} {frame : Bytes}
    (hremove : P (.remove c s)) (hhold : channelOf frame = .ok c → P (.hold c s frame)) :
    P (System.received c s frame).1 := by
  unfold System.received
  split
  · exact hremove
  · rename_i c' hc
    split
    · exact hremove
    · rename_i heq
      exact hhold (hc.trans (congrArg _ (not_not.mp heq)))

section Move

variable (h : Move w σ t ts τ)
include h

theorem move_holds (ht : Holds w σ preface t) (hblank : preface σ.next = none) :
    ∀ u ∈ ts, Holds w τ (prefaced preface t ts) u := by
  cases h with
  | lookFound | lookNone | lockOpen | againFound | againNone | registerFound | outgoingClosed =>
    exact forall_mem_singleton.mpr trivial
  | opened c frame =>
    exact forall_mem_singleton.mpr ⟨⟨Nat.lt_succ_self _, update_self ..⟩, hblank⟩
  | prefaced c frame s =>
    exact forall_mem_singleton.mpr ⟨ht.1, update_self ..⟩
  | registerNew c frame s _ _ =>
    exact forall_mem_singleton.mpr ⟨.inl ⟨ht.1, set_same⟩, ht.2⟩
  | outgoingStarted c frame s _ =>
    exact forall_mem_cons.mpr ⟨trivial, forall_mem_singleton.mpr ht⟩
  | prefaceRead s _ _ =>
    exact forall_mem_singleton.mpr ⟨ht.1, update_self ..⟩
  | enterNew s c _ _ =>
    exact forall_mem_singleton.mpr ⟨.inr ⟨ht.1, set_same⟩, ht.2⟩
  | incomingStarted c s _ => exact forall_mem_singleton.mpr ht
  | readFrame | readGarbled =>
    exact forall_mem_singleton.mpr (received_cases ht fun hc => ⟨ht, hc⟩)
  | readEnds c s err => exact forall_mem_singleton.mpr ht
  | push c s frame _ => exact forall_mem_singleton.mpr ht.1
  | release c s frame _ => exact forall_mem_singleton.mpr ht.1
  | _ => exact forall_mem_nil _

/-- The stream of a goroutine is passed on or closed; there is a new one where one is opened. -/
theorem move_stream :
    (ts.filterMap stream = (stream t).toList ∧ τ.next = σ.next ∧ τ.opener = σ.opener) ∨
    (ts.filterMap stream = [] ∧ (∀ s, stream t = some s → τ.shut w s = true) ∧
      τ.next = σ.next ∧ τ.opener = σ.opener) ∨
    (stream t = none ∧ ts.filterMap stream = [σ.next] ∧ τ.next = σ.next + 1) := by
  cases h with
  | opened => exact .inr (.inr ⟨rfl, rfl, rfl⟩)
  | prefaceFails | registerClosed | registerFound | outgoingClosed | prefaceInvalid | prefaceLost
  | enterClosed | enterFound | incomingClosed | remove =>
    refine .inr (.inl ⟨rfl, fun s hs => ?_, rfl, rfl⟩)
    cases hs
    exact set_same
  | readFrame | readGarbled =>
    exact .inl ⟨received_cases (P := fun u => [u].filterMap stream = _) rfl fun _ => rfl, rfl, rfl⟩
  | _ => exact .inl ⟨rfl, rfl, rfl⟩

theorem move_prefaces (ht : awaits t = true → 0 < σ.prefaces w) :
    τ.prefaces w + [t].countP awaits = σ.prefaces w + ts.countP awaits := by
  cases h with
  | prefaceInvalid | prefaceLost | enterClosed | enterFound | incomingClosed | incomingStarted =>
    have hpos := ht rfl
    simp [System.leavePreface, System.reportErr, System.shutStream, awaits]
    omega
  | readFrame | readGarbled =>
    exact received_cases (P := fun u => _ = _ + [u].countP awaits) rfl fun _ => rfl
  | _ => rfl

theorem move_prefaces_le : τ.prefaces w ≤ σ.prefaces w := by
  cases h with
  | prefaceInvalid | prefaceLost | enterClosed | enterFound | incomingClosed | incomingStarted =>
    exact (congrArg (· ≤ _) (update_self ..)).mpr (Nat.sub_le _ _)
  | _ => exact le_rfl

/-- Once the transport is closed, no goroutine begins to read. -/
theorem move_reading (hclosed : σ.closed w = true) :
    ∀ u ∈ ts, ∀ s, reading u = some s → reading t = some s := by
  cases h with
  | outgoingStarted c frame s hopen | incomingStarted c s hopen =>
    rw [hclosed] at hopen
    cases hopen
  | readFrame | readGarbled =>
    refine forall_mem_singleton.mpr fun s' => ?_
    exact received_cases (P := fun u => reading u = some s' → _) (fun hs => nomatch hs)
      fun _ hs => hs
  | push => exact forall_mem_singleton.mpr fun s' hs => hs
  | lookFound | lookNone | lockOpen | againFound | againNone | opened | prefaced | registerFound
  | registerNew | outgoingClosed | prefaceRead | enterNew | readEnds | release =>
    refine forall_mem_singleton.mpr fun s' hs => ?_
    cases hs
  | _ => exact forall_mem_nil _

theorem move_reads : τ.reads w = σ.reads w ++ (pushed t ts).map Prod.snd := by
  cases h with
  | push c s frame _ => exact update_self ..
  | _ => exact (append_nil _).symm

end Move

theorem pushed_channel (ht : Holds w σ preface t) :
    ∀ p ∈ pushed t ts, ∃ c, preface p.1 = some c ∧ channelOf p.2 = .ok c := by
  unfold pushed
  split
  · exact forall_mem_singleton.mpr ⟨_, ht.1.2, ht.2⟩
  · exact forall_mem_nil _

theorem of_set (h : set f w c' (some s') w c = some s) : f w c = some s ∨ c = c' ∧ s = s' := by
  by_cases hc : c = c'
  · subst hc
    rw [set_same] at h
    exact .inr ⟨rfl, (Option.some.inj h).symm⟩
  · exact .inl ((set_of_ne fun hw => hc hw.2).symm.trans h)

theorem of_removed {p : Prop} [Decidable p] (h : (if p then set f w c' none else f) w c = some s) :
    f w c = some s := by
  split at h
  · by_cases hc : c = c'
    · subst hc
      rw [set_same] at h
      cases h
    · exact (set_of_ne fun hw => hc hw.2).symm.trans h
  · exact h

theorem move_incoming (h : Move w σ t ts τ) (hs : τ.incoming w c = some s) :
    σ.incoming w c = some s ∨ t = .enter s c := by
  cases h with
  | enterNew s' c' _ _ =>
    refine (of_set hs).imp_right fun ⟨hc, hs⟩ => ?_
    rw [hc, hs]
  | remove c' s' => exact .inl (of_removed hs)
  | _ => exact .inl hs

theorem move_outgoing (h : Move w σ t ts τ) (hs : τ.outgoing w c = some s) :
    σ.outgoing w c = some s ∨ ∃ frame, t = .register c frame s := by
  cases h with
  | registerNew c' frame s' _ _ =>
    refine (of_set hs).imp_right fun ⟨hc, hs⟩ => ⟨frame, ?_⟩
    rw [hc, hs]
  | remove c' s' => exact .inl (of_removed hs)
  | _ => exact .inl hs

/-- A preface is written or read once. -/
theorem prefaced_of_some (ht : Holds w σ preface t) (hs : preface s = some c) :
    prefaced preface t ts s = some c := by
  by_cases hstream : stream t = some s
  · unfold prefaced
    split
    · cases hstream
      rw [ht.2] at hs
      cases hs
    · cases hstream
      rw [ht.2] at hs
      cases hs
    · exact hs
  · rw [prefaced_of_ne hstream, hs]

theorem holds_stream (ht : Holds w σ preface t) (hs : stream t = some s) :
    Opened w σ s ∨ Accepted w σ s := by
  cases t with
  | look | lockOpen | lookAgain | openStream | send => cases hs
  | writePreface | register => cases hs; exact .inl ht.1
  | readPreface | enter => cases hs; exact .inr ht.1
  | startOutgoing | startIncoming | read | remove => cases hs; exact ht.1.imp And.left And.left
  | hold => cases hs; exact ht.1.1.imp And.left And.left

end Move

/-! ## Runs -/

variable {σ σ' : State}

theorem setThreads_self (τ : System) (ths : List Thread) : (τ.setThreads w ths).threads w = ths :=
  update_self ..

section Thread

variable {pre post : List Thread} {τ : System} (h : Inv w σ)
  (hths : σ.sys.threads w = pre ++ t :: post) (hmove : Move w σ.sys t ts τ)

theorem mem_after {u : Thread} : u ∈ pre ++ (ts ++ post) ↔ u ∈ pre ++ post ∨ u ∈ ts := by
  simp only [mem_append]
  tauto

include hths

theorem mem_others {u : Thread} (hu : u ∈ pre ++ post) : u ∈ σ.sys.threads w := by
  rw [hths]
  exact (perm_middle.mem_iff).mpr (mem_cons_of_mem t hu)

theorem mem_self : t ∈ σ.sys.threads w := by
  rw [hths]
  exact mem_append_right _ mem_cons_self

include h

/-- The other goroutines see to other streams. -/
theorem Inv.others_stream {u : Thread} (hu : u ∈ pre ++ post) (hs : stream u = some s) :
    stream t ≠ some s := by
  intro ht
  have honce := h.once
  rw [hths, (perm_middle.filterMap stream).nodup_iff, filterMap_cons, ht] at honce
  exact (nodup_cons.mp honce).1 (mem_filterMap.mpr ⟨u, hu, hs⟩)

include hmove

theorem Inv.thread_owned (hs : Opened w τ s ∨ Accepted w τ s) :
    τ.shut w s = true ∨ ∃ u ∈ pre ++ (ts ++ post), stream u = some s := by
  have hsp := move_spares hmove
  by_cases hold : Opened w σ.sys s ∨ Accepted w σ.sys s
  · rcases h.owned s hold with hshut | ⟨u, hu, hus⟩
    · exact .inl (hsp.shut s hshut)
    · rw [hths, perm_middle.mem_iff, mem_cons] at hu
      rcases hu with rfl | hu
      · -- its own stream is passed on or closed
        rcases move_stream hmove with ⟨hts, -⟩ | ⟨-, hshut, -⟩ | ⟨hnone, -⟩
        · have hmem : s ∈ ts.filterMap stream := by
            rw [hts, hus]
            exact mem_singleton_self s
          obtain ⟨v, hv, hvs⟩ := mem_filterMap.mp hmem
          exact .inr ⟨v, mem_after.mpr (.inr hv), hvs⟩
        · exact .inl (hshut s hus)
        · rw [hnone] at hus
          cases hus
      · exact .inr ⟨u, mem_after.mpr (.inl hu), hus⟩
  · -- the stream has just been opened
    have hsame : τ.next = σ.sys.next → τ.opener = σ.sys.opener → False := by
      intro hnext hopener
      refine hold (hs.imp (fun ho => ?_) fun ha => ?_)
      · rwa [Opened, hnext, hopener] at ho
      · rwa [Accepted, hnext, hopener, move_accepted hmove] at ha
    rcases move_stream hmove with ⟨-, hnext, hopener⟩ | ⟨-, -, hnext, hopener⟩ | ⟨-, hts, hnext⟩
    · exact (hsame hnext hopener).elim
    · exact (hsame hnext hopener).elim
    · have hlt : s < σ.sys.next + 1 := hnext ▸ hs.elim And.left And.left
      rcases Nat.lt_succ_iff_lt_or_eq.mp hlt with hlt | rfl
      · refine (hold (hs.imp (fun ho => ⟨hlt, ?_⟩) fun ha => ⟨hlt, ?_, ?_⟩)).elim
        · rw [← hsp.opener s hlt, ho.2]
        · rw [← hsp.opener s hlt, ha.2.1]
        · rw [← move_accepted hmove, ha.2.2]
      · have hmem : σ.sys.next ∈ ts.filterMap stream := by
          rw [hts]
          exact mem_singleton_self _
        obtain ⟨v, hv, hvs⟩ := mem_filterMap.mp hmem
        exact .inr ⟨v, mem_after.mpr (.inr hv), hvs⟩

theorem Inv.thread_once : ((pre ++ (ts ++ post)).filterMap stream).Nodup := by
  have hperm : ((pre ++ (ts ++ post)).filterMap stream).Perm
      (ts.filterMap stream ++ (pre ++ post).filterMap stream) := by
    rw [← filterMap_append]
    refine List.Perm.filterMap stream ?_
    rw [← append_assoc, ← append_assoc]
    exact List.Perm.append_right post perm_append_comm
  have honce := h.once
  rw [hths, (perm_middle.filterMap stream).nodup_iff] at honce
  rw [hperm.nodup_iff]
  rcases move_stream hmove with ⟨hts, -⟩ | ⟨hts, -⟩ | ⟨hnone, hts, -⟩
  · rw [hts]
    cases hst : stream t with
    | none => rwa [filterMap_cons, hst] at honce
    | some s => rwa [filterMap_cons, hst] at honce
  · rw [hts, nil_append]
    exact (List.Nodup.sublist ((sublist_cons_self t _).filterMap stream)) honce
  · rw [hts]
    rw [filterMap_cons, hnone] at honce
    refine nodup_cons.mpr ⟨fun hmem => ?_, honce⟩
    -- the streams there are have other numbers
    obtain ⟨u, hu, hus⟩ := mem_filterMap.mp hmem
    exact (holds_stream (h.holds u (mem_others hths hu)) hus).elim
      (fun ho => lt_irrefl _ ho.1) fun ha => lt_irrefl _ ha.1

theorem Inv.thread_holds :
    ∀ u ∈ pre ++ (ts ++ post), Holds w τ (prefaced σ.preface t ts) u := by
  intro u hu
  rcases mem_after.mp hu with hu | hu
  · exact (move_spares hmove).holds (h.holds u (mem_others hths hu))
      fun s hs => h.others_stream hths hu hs
  · exact move_holds hmove (h.holds t (mem_self hths))
      (h.blank _ (fun ho => lt_irrefl _ ho.1) fun ha => lt_irrefl _ ha.1) u hu

theorem Inv.thread_tokens : τ.prefaces w = (pre ++ (ts ++ post)).countP awaits := by
  have htokens := h.tokens
  rw [hths, perm_middle.countP_eq, ← singleton_append, countP_append,
    countP_append] at htokens
  have hmoved := move_prefaces hmove fun ht => by
    rw [htokens, countP_singleton, if_pos ht]
    omega
  simp only [countP_append]
  omega

theorem Inv.thread_closed (hclosed : σ.sys.closed w = true) :
    ∀ u ∈ pre ++ (ts ++ post), ∀ s, reading u = some s →
      τ.shut w s = true ∨ s ∈ σ.closing := by
  intro u hu s hs
  have hold : ∃ v ∈ σ.sys.threads w, reading v = some s := by
    rcases mem_after.mp hu with hu | hu
    · exact ⟨u, mem_others hths hu, hs⟩
    · exact ⟨t, mem_self hths, move_reading hmove hclosed u hu s hs⟩
  obtain ⟨v, hv, hvs⟩ := hold
  exact ((h.closed hclosed).2 v hv s hvs).imp_left ((move_spares hmove).shut s)

theorem Inv.thread : Inv w { σ with
    sys := τ.setThreads w (pre ++ (ts ++ post))
    preface := prefaced σ.preface t ts
    queued := σ.queued ++ pushed t ts } := by
  have hsp := move_spares hmove
  have ht := h.holds t (mem_self hths)
  have hthreads := setThreads_self (w := w) τ (pre ++ (ts ++ post))
  have howned := fun s => h.thread_owned (s := s) hths hmove
  have hholds := h.thread_holds hths hmove
  have htokens := h.thread_tokens hths hmove
  have hclosed := h.thread_closed hths hmove
  exact
    { owned := fun s hs => by
        rw [hthreads]
        exact howned s hs
      once := by
        rw [hthreads]
        exact h.thread_once hths hmove
      holds := by
        rw [hthreads]
        exact hholds
      incoming := fun c s hs => by
        rcases move_incoming hmove hs with hs | rfl
        · obtain ⟨hacc, hpre⟩ := h.incoming c s hs
          exact ⟨hsp.isAccepted hacc, prefaced_of_some ht hpre⟩
        · exact ⟨hsp.isAccepted ht.1, ht.2⟩
      outgoing := fun c s hs => by
        rcases move_outgoing hmove hs with hs | ⟨frame, rfl⟩
        · obtain ⟨hopen, hpre⟩ := h.outgoing c s hs
          exact ⟨hsp.opened hopen, prefaced_of_some ht hpre⟩
        · exact ⟨hsp.opened ht.1, ht.2⟩
      blank := fun s hno hna => by
        have hne : stream t ≠ some s := fun hs =>
          (holds_stream ht hs).elim (fun ho => hno (hsp.opened ho)) fun ha =>
            hna (hsp.isAccepted ha)
        exact (prefaced_of_ne hne).trans
          (h.blank s (fun ho => hno (hsp.opened ho)) fun ha => hna (hsp.isAccepted ha))
      tokens := by
        rw [hthreads]
        exact htokens
      limit := by
        have hlimit : τ.prefaces w ≤ (τ.config w).prefaceLimit := by
          rw [hsp.config]
          exact (move_prefaces_le hmove).trans h.limit
        exact hlimit
      closed := fun hc => by
        have hc : σ.sys.closed w = true := hsp.closed.symm.trans hc
        refine ⟨hsp.done.trans (h.closed hc).1, ?_⟩
        rw [hthreads]
        exact hclosed hc
      reads := by
        rw [map_append, h.reads]
        exact (move_reads hmove).symm
      returned := h.returned.trans hsp.returned.symm
      channel := by
        intro p hp
        have hold : ∃ c, σ.preface p.1 = some c ∧ channelOf p.2 = .ok c := by
          simp only [mem_append] at hp
          rcases hp with (hp | hp) | hp
          · exact h.channel p (mem_append_left _ hp)
          · exact pushed_channel ht p hp
          · exact h.channel p (mem_append_right _ hp)
        exact hold.imp fun c => .imp_left (prefaced_of_some ht) }

end Thread

/-- A call of `SendFrameOnChannel` begins without a stream. -/
theorem Inv.call (h : Inv w σ) (c : UInt16) (frame : Bytes) :
    Inv w { σ with sys := σ.sys.setThreads w (σ.sys.threads w ++ [.look c frame]) } := by
  have hthreads := setThreads_self (w := w) σ.sys (σ.sys.threads w ++ [.look c frame])
  refine { h with
    owned := fun s hs => ?_, once := ?_, holds := ?_, tokens := ?_, closed := fun hc => ?_ }
  · rw [hthreads]
    exact (h.owned s hs).imp_right fun ⟨u, hu, hus⟩ => ⟨u, mem_append_left _ hu, hus⟩
  · rw [hthreads, filterMap_append, filterMap_cons_none rfl, filterMap_nil,
      append_nil]
    exact h.once
  · rw [hthreads]
    exact forall_mem_append.mpr ⟨h.holds, forall_mem_singleton.mpr trivial⟩
  · rw [hthreads, countP_append]
    exact h.tokens
  · refine ⟨(h.closed hc).1, ?_⟩
    rw [hthreads]
    refine forall_mem_append.mpr ⟨(h.closed hc).2, forall_mem_singleton.mpr ?_⟩
    intro s hs
    cases hs

variable {τ : System}

/-- Steps that no goroutine takes leave them all alone. -/
theorem Spares.holds_all (hsp : Spares w (.look 0 []) σ.sys τ) (h : Inv w σ) :
    ∀ u ∈ σ.sys.threads w, Holds w τ σ.preface u := by
  intro u hu
  have hall : Holds w τ (prefaced σ.preface (.look 0 []) []) u :=
    hsp.holds (h.holds u hu) fun _ _ hs => nomatch hs
  exact hall

/-- The stream `s` of the peer is accepted. -/
structure Taken (w : Side) (s : ℕ) (σ τ : System) : Prop where
  spares : Spares w (.look 0 []) σ τ
  next : τ.next = σ.next
  opener : τ.opener = σ.opener
  accepted : τ.accepted = update σ.accepted s true
  lt : s < σ.next
  peer : σ.opener s = w.peer
  fresh : σ.accepted s = false

section Taken

variable {τ : System}

theorem Taken.self (ht : Taken w s σ.sys τ) : Accepted w τ s :=
  ⟨ht.next ▸ ht.lt, ht.opener ▸ ht.peer, by rw [ht.accepted, update_self]⟩

theorem Taken.old (ht : Taken w s σ.sys τ) (hs : Opened w τ s' ∨ Accepted w τ s') :
    (Opened w σ.sys s' ∨ Accepted w σ.sys s') ∨ s' = s := by
  by_cases hss : s' = s
  · exact .inr hss
  · refine .inl (hs.imp (fun ho => ?_) fun ha => ?_)
    · rwa [Opened, ht.next, ht.opener] at ho
    · rwa [Accepted, ht.next, ht.opener, ht.accepted, update_of_ne hss] at ha

theorem Taken.blank (ht : Taken w s σ.sys τ) (h : Inv w σ) : σ.preface s = none :=
  h.blank s (fun ho => w.peer_ne (ht.peer.symm.trans ho.2)) fun ha => by
    rw [Accepted, ht.fresh] at ha
    exact Bool.false_ne_true ha.2.2

end Taken

theorem Inv.accept (h : Inv w σ) (hopen : σ.sys.closed w = false)
    (hlimit : σ.sys.prefaces w < (σ.sys.config w).prefaceLimit)
    (ht : Taken w s σ.sys (take w σ.sys s)) :
    Inv w { σ with
      sys := (take w σ.sys s).setThreads w (σ.sys.threads w ++ [.readPreface s]) } := by
  have hthreads := setThreads_self (w := w) (take w σ.sys s)
    (σ.sys.threads w ++ [.readPreface s])
  have hblank := ht.blank h
  have hholds := ht.spares.holds_all h
  have hself : Holds w (take w σ.sys s) σ.preface (.readPreface s) := ⟨ht.self, hblank⟩
  -- a goroutine that saw to the stream would have accepted it
  have hnot : s ∉ (σ.sys.threads w).filterMap stream := by
    intro hmem
    obtain ⟨u, hu, hus⟩ := mem_filterMap.mp hmem
    rcases holds_stream (h.holds u hu) hus with ho | ha
    · exact w.peer_ne (ht.peer.symm.trans ho.2)
    · exact Bool.false_ne_true (ht.fresh.symm.trans ha.2.2)
  refine { h with
    owned := fun s' hs => ?_, once := ?_, holds := ?_
    incoming := fun c s hs => (h.incoming c s hs).imp_left ht.spares.isAccepted
    blank := fun s' hno hna => h.blank s' hno fun ha => hna (ht.spares.isAccepted ha)
    tokens := ?_, limit := ?_, closed := fun hc => ?_ }
  · rw [hthreads]
    rcases ht.old hs with hold | rfl
    · exact (h.owned s' hold).imp_right fun ⟨u, hu, hus⟩ => ⟨u, mem_append_left _ hu, hus⟩
    · exact .inr ⟨_, mem_append_right _ (mem_singleton_self _), rfl⟩
  · rw [hthreads, filterMap_append]
    refine nodup_append.mpr ⟨h.once, pairwise_singleton _ s, fun a ha b hb => ?_⟩
    rintro rfl
    exact hnot (mem_singleton.mp hb ▸ ha)
  · rw [hthreads]
    exact forall_mem_append.mpr ⟨hholds, forall_mem_singleton.mpr hself⟩
  · rw [hthreads, countP_append, ← h.tokens]
    exact update_self ..
  · exact (congrArg (· ≤ _) (update_self ..)).mpr hlimit
  · exact (Bool.false_ne_true (hopen.symm.trans hc)).elim

theorem Inv.acceptClosed (h : Inv w σ) (b : Side → Bool)
    (ht : Taken w s σ.sys { σ.sys with
      accepted := update σ.sys.accepted s true
      shut := set σ.sys.shut w s true
      accepting := b }) :
    Inv w { σ with sys := { σ.sys with
      accepted := update σ.sys.accepted s true
      shut := set σ.sys.shut w s true
      accepting := b } } := by
  refine { h with
    owned := fun s' hs => ?_
    holds := ht.spares.holds_all h
    incoming := fun c s hs => (h.incoming c s hs).imp_left ht.spares.isAccepted
    blank := fun s' hno hna => h.blank s' hno fun ha => hna (ht.spares.isAccepted ha)
    closed := fun hc => ⟨(h.closed hc).1, fun u hu s' hs =>
      ((h.closed hc).2 u hu s' hs).imp_left set_true⟩ }
  rcases ht.old hs with hold | rfl
  · exact (h.owned s' hold).imp_left set_true
  · exact .inl set_same

/-- A frame is taken from `reads`. -/
theorem Inv.taken_reads (h : Inv w σ) {frame : Bytes} {rest : List Bytes}
    (hreads : σ.sys.reads w = frame :: rest) :
    ∃ s q, σ.queued = (s, frame) :: q ∧ q.map Prod.snd = rest := by
  obtain ⟨⟨s, f⟩, q, hq, rfl, hrest⟩ := map_eq_cons_iff.mp (h.reads.trans hreads)
  exact ⟨s, q, hq, hrest⟩

theorem Inv.close (h : Inv w σ) {streams : List ℕ} (hstreams : ∀ s, s ∈ streams ↔ σ.sys.Owned w s) :
    Inv w { σ with
      sys := { σ.sys with
        closed := update σ.sys.closed w true
        done := update σ.sys.done w true }
      closing := streams } := by
  refine { h with
    closed := fun _ => ⟨update_self .., fun u hu s hs => .inr ((hstreams s).mpr ?_)⟩ }
  -- a stream that is read is registered, or its preface is awaited
  have hu' := h.holds u hu
  have hreg : ∀ {c}, Registered w σ.sys c s → σ.sys.Owned w s := fun {c} hr =>
    hr.elim (fun ho => .inr (.inl ⟨c, ho.2⟩)) fun hi => .inl ⟨c, hi.2⟩
  cases u with
  | readPreface s' =>
    cases hs
    exact .inr (.inr (.inl hu))
  | read c s' =>
    cases hs
    exact hreg hu'.1
  | hold c s' frame =>
    cases hs
    exact hreg hu'.1.1
  | _ => cases hs

theorem Apart.old (ha : Apart w σ.sys τ) (hs : Opened w τ s ∨ Accepted w τ s) :
    Opened w σ.sys s ∨ Accepted w σ.sys s := by
  rcases Nat.lt_or_ge s σ.sys.next with hlt | hge
  · refine hs.imp (fun ho => ⟨hlt, (ha.opener s hlt).symm.trans ho.2⟩) fun hacc => ?_
    have hopener := (ha.opener s hlt).symm.trans hacc.2.1
    exact ⟨hlt, hopener, (ha.accepted s hlt hopener).symm.trans hacc.2.2⟩
  · -- a new stream of the peer
    rcases hs with ho | hacc
    · exact (w.peer_ne ((ha.fresh s hge ho.1).1.symm.trans ho.2)).elim
    · exact (Bool.false_ne_true ((ha.fresh s hge hacc.1).2.symm.trans hacc.2.2)).elim

theorem Apart.spares (ha : Apart w σ.sys τ) : Spares w (.look 0 []) σ.sys τ where
  config := ha.config
  next := ha.next
  opener := ha.opener
  accepted s hs hopener hacc := (ha.accepted s hs hopener).trans hacc
  incoming c _ hs _ := (congrFun ha.incoming c).trans hs
  outgoing c _ hs _ := (congrFun ha.outgoing c).trans hs
  shut s hs := (congrFun ha.shut s).trans hs
  closed := ha.closed
  done := ha.done
  returned := ha.returned

theorem Inv.peer (h : Inv w σ) (ha : Apart w σ.sys τ) : Inv w { σ with sys := τ } := by
  have hsp := ha.spares
  refine ⟨fun s hs => ?_, ?_, ?_, fun c s hs => ?_, fun c s hs => ?_, fun s hno hna => ?_, ?_, ?_,
    fun hc => ?_, ?_, ?_, h.channel⟩
  · rw [ha.shut, ha.threads]
    exact h.owned s (ha.old hs)
  · rw [ha.threads]
    exact h.once
  · rw [ha.threads]
    exact hsp.holds_all h
  · rw [ha.incoming] at hs
    exact (h.incoming c s hs).imp_left hsp.isAccepted
  · rw [ha.outgoing] at hs
    exact (h.outgoing c s hs).imp_left hsp.opened
  · exact h.blank s (fun ho => hno (hsp.opened ho)) fun hacc => hna (hsp.isAccepted hacc)
  · rw [ha.prefaces, ha.threads]
    exact h.tokens
  · rw [ha.prefaces, ha.config]
    exact h.limit
  · rw [ha.closed] at hc
    rw [ha.done, ha.threads, ha.shut]
    exact h.closed hc
  · rw [ha.reads]
    exact h.reads
  · rw [ha.returned]
    exact h.returned

theorem update_true {f : ℕ → Bool} {s s' : ℕ} (h : f s' = true) :
    update f s true s' = true := by
  by_cases hs : s' = s
  · rw [hs, update_self]
  · rw [update_of_ne hs, h]

theorem Inv.act (h : Inv w σ) (hact : Act w σ σ') : Inv w σ' := by
  have hrefl := Spares.refl w (.look 0 []) σ.sys
  cases hact with
  | thread pre t post ts τ hths hmove => exact h.thread hths hmove
  | call c frame _ _ => exact h.call c frame
  | accept s _ hopen hlimit hs hopener hnew =>
    exact h.accept hopen hlimit ⟨{ hrefl with accepted := fun _ _ _ => update_true }, rfl, rfl, rfl,
      hs, hopener, hnew⟩
  | acceptClosed s _ hclosed hs hopener hnew =>
    exact h.acceptClosed _ ⟨{ hrefl with
      accepted := fun _ _ _ => update_true
      shut := fun _ => set_true }, rfl, rfl, rfl, hs, hopener, hnew⟩
  | readFrameLease frame rest hreads =>
    obtain ⟨s, q, hq, hrest⟩ := h.taken_reads hreads
    refine { h with reads := ?_, returned := ?_, channel := fun p hp => h.channel p ?_ }
    · simp [hq, hrest]
    · simp [hq, h.returned]
    · rw [hq, tail_cons, take_succ_cons, take_zero] at hp
      rw [hq]
      simp only [mem_append, mem_cons, not_mem_nil, or_false] at hp ⊢
      tauto
  | acceptFails | readErr => exact { h with }
  | cancel =>
    exact { h with closed := fun hc => ⟨update_self .., (h.closed hc).2⟩ }
  | close streams hopen hstreams => exact h.close hstreams
  | closeNext s streams hclosing =>
    refine { h with
      owned := fun s hs => (h.owned s hs).imp_left set_true
      closed := fun hc => ⟨(h.closed hc).1, fun u hu s' hs => ?_⟩ }
    rcases (h.closed hc).2 u hu s' hs with hshut | hmem
    · exact .inl (set_true hshut)
    · rw [hclosing] at hmem
      rcases mem_cons.mp hmem with rfl | hmem
      · exact .inl set_same
      · exact .inr hmem
  | drain frame rest _ _ hreads =>
    obtain ⟨s, q, hq, hrest⟩ := h.taken_reads hreads
    refine { h with reads := ?_, channel := fun p hp => h.channel p ?_ }
    · simp [hq, hrest]
    · exact (mem_append.mp hp).elim
        (fun hp => mem_append_left _ (mem_of_mem_tail hp))
        fun hp => mem_append_right _ hp
  | peer τ hpeer => exact h.peer hpeer

theorem inv_begin (config : Side → Config) : Inv w (begin config) where
  owned s hs := by
    rcases hs with ho | ha
    · exact absurd ho.1 (Nat.not_lt_zero s)
    · exact absurd ha.1 (Nat.not_lt_zero s)
  once := nodup_nil
  holds := forall_mem_nil _
  incoming _ _ hs := nomatch hs
  outgoing _ _ hs := nomatch hs
  blank _ _ _ := rfl
  tokens := rfl
  limit := Nat.zero_le _
  closed hc := nomatch hc
  reads := rfl
  returned := rfl
  channel := forall_mem_nil _

/-- A goroutine with a stream can go on, except that one with a frame may have to wait until there
    is room for it or the transport is done. -/
theorem exists_move {σ : System} (ht : (stream t).isSome) (hdone : σ.done w = true) :
    ∃ ts τ, Move w σ t ts τ := by
  cases t with
  | look | lockOpen | lookAgain | openStream | send => cases ht
  | writePreface c frame s => exact ⟨_, _, .prefaced c frame s⟩
  | register c frame s =>
    cases hc : σ.closed w with
    | true => exact ⟨_, _, .registerClosed c frame s hc⟩
    | false =>
      cases hf : σ.find w c with
      | none => exact ⟨_, _, .registerNew c frame s hc hf⟩
      | some s' => exact ⟨_, _, .registerFound c frame s s' hc hf⟩
  | startOutgoing c frame s =>
    cases hc : σ.closed w with
    | true => exact ⟨_, _, .outgoingClosed c frame s hc⟩
    | false => exact ⟨_, _, .outgoingStarted c frame s hc⟩
  | readPreface s => exact ⟨_, _, .prefaceLost s ""⟩
  | enter s c =>
    cases hc : σ.closed w with
    | true => exact ⟨_, _, .enterClosed s c hc⟩
    | false =>
      cases hf : σ.incoming w c with
      | none => exact ⟨_, _, .enterNew s c hc hf⟩
      | some s' => exact ⟨_, _, .enterFound s c s' hc hf⟩
  | startIncoming c s =>
    cases hc : σ.closed w with
    | true => exact ⟨_, _, .incomingClosed c s hc⟩
    | false => exact ⟨_, _, .incomingStarted c s hc⟩
  | read c s => exact ⟨_, _, .readEnds c s none⟩
  | hold c s frame => exact ⟨_, _, .release c s frame hdone⟩
  | remove c s => exact ⟨_, _, .remove c s⟩

theorem Inv.shut_of_quiescent (h : Inv w σ) (hclosed : σ.sys.closed w = true)
    (hquiet : Quiescent w σ) (hs : Opened w σ.sys s ∨ Accepted w σ.sys s) :
    σ.sys.shut w s = true := by
  obtain ⟨hdone, hreading⟩ := h.closed hclosed
  rcases h.owned s hs with hshut | ⟨t, ht, hts⟩
  · exact hshut
  · rcases hquiet.2 t ht with ⟨s', hopen, hwait⟩ | hstuck
    · -- what is read has been closed
      have hread : reading t = some s' := by
        rcases hwait with rfl | ⟨c, rfl⟩
        · rfl
        · rfl
      rcases hreading t ht s' hread with hshut | hmem
      · exact (Bool.false_ne_true (hopen.symm.trans hshut)).elim
      · rw [hquiet.1] at hmem
        cases hmem
    · obtain ⟨ts, τ, hmove⟩ := exists_move (by rw [hts]; rfl) hdone
      exact (hstuck ts τ hmove).elim

theorem Holds.registered {σ : System} {preface : ℕ → Option UInt16} (ht : Holds w σ preface t)
    (hs : Serves c s t) : Registered w σ c s := by
  cases t with
  | startOutgoing | startIncoming | read | remove =>
    obtain ⟨rfl, rfl⟩ := hs
    exact ht.1
  | hold =>
    obtain ⟨rfl, rfl⟩ := hs
    exact ht.1.1
  | _ => exact hs.elim

/-- Two registered streams of one channel, both opened or both accepted, are one. -/
theorem Registered.unique {σ : System} (h : Registered w σ c s) (h' : Registered w σ c s')
    (hopener : σ.opener s = σ.opener s') : s = s' := by
  rcases h with ⟨ho, hout⟩ | ⟨ha, hin⟩
  · rcases h' with ⟨-, hout'⟩ | ⟨ha', -⟩
    · exact Option.some.inj (hout.symm.trans hout')
    · exact (w.peer_ne (ha'.2.1.symm.trans (hopener.symm.trans ho.2))).elim
  · rcases h' with ⟨ho', -⟩ | ⟨-, hin'⟩
    · exact (w.peer_ne (ha.2.1.symm.trans (hopener.trans ho'.2))).elim
    · exact Option.some.inj (hin.symm.trans hin')

theorem act_config (h : Act w σ σ') : σ'.sys.config w = σ.sys.config w := by
  cases h with
  | thread _ _ _ _ _ _ hmove => exact (move_spares hmove).config
  | peer _ ha => exact ha.config
  | _ => rfl

/-- A transport owns its streams, in every state of every run and whatever its peer does: what is
    registered for a channel was opened or accepted and has the channel for its preface; the
    goroutines that serve a channel serve one stream that was opened and one that was accepted at
    most; no more than `PrefaceLimit` streams await their preface; every frame that was returned
    came over a stream whose preface is the channel of the frame; and when nothing is left to do
    after `Close`, every stream that was ever opened or accepted is closed. -/
theorem streams_owned (config : Side → Config) (w : Side) {σ : State}
    (h : ReflTransGen (Act w) (begin config) σ) :
    (∀ c s, σ.sys.incoming w c = some s → Accepted w σ.sys s ∧ σ.preface s = some c) ∧
    (∀ c s, σ.sys.outgoing w c = some s → Opened w σ.sys s ∧ σ.preface s = some c) ∧
    (∀ t ∈ σ.sys.threads w, ∀ u ∈ σ.sys.threads w, ∀ c s s', Serves c s t → Serves c s' u →
      σ.sys.opener s = σ.sys.opener s' → s = s') ∧
    (σ.sys.threads w).countP awaits ≤ (config w).prefaceLimit ∧
    σ.delivered.map Prod.snd = σ.sys.returned w ∧
    (∀ p ∈ σ.delivered, ∃ c, σ.preface p.1 = some c ∧ channelOf p.2 = .ok c) ∧
    (σ.sys.closed w = true → Quiescent w σ →
      ∀ s, Opened w σ.sys s ∨ Accepted w σ.sys s → σ.sys.shut w s = true) := by
  have hinv : Inv w σ := Run.invariant (Inv w) (inv_begin config) (fun _ _ h => h.act) h
  have hconfig : σ.sys.config w = config w := Run.invariant (fun σ => σ.sys.config w = config w) rfl
    (fun _ _ h hact => (act_config hact).trans h) h
  refine ⟨hinv.incoming, hinv.outgoing, fun t ht u hu c s s' hs hs' => ?_, ?_, hinv.returned,
    fun p hp => hinv.channel p (mem_append_right _ hp),
    fun hclosed hquiet s => hinv.shut_of_quiescent hclosed hquiet⟩
  · exact ((hinv.holds t ht).registered hs).unique ((hinv.holds u hu).registered hs')
  · rw [← hconfig, ← hinv.tokens]
    exact hinv.limit

/-- `Close` meets a stream that was accepted and awaits its preface. -/
theorem streams_owned_pending :
    ∃ σ : State, ReflTransGen (Act .client) (begin fun _ => {}) σ ∧ σ.sys.closed .client = true ∧
      Accepted .client σ.sys 0 ∧ σ.sys.shut .client 0 = true := by
  let σ₁ : State := { sys := (start fun _ => {}).addStream .server 0 }
  let σ₂ : State := { sys := (take .client σ₁.sys 0).setThreads .client [.readPreface 0] }
  let σ₃ : State :=
    { sys := { σ₂.sys with
        closed := update σ₂.sys.closed .client true
        done := update σ₂.sys.done .client true }
      closing := [0] }
  let σ₄ : State := { sys := σ₃.sys.shutStream .client 0 }
  let σ₅ : State := { sys := (((σ₄.sys.shutStream .client 0).reportErr .client
    (some "EOF")).leavePreface .client).setThreads .client [] }
  have h₁ : Act .client (begin fun _ => {}) σ₁ :=
    .peer _ ⟨rfl, rfl, rfl, rfl, rfl, rfl, rfl, rfl, rfl, rfl, rfl, rfl, rfl, Nat.zero_le _,
      fun s hs => absurd hs (Nat.not_lt_zero s), fun s hs => absurd hs (Nat.not_lt_zero s),
      fun s _ hs => by
        rw [Nat.lt_one_iff.mp hs]
        exact ⟨rfl, rfl⟩⟩
  have h₂ : Act .client σ₁ σ₂ := .accept 0 rfl rfl (by decide) Nat.zero_lt_one rfl rfl
  have h₃ : Act .client σ₂ σ₃ := .close [0] rfl fun s => by
    simp [σ₁, σ₂, System.Owned, System.setThreads, take, System.addStream, start]
  have h₄ : Act .client σ₃ σ₄ := .closeNext 0 [] rfl
  have h₅ : Act .client σ₄ σ₅ := .thread [] (.readPreface 0) [] [] _ rfl (.prefaceLost 0 "EOF")
  have hrun : ReflTransGen (Act .client) (begin fun _ => {}) σ₅ :=
    .tail (.tail (.tail (.tail (.single h₁) h₂) h₃) h₄) h₅
  have haccepted : Accepted .client σ₅.sys 0 := ⟨Nat.zero_lt_one, rfl, rfl⟩
  obtain ⟨-, -, -, -, -, -, hshut⟩ := streams_owned _ .client hrun
  exact ⟨σ₅, hrun, rfl, haccepted,
    hshut rfl ⟨rfl, forall_mem_nil _⟩ 0 (.inr haccepted)⟩

end Etp.Streams.Owner
