import Etp.Lib.Lines
import Etp.Lib.Run
import Etp.Streams.Machine

/-!
# The order of a channel

What a side hands over on a channel goes to the streams of the channel, and each
stream is a line in the sense of `Lines`: what is on its way in it is the frame
its read loop holds, followed by the frames in its queue (`line`), and it goes on
as long as there is a goroutine that reads it or may come to read it (`live`). A
stream has one such goroutine at a side at most (`Inv.reader`).

So the order is that of the calls along runs in which a side changes the stream
it uses for a channel only when all it sent on the channel has arrived
(`channel_ordered`). `streamForChannel` does not see to it: a side that has opened
a stream for a channel and sent on it goes over to the peer's stream for the
channel as soon as it has accepted it (`channel_overtaken`).
-/

namespace Etp.Streams

open Relation Wire Octets Lines Function List

/-! ## What is on its way -/

/-- The goroutine reads the stream, or may come to. -/
def Thread.reader (s : ℕ) : Thread → Bool
  | .writePreface _ _ s' | .register _ _ s' | .startOutgoing _ _ s' | .readPreface s'
  | .enter s' _ | .startIncoming _ s' | .read _ s' | .hold _ s' _ => s' = s
  | .look _ _ | .lockOpen _ _ | .lookAgain _ _ | .openStream _ _ | .send _ _ _ | .remove _ _ =>
    false

/-- The frame it has read from the stream and holds. -/
def Thread.held (s : ℕ) : Thread → List Bytes
  | .hold _ s' frame => if s' = s then [frame] else []
  | _ => []

variable {s : ℕ}

theorem Thread.held_of_not_reader {t : Thread} (h : t.reader s = false) : t.held s = [] := by
  cases t with
  | hold c s' frame => exact if_neg (of_decide_eq_false h)
  | _ => rfl

/-- The frames of a side that are on their way over a stream, as far as they are of a channel. -/
def line (σ : System) (w : Side) (c : UInt16) (s : ℕ) : List Bytes :=
  if σ.channel s = c then (σ.threads w.peer).flatMap (Thread.held s) ++ σ.queue w s else []

/-- The stream is still to be opened or accepted, or has a goroutine of the side `r` to read it. -/
def live (σ : System) (r : Side) (s : ℕ) : Prop :=
  σ.next ≤ s ∨ (σ.opener s = r.peer ∧ σ.accepted s = false) ∨
    ∃ t ∈ σ.threads r, t.reader s = true

/-- The frame is on the channel. -/
def onChannel (c : UInt16) (frame : Bytes) : Bool :=
  match channelOf frame with
  | .ok c' => c' = c
  | .error _ => false

variable {c : UInt16}

theorem onChannel_of_ok {frame : Bytes} (h : channelOf frame = .ok c) (c' : UInt16) :
    onChannel c' frame = decide (c = c') := by
  rw [onChannel, h]

/-- What has arrived at a side on a channel. -/
def arrivedOn (σ : System) (r : Side) (c : UInt16) : List Bytes :=
  (σ.arrived r).filter (onChannel c)

/-- A step that hands over a frame on a channel takes it to the stream of the frame before, or to
    one to which all frames before have arrived; and no write to this stream has failed in the
    middle of a frame. -/
def Steady (σ σ' : System) : Prop :=
  ∀ w c s, σ'.sent w c ≠ σ.sent w c → σ'.last w c = some s →
    σ.cut w s = false ∧ (σ.last w c = some s ∨ arrivedOn σ w.peer c = σ.sent w c)

/-! ## The invariant -/

/-- What the variables of a goroutine satisfy. -/
def Thread.Fits (σ : System) : Thread → Prop
  | .look c frame | .lockOpen c frame | .lookAgain c frame | .openStream c frame =>
    channelOf frame = .ok c
  | .writePreface c frame s | .register c frame s | .startOutgoing c frame s | .send c frame s =>
    channelOf frame = .ok c ∧ s < σ.next ∧ σ.channel s = c
  | .readPreface s => s < σ.next
  | .enter s c | .startIncoming c s | .read c s => s < σ.next ∧ σ.channel s = c
  | .hold c s frame => channelOf frame = .ok c ∧ s < σ.next ∧ σ.channel s = c
  | .remove _ _ => True

/-- The channels agree in the maps and on the streams, and no stream is broken. -/
structure Tidy (σ : System) : Prop where
  incoming : ∀ w c s, σ.incoming w c = some s → s < σ.next ∧ σ.channel s = c
  outgoing : ∀ w c s, σ.outgoing w c = some s → s < σ.next ∧ σ.channel s = c
  preface : ∀ s, σ.preface s = [] ∨ s < σ.next ∧ σ.preface s = be16 (σ.channel s)
  queued : ∀ w s, ∀ frame ∈ σ.queue w s, s < σ.next ∧ channelOf frame = .ok (σ.channel s)
  whole : ∀ w s, σ.garbled w s = false

variable {σ σ' : System} {w : Side} {t : Thread} {ts : List Thread}

theorem Tidy.find (h : Tidy σ) (hs : σ.find w c = some s) : s < σ.next ∧ σ.channel s = c := by
  rcases Option.or_eq_some_iff.mp hs with hin | ⟨-, hout⟩
  · exact h.incoming w c s hin
  · exact h.outgoing w c s hout

/-- The streams there are keep their channels. -/
structure Grows (σ σ' : System) : Prop where
  next : σ.next ≤ σ'.next
  channel : ∀ s < σ.next, σ'.channel s = σ.channel s

theorem Grows.refl (hn : σ'.next = σ.next) (hc : σ'.channel = σ.channel) : Grows σ σ' :=
  ⟨hn.ge, fun _ _ => congrFun hc _⟩

theorem Grows.on (h : Grows σ σ') (hs : s < σ.next ∧ σ.channel s = c) :
    s < σ'.next ∧ σ'.channel s = c :=
  ⟨hs.1.trans_le h.next, (h.channel s hs.1).trans hs.2⟩

theorem Thread.Fits.grows (ht : t.Fits σ) (h : Grows σ σ') : t.Fits σ' := by
  cases t with
  | look | lockOpen | lookAgain | openStream => exact ht
  | writePreface | register | startOutgoing | send | hold => exact ⟨ht.1, h.on ht.2⟩
  | readPreface s => exact lt_of_lt_of_le ht h.next
  | enter | startIncoming | read => exact h.on ht
  | remove => trivial

theorem Move.grows (h : Move w σ t ts σ') : Grows σ σ' := by
  cases h with
  | opened c frame =>
    exact ⟨Nat.le_succ _, fun s hs => update_of_ne (Nat.ne_of_lt hs) _ _⟩
  | _ => exact .refl rfl rfl

theorem received_ok {frame : Bytes} (h : channelOf frame = .ok c) :
    System.received c s frame = (.hold c s frame, none) := by
  rw [System.received, h]
  exact if_neg (not_not_intro rfl)

/-- An entry that is set to a stream of the channel, in a map of streams. -/
theorem on_set {f : Side → UInt16 → Option ℕ}
    (hf : ∀ v c' s', f v c' = some s' → s' < σ.next ∧ σ.channel s' = c')
    (hs : s < σ.next ∧ σ.channel s = c) (v : Side) (c' : UInt16) (s' : ℕ)
    (h : set f w c (some s) v c' = some s') : s' < σ.next ∧ σ.channel s' = c' := by
  by_cases hv : v = w ∧ c' = c
  · obtain ⟨rfl, rfl⟩ := hv
    rw [set_same] at h
    exact Option.some.inj h ▸ hs
  · rw [set_of_ne hv] at h
    exact hf v c' s' h

/-- An entry that is removed from a map of streams. -/
theorem on_removed {f : Side → UInt16 → Option ℕ} {p : Prop} [Decidable p]
    (hf : ∀ v c' s', f v c' = some s' → s' < σ.next ∧ σ.channel s' = c') (v : Side) (c' : UInt16)
    (h : (if p then set f w c none else f) v c' = some s) : s < σ.next ∧ σ.channel s = c' := by
  split at h
  · by_cases hv : v = w ∧ c' = c
    · obtain ⟨rfl, rfl⟩ := hv
      rw [set_same] at h
      cases h
    · rw [set_of_ne hv] at h
      exact hf v c' s h
  · exact hf v c' s h

theorem Move.tidy (h : Move w σ t ts σ') (hσ : Tidy σ) (ht : t.Fits σ) (hs : Steady σ σ') :
    Tidy σ' := by
  have hg := h.grows
  obtain ⟨hin, hout, hpre, hqueue, hwhole⟩ := hσ
  cases h with
  | opened c frame =>
    refine ⟨fun v c s h => hg.on (hin v c s h), fun v c s h => hg.on (hout v c s h), fun s => ?_,
      fun v s f hf => ?_, hwhole⟩
    · refine (hpre s).imp_right fun ⟨hlt, hp⟩ => ⟨hlt.trans_le hg.next, ?_⟩
      rw [hg.channel s hlt]
      exact hp
    · obtain ⟨hlt, hc⟩ := hqueue v s f hf
      exact ⟨hlt.trans_le hg.next, (hg.channel s hlt).symm ▸ hc⟩
  | prefaced c frame s =>
    refine ⟨hin, hout, fun s' => ?_, hqueue, hwhole⟩
    by_cases hs' : s' = s
    · subst hs'
      refine .inr ⟨ht.2.1, ?_⟩
      simp only [update_self, ht.2.2]
    · simp only [update_of_ne hs']
      exact hpre s'
  | registerNew c frame s _ _ => exact ⟨hin, on_set hout ht.2, hpre, hqueue, hwhole⟩
  | handOver c frame s _ =>
    -- the stream is not broken, so the frame joins the queue
    have hcut : σ.cut w s = false := by
      refine (hs w c s ?_ ?_).1
      · simp [System.handOver]
      · simp [System.handOver]
    refine ⟨hin, hout, hpre, fun v s' f hf => ?_, fun v s' => ?_⟩
    · simp only [System.handOver, hcut, Bool.false_eq_true, if_false] at hf
      by_cases hv : v = w ∧ s' = s
      · obtain ⟨rfl, rfl⟩ := hv
        rw [set_same] at hf
        rcases mem_append.mp hf with hf | hf
        · exact hqueue v s' f hf
        · rw [mem_singleton.mp hf]
          exact ⟨ht.2.1, ht.1.trans (congrArg _ ht.2.2.symm)⟩
      · rw [set_of_ne hv] at hf
        exact hqueue v s' f hf
    · simp only [System.handOver, hcut, Bool.false_eq_true, if_false]
      exact hwhole v s'
  | prefaceRead s _ _ =>
    refine ⟨hin, hout, fun s' => ?_, hqueue, hwhole⟩
    by_cases hs' : s' = s
    · subst hs'
      exact .inl (update_self ..)
    · simp only [update_of_ne hs']
      exact hpre s'
  | enterNew s c _ _ => exact ⟨on_set hin ht, hout, hpre, hqueue, hwhole⟩
  | readFrame c s frame rest hq =>
    refine ⟨hin, hout, hpre, fun v s' f hf => ?_, hwhole⟩
    by_cases hv : v = w.peer ∧ s' = s
    · obtain ⟨rfl, rfl⟩ := hv
      have hf : f ∈ rest := by simpa [System.reportErr] using hf
      exact hqueue _ s' f (hq ▸ mem_cons_of_mem _ hf)
    · simp only [System.reportErr, set_of_ne hv] at hf
      exact hqueue v s' f hf
  | remove c s =>
    exact ⟨fun v c' s' => on_removed hin v c', fun v c' s' => on_removed hout v c', hpre, hqueue,
      hwhole⟩
  | _ => exact ⟨hin, hout, hpre, hqueue, hwhole⟩

/-- The goroutines that come of a step fit. -/
theorem Move.fits (h : Move w σ t ts σ') (hσ : Tidy σ) (ht : t.Fits σ) : ∀ u ∈ ts, u.Fits σ' := by
  cases h with
  | lookFound c frame s _ hf | againFound c frame s _ hf =>
    exact forall_mem_singleton.mpr ⟨ht, hσ.find hf⟩
  | registerFound c frame _ s _ hf => exact forall_mem_singleton.mpr ⟨ht.1, hσ.find hf⟩
  | opened c frame =>
    exact forall_mem_singleton.mpr ⟨ht, Nat.lt_succ_self _, update_self ..⟩
  | outgoingStarted c frame s _ =>
    intro u hu
    rcases mem_pair.mp hu with rfl | rfl
    · exact ht
    · exact ht.2
  | prefaceRead s hlen _ =>
    rcases hσ.preface s with hp | ⟨hlt, hp⟩
    · rw [hp] at hlen
      cases hlen
    · refine forall_mem_singleton.mpr ⟨hlt, ?_⟩
      rw [hp, uint16_be16]
  | readFrame c s frame rest hq =>
    obtain ⟨-, hc⟩ := hσ.queued w.peer s frame (hq ▸ mem_cons_self)
    rw [ht.2] at hc
    rw [received_ok hc]
    exact forall_mem_singleton.mpr ⟨hc, ht⟩
  | readGarbled c s frame hb _ =>
    rw [hσ.whole] at hb
    cases hb
  | push c s frame _ => exact forall_mem_singleton.mpr ht.2
  | readEnds | release => exact forall_mem_singleton.mpr trivial
  | lookNone | lockOpen | againNone | prefaced | registerNew | outgoingClosed | enterNew
  | incomingStarted => exact forall_mem_singleton.mpr ht
  | _ => exact forall_mem_nil _

/-! ## What a step does -/

/-- What is on its way in the queues and what was sent and has arrived stay as they are. -/
structure Quiet (σ τ : System) : Prop where
  next : τ.next = σ.next
  opener : τ.opener = σ.opener
  channel : τ.channel = σ.channel
  accepted : τ.accepted = σ.accepted
  queue : τ.queue = σ.queue
  sent : τ.sent = σ.sent
  last : τ.last = σ.last
  arrived : τ.arrived = σ.arrived

/-- What a step of a goroutine comes to for the streams. -/
inductive Effect (w : Side) (σ : System) : Thread → List Thread → System → Prop
  | quiet (t : Thread) (ts : List Thread) (σ' : System) : Quiet σ σ' →
      (∀ s, ts.flatMap (Thread.held s) = t.held s) →
      (∀ s, ts.countP (Thread.reader s) ≤ [t].countP (Thread.reader s)) → Effect w σ t ts σ'
  | opened (c frame) :
      Effect w σ (.openStream c frame) [.writePreface c frame σ.next] (σ.addStream w c)
  | put (c frame s) : σ.cut w s = false →
      (σ.last w c = some s ∨ arrivedOn σ w.peer c = σ.sent w c) →
      Effect w σ (.send c frame s) [] (σ.handOver w c frame s)
  | take (c s frame rest) : σ.queue w.peer s = frame :: rest →
      Effect w σ (.read c s) [.hold c s frame]
        (System.reportErr { σ with queue := set σ.queue w.peer s rest } w none)
  | push (c s frame) :
      Effect w σ (.hold c s frame) [.read c s] (σ.push w frame)
  | lose (c s frame) : Effect w σ (.hold c s frame) [.remove c s] σ

theorem Move.effect (h : Move w σ t ts σ') (hσ : Tidy σ) (ht : t.Fits σ) (hs : Steady σ σ') :
    Effect w σ t ts σ' := by
  cases h with
  | opened c frame => exact .opened c frame
  | handOver c frame s _ =>
    obtain ⟨hcut, hlast⟩ := hs w c s (by simp [System.handOver]) (by simp [System.handOver])
    exact .put c frame s hcut hlast
  | readFrame c s frame rest hq =>
    obtain ⟨-, hc⟩ := hσ.queued w.peer s frame (hq ▸ mem_cons_self)
    rw [ht.2] at hc
    rw [received_ok hc]
    exact .take c s frame rest hq
  | readGarbled c s frame hb _ =>
    rw [hσ.whole] at hb
    cases hb
  | push c s frame _ => exact .push c s frame
  | release c s frame _ => exact .lose c s frame
  | _ =>
    refine .quiet _ _ _ ⟨rfl, rfl, rfl, rfl, rfl, rfl, rfl, rfl⟩ (fun s => ?_) fun s => ?_
    · simp [Thread.held]
    · simp [Thread.reader]

/-- In `τ` the goroutine `t` of the side `w` has become `ts`, by a step that has left the rest as it
    is in `σ'`. -/
structure Moved (w : Side) (pre : List Thread) (t : Thread) (post ts : List Thread)
    (σ σ' τ : System) : Prop where
  before : σ.threads w = pre ++ t :: post
  after : τ.threads w = pre ++ (ts ++ post)
  others : ∀ v, v ≠ w → τ.threads v = σ.threads v
  rest : Quiet σ' τ

variable {τ : System} {pre post : List Thread} {s : ℕ}

theorem Move.moved (h : Move w σ t ts σ') (hth : σ.threads w = pre ++ t :: post) :
    Moved w pre t post ts σ σ' (σ'.setThreads w (pre ++ (ts ++ post))) where
  before := hth
  after := update_self ..
  others v hv := (update_of_ne hv _ _).trans (by cases h <;> rfl)
  rest := ⟨rfl, rfl, rfl, rfl, rfl, rfl, rfl, rfl⟩

section Moved

variable (h : Moved w pre t post ts σ σ' τ)
include h

theorem Moved.self_mem : t ∈ σ.threads w := by
  rw [h.before]
  exact mem_append_right _ mem_cons_self

theorem Moved.mem {v : Side} {u : Thread} (hu : u ∈ τ.threads v) :
    u ∈ σ.threads v ∨ v = w ∧ u ∈ ts := by
  by_cases hv : v = w
  · subst hv
    rw [h.after] at hu
    rw [h.before]
    simp only [mem_append, mem_cons] at hu ⊢
    tauto
  · exact .inl (h.others v hv ▸ hu)

theorem Moved.countP_le {p : Thread → Bool} (hcount : ts.countP p ≤ [t].countP p) (v : Side) :
    (τ.threads v).countP p ≤ (σ.threads v).countP p := by
  by_cases hv : v = w
  · subst hv
    rw [h.after, h.before]
    simp only [countP_append, countP_cons, countP_nil] at hcount ⊢
    omega
  · rw [h.others v hv]

theorem Moved.held (hheld : ts.flatMap (Thread.held s) = t.held s) (v : Side) :
    (τ.threads v).flatMap (Thread.held s) = (σ.threads v).flatMap (Thread.held s) := by
  by_cases hv : v = w
  · subst hv
    rw [h.after, h.before, flatMap_append, flatMap_append, hheld, flatMap_append,
      flatMap_cons]
  · rw [h.others v hv]

theorem Moved.live (hnext : σ'.next = σ.next) (hopener : σ'.opener = σ.opener)
    (haccepted : σ'.accepted = σ.accepted)
    (hreader : ∀ u ∈ ts, u.reader s = true → t.reader s = true) {r : Side} (hl : live τ r s) :
    live σ r s := by
  rw [Streams.live, h.rest.next, hnext, h.rest.opener, hopener, h.rest.accepted, haccepted] at hl
  refine hl.imp_right (Or.imp_right fun ⟨u, hu, hs⟩ => ?_)
  rcases h.mem hu with hu | ⟨rfl, hu⟩
  · exact ⟨u, hu, hs⟩
  · exact ⟨t, h.self_mem, hreader u hu hs⟩

end Moved

/-! ## One reader -/

/-- How many goroutines read a stream at a side, or may come to, counting the one that accepting it
    starts. -/
def readers (σ : System) (r : Side) (s : ℕ) : ℕ :=
  (σ.threads r).countP (Thread.reader s) +
    if s < σ.next ∧ σ.opener s = r.peer ∧ σ.accepted s = false then 1 else 0

theorem reader_lt (ht : t.Fits σ) (hr : t.reader s = true) : s < σ.next := by
  cases t with
  | look | lockOpen | lookAgain | openStream | send | remove => cases hr
  | writePreface | register | startOutgoing | hold => exact of_decide_eq_true hr ▸ ht.2.1
  | readPreface => exact of_decide_eq_true hr ▸ ht
  | enter | startIncoming | read => exact of_decide_eq_true hr ▸ ht.1

/-- A stream that is not open has no reader. -/
theorem not_reader_of_le {ths : List Thread} (hfits : ∀ u ∈ ths, u.Fits σ) (hs : σ.next ≤ s) :
    ∀ u ∈ ths, u.reader s = false := by
  intro u hu
  by_contra hr
  exact absurd (reader_lt (hfits u hu) (by simpa using hr)) (Nat.not_lt.mpr hs)

theorem flatMap_held_eq_nil {ths : List Thread} (h : ∀ u ∈ ths, u.reader s = false) :
    ths.flatMap (Thread.held s) = [] :=
  flatMap_eq_nil_iff.mpr fun u hu => Thread.held_of_not_reader (h u hu)

section Moved

variable (h : Moved w pre t post ts σ σ' τ)
include h

/-- The reader of a stream at a side is the only one, and the stream is not to be accepted. -/
theorem Moved.alone (hr : readers σ w s ≤ 1) (ht : t.reader s = true) (hlt : s < σ.next) :
    (∀ u ∈ pre, u.reader s = false) ∧ (∀ u ∈ post, u.reader s = false) ∧
      ¬ (σ.opener s = w.peer ∧ σ.accepted s = false) := by
  rw [readers, h.before, countP_append, countP_cons_of_pos ht] at hr
  refine ⟨fun u hu => ?_, fun u hu => ?_, fun hopen => ?_⟩
  · have : pre.countP (Thread.reader s) = 0 := by omega
    simpa using countP_eq_zero.mp this u hu
  · have : post.countP (Thread.reader s) = 0 := by omega
    simpa using countP_eq_zero.mp this u hu
  · rw [if_pos ⟨hlt, hopen⟩] at hr
    omega

/-- What the goroutines hold of a stream that one of them reads. -/
theorem Moved.held_alone (hr : readers σ w s ≤ 1) (ht : t.reader s = true) (hlt : s < σ.next) :
    (σ.threads w).flatMap (Thread.held s) = t.held s ∧
      (τ.threads w).flatMap (Thread.held s) = ts.flatMap (Thread.held s) := by
  obtain ⟨hpre, hpost, -⟩ := h.alone hr ht hlt
  rw [h.before, h.after]
  simp [flatMap_held_eq_nil hpre, flatMap_held_eq_nil hpost]

/-- What they hold of the other streams, and at the other side. -/
theorem Moved.held_others (hheld : ∀ s', s' ≠ s → ts.flatMap (Thread.held s') = t.held s')
    {v : Side} {s' : ℕ} (hne : ¬ (v = w.peer ∧ s' = s)) :
    (τ.threads v.peer).flatMap (Thread.held s') = (σ.threads v.peer).flatMap (Thread.held s') := by
  by_cases hs : s' = s
  · rw [h.others v.peer fun hv => hne ⟨by rw [← hv, Side.peer_peer], hs⟩]
  · exact h.held (hheld s' hs) v.peer

theorem Moved.readers_le (hnext : σ'.next = σ.next) (hopener : σ'.opener = σ.opener)
    (haccepted : σ'.accepted = σ.accepted)
    (hcount : ts.countP (Thread.reader s) ≤ [t].countP (Thread.reader s)) (v : Side) :
    readers τ v s ≤ readers σ v s := by
  rw [readers, readers, h.rest.next, hnext, h.rest.opener, hopener, h.rest.accepted, haccepted]
  exact Nat.add_le_add_right (h.countP_le hcount v) _

end Moved

/-- A stream that is opened has one reader to come at either side. -/
theorem readers_opened {frame : Bytes}
    (hm : Moved w pre (.openStream c frame) post [.writePreface c frame σ.next] σ
      (σ.addStream w c) τ) (hfits : ∀ v, ∀ u ∈ σ.threads v, u.Fits σ) (v : Side) :
    readers τ v σ.next ≤ 1 := by
  have hnone : ∀ v, (σ.threads v).countP (Thread.reader σ.next) = 0 := fun v =>
    countP_eq_zero.mpr fun u hu => by simp [not_reader_of_le (hfits v) le_rfl u hu]
  by_cases hv : v = w
  · subst hv
    have h0 := hnone v
    rw [hm.before, countP_append, countP_cons] at h0
    have hopen : ¬ τ.opener σ.next = v.peer := by
      rw [hm.rest.opener]
      simp [System.addStream, v.peer_ne.symm]
    rw [readers, hm.after, if_neg fun h => hopen h.2.1]
    simp only [countP_append, countP_cons, countP_nil, Thread.reader, decide_true,
      if_true]
    omega
  · rw [readers, hm.others v hv, hnone v]
    split <;> omega

theorem Effect.readers_le (h : Effect w σ t ts σ') (hm : Moved w pre t post ts σ σ' τ)
    (hfits : ∀ v, ∀ u ∈ σ.threads v, u.Fits σ) (hr : ∀ v s, readers σ v s ≤ 1) (v : Side)
    (s : ℕ) : readers τ v s ≤ 1 := by
  cases h with
  | quiet _ _ _ hq _ hcount =>
    exact (hm.readers_le hq.next hq.opener hq.accepted (hcount s) v).trans (hr v s)
  | put | lose => exact (hm.readers_le rfl rfl rfl (Nat.zero_le _) v).trans (hr v s)
  | take | push => exact (hm.readers_le rfl rfl rfl le_rfl v).trans (hr v s)
  | opened c frame =>
    by_cases hs : s = σ.next
    · exact hs ▸ readers_opened hm hfits v
    · refine le_trans (Nat.add_le_add (hm.countP_le ?_ v) ?_) (hr v s)
      · simp [Thread.reader, Ne.symm hs]
      · have hlt : s < σ.next + 1 ↔ s < σ.next := by omega
        simp [hm.rest.next, hm.rest.opener, hm.rest.accepted, System.addStream, update_of_ne hs,
          hlt]

/-! ## The order -/

/-- What a side has sent on a channel, and how far it has come. -/
def ChannelOrdered (σ : System) (w : Side) (c : UInt16) : Prop :=
  Ordered (σ.sent w c) (arrivedOn σ w.peer c) (σ.last w c) (line σ w c) (live σ w.peer)

theorem line_congr {v : Side} (hchannel : σ'.channel s = σ.channel s)
    (hqueue : σ'.queue v s = σ.queue v s) (hheld : (σ'.threads v.peer).flatMap (Thread.held s) =
      (σ.threads v.peer).flatMap (Thread.held s)) : line σ' v c s = line σ v c s := by
  rw [line, line, hchannel, hqueue, hheld]

theorem reader_of_countP_le (h : ts.countP (Thread.reader s) ≤ [t].countP (Thread.reader s)) :
    ∀ u ∈ ts, u.reader s = true → t.reader s = true := by
  intro u hu hs
  have hpos : 0 < [t].countP (Thread.reader s) :=
    (countP_pos_iff.mpr ⟨u, hu, hs⟩).trans_le h
  obtain ⟨t', ht', hr⟩ := countP_pos_iff.mp hpos
  rwa [mem_singleton.mp ht'] at hr

section Effects

variable {c : UInt16} {frame : Bytes} (v : Side) (c' : UInt16)

theorem ordered_quiet (hm : Moved w pre t post ts σ σ' τ) (hq : Quiet σ σ')
    (hheld : ∀ s, ts.flatMap (Thread.held s) = t.held s)
    (hcount : ∀ s, ts.countP (Thread.reader s) ≤ [t].countP (Thread.reader s))
    (h : ChannelOrdered σ v c') : ChannelOrdered τ v c' := by
  rw [ChannelOrdered, arrivedOn, hm.rest.arrived, hq.arrived, hm.rest.sent, hq.sent, hm.rest.last,
    hq.last]
  refine h.mono (fun s => ?_) fun s => ?_
  · exact line_congr (by rw [hm.rest.channel, hq.channel]) (by rw [hm.rest.queue, hq.queue])
      (hm.held (hheld s) v.peer)
  · exact hm.live hq.next hq.opener hq.accepted (reader_of_countP_le (hcount s))

theorem ordered_opened
    (hm : Moved w pre (.openStream c frame) post [.writePreface c frame σ.next] σ
      (σ.addStream w c) τ)
    (hσ : Tidy σ) (hfits : ∀ v, ∀ u ∈ σ.threads v, u.Fits σ) (h : ChannelOrdered σ v c') :
    ChannelOrdered τ v c' := by
  rw [ChannelOrdered, arrivedOn, hm.rest.arrived, hm.rest.sent, hm.rest.last]
  refine h.mono (fun s => ?_) fun s hlive => ?_
  · by_cases hs : s = σ.next
    · -- nothing is on its way in a stream that is not there
      subst hs
      have hqueue : σ.queue v σ.next = [] := by
        refine eq_nil_iff_forall_not_mem.mpr fun f hf => ?_
        exact absurd (hσ.queued v σ.next f hf).1 (lt_irrefl _)
      rw [line, line, hm.held rfl, hm.rest.queue,
        flatMap_held_eq_nil (not_reader_of_le (hfits v.peer) le_rfl)]
      simp [System.addStream, hqueue]
    · refine line_congr ?_ (by rw [hm.rest.queue]; rfl) (hm.held rfl v.peer)
      rw [hm.rest.channel]
      exact update_of_ne hs _ _
  · by_cases hs : s = σ.next
    · exact .inl hs.ge
    · rw [live, hm.rest.next, hm.rest.opener, hm.rest.accepted] at hlive
      rcases hlive with hlive | ⟨ho, ha⟩ | ⟨u, hu, hr⟩
      · exact .inl ((Nat.le_succ _).trans hlive)
      · exact .inr (.inl ⟨(update_of_ne hs _ _ : (σ.addStream w c).opener s = _).symm.trans ho, ha⟩)
      · rcases hm.mem hu with hu | ⟨-, hu⟩
        · exact .inr (.inr ⟨u, hu, hr⟩)
        · rw [mem_singleton.mp hu] at hr
          exact absurd (of_decide_eq_true hr).symm hs

theorem ordered_put (hm : Moved w pre (.send c frame s) post [] σ (σ.handOver w c frame s) τ)
    (ht : (Thread.send c frame s).Fits σ) (hcut : σ.cut w s = false)
    (hlast : σ.last w c = some s ∨ arrivedOn σ w.peer c = σ.sent w c)
    (h : ChannelOrdered σ v c') : ChannelOrdered τ v c' := by
  have hchannel : τ.channel = σ.channel := hm.rest.channel
  have hqueue : τ.queue = set σ.queue w s (σ.queue w s ++ [frame]) :=
    hm.rest.queue.trans (if_neg (by rw [hcut]; exact Bool.false_ne_true))
  have hlive : ∀ s', live τ v.peer s' → live σ v.peer s' :=
    fun s' => hm.live rfl rfl rfl (by simp)
  have hother : ∀ s', ¬ (v = w ∧ s' = s) → line τ v c' s' = line σ v c' s' := by
    intro s' hne
    exact line_congr (by rw [hchannel]) (by rw [hqueue, set_of_ne hne]) (hm.held rfl v.peer)
  have hsent : τ.sent = set σ.sent w c (σ.sent w c ++ [frame]) := hm.rest.sent
  have hnow : τ.last = set σ.last w c (some s) := hm.rest.last
  rw [ChannelOrdered, arrivedOn, hm.rest.arrived, hsent, hnow]
  by_cases hvc : v = w ∧ c' = c
  · obtain ⟨rfl, rfl⟩ := hvc
    rw [set_same, set_same]
    refine (h.put hlast ?_ fun s' hs' => hother s' fun hv => hs' hv.2).mono (fun _ => rfl) hlive
    rw [line, line, hchannel, if_pos ht.2.2, if_pos ht.2.2, hm.held rfl, hqueue, set_same,
      append_assoc]
  · -- another side or another channel, of which the stream carries nothing
    rw [set_of_ne hvc, set_of_ne hvc]
    refine h.mono (fun s' => ?_) hlive
    by_cases hvs : v = w ∧ s' = s
    · obtain ⟨rfl, rfl⟩ := hvs
      have hne : σ.channel s' ≠ c' := fun hc => hvc ⟨rfl, hc.symm.trans ht.2.2⟩
      rw [line, line, hchannel, if_neg hne, if_neg hne]
    · exact hother s' hvs

/-- A frame goes from the queue of a stream to its reader. -/
theorem ordered_take {rest : List Bytes}
    (hm : Moved w pre (.read c s) post [.hold c s frame] σ
      (System.reportErr { σ with queue := set σ.queue w.peer s rest } w none) τ)
    (ht : (Thread.read c s).Fits σ) (hr : readers σ w s ≤ 1)
    (hq : σ.queue w.peer s = frame :: rest) (h : ChannelOrdered σ v c') :
    ChannelOrdered τ v c' := by
  have hqueue : τ.queue = set σ.queue w.peer s rest := hm.rest.queue
  obtain ⟨hbefore, hafter⟩ := hm.held_alone hr (decide_eq_true rfl) ht.1
  rw [ChannelOrdered, arrivedOn, hm.rest.arrived, hm.rest.sent, hm.rest.last]
  refine h.mono (fun s' => ?_) fun s' => hm.live rfl rfl rfl (by simp [Thread.reader])
  by_cases hvs : v = w.peer ∧ s' = s
  · -- the stream held nothing, and now holds what was first in the queue
    obtain ⟨rfl, rfl⟩ := hvs
    rw [line, line, Side.peer_peer, hbefore, hafter, hq, hqueue, set_same, hm.rest.channel]
    simp [System.reportErr, Thread.held]
  · refine line_congr (by rw [hm.rest.channel]; rfl) (by rw [hqueue, set_of_ne hvs])
      (hm.held_others (fun s' hs => ?_) hvs)
    simp [Thread.held, Ne.symm hs]

section Hold

variable {u : Thread} (hm : Moved w pre (.hold c s frame) post [u] σ σ' τ)
  (ht : (Thread.hold c s frame).Fits σ) (hu : ∀ s', u.held s' = [])
  (hchannel : σ'.channel = σ.channel) (hqueue : σ'.queue = σ.queue)
include hm ht hu hchannel hqueue

/-- The line of a reader that holds a frame starts with it, and goes on as its line when it has
    given the frame away. -/
theorem line_hold (hr : readers σ w s ≤ 1) :
    line σ w.peer c s = frame :: line τ w.peer c s := by
  obtain ⟨hbefore, hafter⟩ := hm.held_alone hr (decide_eq_true rfl) ht.2.1
  rw [line, line, hm.rest.channel, hchannel, if_pos ht.2.2, if_pos ht.2.2, Side.peer_peer, hbefore,
    hafter, hm.rest.queue, hqueue, flatMap_singleton, hu]
  simp [Thread.held]

/-- The other lines, when a reader has given a frame away. -/
theorem line_others {s' : ℕ} (hne : ¬ (v = w.peer ∧ c' = c ∧ s' = s)) :
    line τ v c' s' = line σ v c' s' := by
  by_cases hvs : v = w.peer ∧ s' = s
  · obtain ⟨rfl, rfl⟩ := hvs
    have hoff : σ.channel s' ≠ c' := fun hc => hne ⟨rfl, hc.symm.trans ht.2.2, rfl⟩
    rw [line, line, hm.rest.channel, hchannel, if_neg hoff, if_neg hoff]
  · refine line_congr (by rw [hm.rest.channel, hchannel]) (by rw [hm.rest.queue, hqueue])
      (hm.held_others (fun s' hs => ?_) hvs)
    rw [flatMap_singleton, hu s', Thread.held, if_neg (Ne.symm hs)]

end Hold

/-- The frame that a reader holds comes to be in `reads`. -/
theorem ordered_push (hm : Moved w pre (.hold c s frame) post [.read c s] σ (σ.push w frame) τ)
    (ht : (Thread.hold c s frame).Fits σ) (hr : readers σ w s ≤ 1)
    (h : ChannelOrdered σ v c') : ChannelOrdered τ v c' := by
  have hlive : ∀ s', live τ v.peer s' → live σ v.peer s' :=
    fun s' => hm.live rfl rfl rfl (by simp [Thread.reader])
  have hothers := @line_others _ _ _ _ _ _ _ _ _ v c' _ hm ht (fun _ => rfl) rfl rfl
  rw [ChannelOrdered, arrivedOn, hm.rest.arrived, hm.rest.sent, hm.rest.last]
  by_cases hvc : v = w.peer ∧ c' = c
  · obtain ⟨rfl, rfl⟩ := hvc
    have hreads : live σ w.peer.peer s :=
      .inr (.inr ⟨.hold c' s frame, w.peer_peer.symm ▸ hm.self_mem, decide_eq_true rfl⟩)
    have harrived : ((σ.push w frame).arrived w.peer.peer).filter (onChannel c') =
        arrivedOn σ w.peer.peer c' ++ [frame] := by
      simp [arrivedOn, System.push, onChannel_of_ok ht.1]
    rw [harrived]
    refine Ordered.mono (Ordered.take h hreads ?_ fun s' hs' => ?_) (fun _ => rfl) hlive
    · exact line_hold hm ht (fun _ => rfl) rfl rfl hr
    · exact hothers fun hne => hs' hne.2.2
  · have harrived : ((σ.push w frame).arrived v.peer).filter (onChannel c') =
        arrivedOn σ v.peer c' := by
      by_cases hv : v.peer = w
      · -- the frame is of another channel
        subst hv
        have hne : c ≠ c' := fun hc => hvc ⟨v.peer_peer.symm, hc.symm⟩
        simp [arrivedOn, System.push, onChannel_of_ok ht.1, hne]
      · simp [arrivedOn, System.push, update_of_ne hv]
    rw [harrived]
    exact Ordered.mono h (fun s' => hothers fun hne => hvc ⟨hne.1, hne.2.1⟩) hlive

/-- The frame that a reader holds is released, and the reader ends. -/
theorem ordered_lose (hm : Moved w pre (.hold c s frame) post [.remove c s] σ σ τ)
    (ht : (Thread.hold c s frame).Fits σ) (hr : readers σ w s ≤ 1) (h : ChannelOrdered σ v c') :
    ChannelOrdered τ v c' := by
  have hothers := @line_others _ _ _ _ _ _ _ _ _ v c' _ hm ht (fun _ => rfl) rfl rfl
  rw [ChannelOrdered, arrivedOn, hm.rest.arrived, hm.rest.sent, hm.rest.last]
  by_cases hvc : v = w.peer ∧ c' = c
  · obtain ⟨rfl, rfl⟩ := hvc
    obtain ⟨hpre, hpost, haccepted⟩ := hm.alone hr (decide_eq_true rfl) ht.2.1
    have hstop : ¬ live τ w.peer.peer s := by
      rw [Side.peer_peer, live, hm.rest.next, hm.rest.opener, hm.rest.accepted, hm.after]
      rintro (hnext | hopen | ⟨u, hu, hur⟩)
      · exact absurd ht.2.1 (Nat.not_lt.mpr hnext)
      · exact haccepted hopen
      · rcases mem_append.mp hu with hu | hu
        · simp [hpre u hu] at hur
        · rcases mem_cons.mp hu with rfl | hu
          · cases hur
          · simp [hpost u hu] at hur
    refine Ordered.lose h hstop (line_hold hm ht (fun _ => rfl) rfl rfl hr) fun s' hs' => ?_
    exact hothers fun hne => hs' hne.2.2
  · exact Ordered.mono h (fun s' => hothers fun hne => hvc ⟨hne.1, hne.2.1⟩)
      fun s' => hm.live rfl rfl rfl (by simp [Thread.reader])

end Effects

theorem Effect.ordered (h : Effect w σ t ts σ') (hm : Moved w pre t post ts σ σ' τ)
    (hσ : Tidy σ) (hfits : ∀ v, ∀ u ∈ σ.threads v, u.Fits σ) (hr : ∀ v s, readers σ v s ≤ 1)
    (v : Side) (c' : UInt16) (ho : ChannelOrdered σ v c') : ChannelOrdered τ v c' := by
  have ht : t.Fits σ := hfits w t hm.self_mem
  cases h with
  | quiet _ _ _ hq hheld hcount => exact ordered_quiet v c' hm hq hheld hcount ho
  | opened c frame => exact ordered_opened v c' hm hσ hfits ho
  | put c frame s hcut hlast => exact ordered_put v c' hm ht hcut hlast ho
  | take c s frame rest hq => exact ordered_take v c' hm ht (hr w s) hq ho
  | push c s frame => exact ordered_push v c' hm ht (hr w s) ho
  | lose c s frame => exact ordered_lose v c' hm ht (hr w s) ho

/-- What holds in every state of a steady run. -/
structure Inv (σ : System) : Prop where
  tidy : Tidy σ
  fits : ∀ w, ∀ t ∈ σ.threads w, t.Fits σ
  reader : ∀ r s, readers σ r s ≤ 1
  ordered : ∀ w c, ChannelOrdered σ w c

theorem inv_start (config : Side → Config) : Inv (start config) where
  tidy := ⟨fun _ _ _ h => (by cases h), fun _ _ _ h => (by cases h), fun _ => .inl rfl,
    fun _ _ _ h => (by cases h), fun _ _ => rfl⟩
  fits _ _ h := by cases h
  reader r s := by simp [readers, start]
  ordered w c := .start fun s => by simp [line, start]

/-- A step that keeps what is on its way and what was sent and has arrived, and starts goroutines
    only for streams that had none to read them. -/
structure Calm (σ σ' : System) : Prop where
  next : σ'.next = σ.next
  channel : σ'.channel = σ.channel
  queue : σ'.queue = σ.queue
  sent : σ'.sent = σ.sent
  last : σ'.last = σ.last
  arrived : σ'.arrived = σ.arrived
  fits : ∀ v, ∀ t ∈ σ'.threads v, t ∈ σ.threads v ∨ t.Fits σ
  held : ∀ v s, (σ'.threads v).flatMap (Thread.held s) = (σ.threads v).flatMap (Thread.held s)
  reader : ∀ r s, readers σ' r s ≤ readers σ r s
  live : ∀ r s, live σ' r s → live σ r s

theorem Quiet.calm (h : Quiet σ σ') (hthreads : σ'.threads = σ.threads) : Calm σ σ' where
  next := h.next
  channel := h.channel
  queue := h.queue
  sent := h.sent
  last := h.last
  arrived := h.arrived
  fits v t ht := .inl (hthreads ▸ ht)
  held v s := by rw [hthreads]
  reader r s := by rw [readers, readers, hthreads, h.next, h.opener, h.accepted]
  live r s := by
    rw [Streams.live, Streams.live, hthreads, h.next, h.opener, h.accepted]
    exact id

theorem Inv.calm (h : Inv σ) (hc : Calm σ σ') (htidy : Tidy σ') : Inv σ' where
  tidy := htidy
  fits v t ht := by
    have hfits := (hc.fits v t ht).elim (h.fits v t) id
    exact hfits.grows (.refl hc.next hc.channel)
  reader r s := (hc.reader r s).trans (h.reader r s)
  ordered v c := by
    rw [ChannelOrdered, arrivedOn, hc.arrived, hc.sent, hc.last]
    refine (h.ordered v c).mono (fun s => ?_) fun s => hc.live v.peer s
    exact line_congr (congrFun hc.channel s) (congrFun (congrFun hc.queue v) s)
      (hc.held v.peer s)

/-- A goroutine starts that holds nothing, and reads at most a stream that it accepts. -/
theorem calm_start {accepted : ℕ → Bool} (prefaces : Side → ℕ) (ht : t.Fits σ)
    (hheld : ∀ s, t.held s = []) (haccepted : ∀ s, accepted s = false → σ.accepted s = false)
    (hreader : ∀ s, t.reader s = true → s < σ.next ∧
      (σ.opener s = w.peer ∧ σ.accepted s = false) ∧ accepted s = true) :
    Calm σ ({ σ with accepted := accepted, prefaces := prefaces }.setThreads w
      (σ.threads w ++ [t])) := by
  have hthreads : ∀ v, ({ σ with accepted := accepted, prefaces := prefaces }.setThreads w
      (σ.threads w ++ [t])).threads v = σ.threads v ++ if v = w then [t] else [] := by
    intro v
    split_ifs with hv
    · subst hv
      exact update_self ..
    · exact (update_of_ne hv _ _).trans (append_nil _).symm
  refine ⟨rfl, rfl, rfl, rfl, rfl, rfl, fun v u hu => ?_, fun v s => ?_, fun r s => ?_,
    fun r s hl => ?_⟩
  · rw [hthreads] at hu
    rcases mem_append.mp hu with hu | hu
    · exact .inl hu
    · split_ifs at hu
      · exact .inr (mem_singleton.mp hu ▸ ht)
      · cases hu
  · rw [hthreads]
    split_ifs <;> simp [hheld]
  · by_cases hread : r = w ∧ t.reader s = true
    · -- the new goroutine is the reader that was to come
      obtain ⟨rfl, hread⟩ := hread
      obtain ⟨hlt, hopen, hnow⟩ := hreader s hread
      rw [readers, readers, hthreads]
      simp [System.setThreads, hread, hnow, hlt, hopen]
    · refine Nat.add_le_add ?_ ?_
      · rw [hthreads]
        split_ifs with hr
        · simp [show ¬t.reader s = true from fun h => hread ⟨hr, h⟩]
        · simp
      · split
        · next h => rw [if_pos ⟨h.1, h.2.1, haccepted s h.2.2⟩]
        · exact Nat.zero_le _
  · rcases hl with hl | hl | ⟨u, hu, hr⟩
    · exact .inl hl
    · exact .inr (.inl ⟨hl.1, haccepted s hl.2⟩)
    · rw [hthreads] at hu
      rcases mem_append.mp hu with hu | hu
      · exact .inr (.inr ⟨u, hu, hr⟩)
      · split_ifs at hu with hv
        · obtain rfl := mem_singleton.mp hu
          exact .inr (.inl (hv ▸ (hreader s hr).2.1))
        · cases hu

/-- A call is a goroutine that reads no stream. -/
theorem calm_call {frame : Bytes} (hc : channelOf frame = .ok c) :
    Calm σ (σ.setThreads w (σ.threads w ++ [.look c frame])) :=
  calm_start σ.prefaces hc (fun _ => rfl) (fun _ => id) fun _ h => by cases h

theorem accepted_of_update {s s' : ℕ} (h : update σ.accepted s true s' = false) :
    σ.accepted s' = false := by
  by_cases hs' : s' = s
  · rw [hs', update_self] at h
    cases h
  · rwa [update_of_ne hs'] at h

/-- A stream that is accepted has the reader that was to come. -/
theorem calm_accept (prefaces : Side → ℕ) (hs : s < σ.next) (ho : σ.opener s = w.peer)
    (ha : σ.accepted s = false) :
    Calm σ ({ σ with
      accepted := update σ.accepted s true
      prefaces := prefaces }.setThreads w (σ.threads w ++ [Thread.readPreface s])) := by
  refine calm_start prefaces hs (fun _ => rfl) (fun _ => accepted_of_update) fun s' h => ?_
  obtain rfl : s = s' := of_decide_eq_true h
  exact ⟨hs, ⟨ho, ha⟩, update_self _ _ _⟩

/-- A stream that is accepted and closed at once has no reader any more. -/
theorem calm_acceptClosed (shut : Side → ℕ → Bool) (accepting : Side → Bool) :
    Calm σ { σ with
      accepted := update σ.accepted s true
      shut := shut
      accepting := accepting } := by
  refine ⟨rfl, rfl, rfl, rfl, rfl, rfl, fun v t ht => .inl ht, fun v s' => rfl, fun r s' => ?_,
    fun r s' hl => ?_⟩
  · refine Nat.add_le_add_left ?_ _
    split
    · next h => rw [if_pos ⟨h.1, h.2.1, accepted_of_update h.2.2⟩]
    · exact Nat.zero_le _
  · exact hl.imp_right (Or.imp_left fun h => ⟨h.1, accepted_of_update h.2⟩)

theorem inv_step (h : Inv σ) (hst : Step σ σ') (hs : Steady σ σ') : Inv σ' := by
  obtain ⟨hin, hout, hpre, hqueue, hwhole⟩ := h.tidy
  cases hst with
  | thread w pre t post ts σ' hth hm =>
    have ht : t.Fits σ := h.fits w t (by rw [hth]; simp)
    have he := hm.effect h.tidy ht hs
    have htidy := hm.tidy h.tidy ht hs
    have hmoved := hm.moved hth
    refine ⟨{ htidy with }, fun v u hu => ?_, he.readers_le hmoved h.fits h.reader,
      fun v c => he.ordered hmoved h.tidy h.fits h.reader v c (h.ordered v c)⟩
    -- the goroutines that were there, and those that come of the step
    rcases hmoved.mem hu with hold | ⟨-, hnew⟩
    · exact ((h.fits v u hold).grows hm.grows).grows (.refl rfl rfl)
    · exact (hm.fits h.tidy ht u hnew).grows (.refl rfl rfl)
  | call w c frame _ hc => exact h.calm (calm_call hc) ⟨hin, hout, hpre, hqueue, hwhole⟩
  | accept w s _ _ _ hlt ho ha =>
    exact h.calm (calm_accept _ hlt ho ha) ⟨hin, hout, hpre, hqueue, hwhole⟩
  | acceptClosed w s =>
    exact h.calm (calm_acceptClosed _ _) ⟨hin, hout, hpre, hqueue, hwhole⟩
  | acceptFails | readFrameLease | readErr | cancel | close | drain =>
    exact h.calm (Quiet.calm ⟨rfl, rfl, rfl, rfl, rfl, rfl, rfl, rfl⟩ rfl)
      ⟨hin, hout, hpre, hqueue, hwhole⟩

/-! ## What `ReadFrameLease` returns -/

/-- What was returned and what is still to be, of what has arrived: all of it, but for what `Close`
    throws away. -/
structure Kept (σ : System) (w : Side) : Prop where
  sub : (σ.returned w ++ σ.reads w).Sublist (σ.arrived w)
  all : σ.closed w = false → σ.arrived w = σ.returned w ++ σ.reads w

theorem kept_start (config : Side → Config) (w : Side) : Kept (start config) w :=
  ⟨List.Sublist.slnil, fun _ => rfl⟩

theorem Kept.congr (h : Kept σ w) (hreturned : σ'.returned w = σ.returned w)
    (hreads : σ'.reads w = σ.reads w) (harrived : σ'.arrived w = σ.arrived w)
    (hclosed : σ'.closed w = σ.closed w) : Kept σ' w := by
  refine ⟨?_, ?_⟩ <;> rw [hreturned, hreads, harrived]
  · exact h.sub
  · rw [hclosed]
    exact h.all

theorem kept_step (h : ∀ w, Kept σ w) (hst : Step σ σ') (v : Side) : Kept σ' v := by
  obtain ⟨hsub, hall⟩ := h v
  cases hst with
  | thread w pre t post ts σ' hth hm =>
    cases hm with
    | push c s frame _ =>
      by_cases hv : v = w
      · subst hv
        refine ⟨?_, fun hopen => ?_⟩
        · simpa [System.setThreads, System.push] using hsub.append_right [frame]
        · simp [System.setThreads, System.push, hall hopen]
      · exact (h v).congr rfl (update_of_ne hv _ _) (update_of_ne hv _ _) rfl
    | _ => exact ⟨hsub, hall⟩
  | readFrameLease w frame rest hreads =>
    by_cases hv : v = w
    · subst hv
      rw [hreads] at hsub hall
      exact ⟨by simpa using hsub, fun hopen => by simpa using hall hopen⟩
    · exact (h v).congr (update_of_ne hv _ _) (update_of_ne hv _ _) rfl rfl
  | drain w frame rest hclosed hreads =>
    by_cases hv : v = w
    · subst hv
      refine ⟨?_, fun hopen => ?_⟩
      · rw [hreads] at hsub
        have hless : (σ.returned v ++ rest).Sublist (σ.returned v ++ frame :: rest) :=
          (sublist_cons_self frame rest).append_left _
        simpa using hless.trans hsub
      · rw [hclosed] at hopen
        cases hopen
    · exact (h v).congr rfl (update_of_ne hv _ _) rfl rfl
  | close w shut hshut =>
    refine ⟨hsub, fun hopen => hall ?_⟩
    by_cases hv : v = w
    · subst hv
      simp at hopen
    · simpa [update_of_ne hv] using hopen
  | call | accept | acceptClosed | acceptFails | readErr | cancel => exact ⟨hsub, hall⟩

/-! ## Order -/

/-- In every run whose steps are steady, what `ReadFrameLease` has returned on a channel is what the
    peer has handed over on it first, in this order; once the transport is closed, some of it. -/
theorem channel_ordered (config : Side → Config) (σ : System)
    (hrun : ReflTransGen (Run.Guarded Step Steady) (start config) σ) (w : Side) (c : UInt16) :
    ((σ.returned w.peer).filter (onChannel c)).Sublist (σ.sent w c) ∧
      (σ.closed w.peer = false → (σ.returned w.peer).filter (onChannel c) <+: σ.sent w c) := by
  have hinv : Inv σ :=
    Run.invariant _ (inv_start config) (fun _ _ h hst => inv_step h hst.1 hst.2) hrun
  have hkept : ∀ v, Kept σ v :=
    Run.invariant (fun σ => ∀ v, Kept σ v) (kept_start config)
      (fun _ _ h hst v => kept_step h hst.1 v) hrun
  have harrived : arrivedOn σ w.peer c <+: σ.sent w c := (hinv.ordered w c).isPrefix
  obtain ⟨hsub, hall⟩ := hkept w.peer
  refine ⟨?_, fun hopen => ?_⟩
  · exact (((sublist_append_left _ _).trans hsub).filter _).trans harrived.sublist
  · refine List.IsPrefix.trans ?_ harrived
    rw [arrivedOn, hall hopen, filter_append]
    exact prefix_append _ _

/-! ## Two runs -/

/-- A frame without a payload, on the channel `1`. -/
def dataFrame (chunkID : UInt32) : Wire.Frame where
  header := { frameType := 1, channelID := 1, chunkID := chunkID }

/-- Its bytes. -/
def dataBytes (chunkID : UInt32) : Bytes :=
  (dataFrame chunkID).canonical.header.bytes

theorem channelOf_dataBytes (chunkID : UInt32) : channelOf (dataBytes chunkID) = .ok 1 := by
  have hvalid : validateHeaderValues (dataFrame chunkID).header = none := by
    have hid : validateHeaderValues (dataFrame chunkID).header =
        validateHeaderValues (dataFrame 0).header := rfl
    rw [hid]
    decide
  have hheader := decodeHeader_bytes hvalid []
  rw [append_nil] at hheader
  rw [channelOf, dataBytes, hheader]
  rfl

/-- The read loop takes a frame of its channel. -/
theorem Move.takes {frame : Bytes} {rest : List Bytes} (hq : σ.queue w.peer s = frame :: rest)
    (hc : channelOf frame = .ok c) :
    Move w σ (.read c s) [.hold c s frame]
      (System.reportErr { σ with queue := set σ.queue w.peer s rest } w none) := by
  have h := Move.readFrame c s frame rest hq
  rwa [received_ok hc] at h

theorem steady_of_sent (h : σ'.sent = σ.sent) : Steady σ σ' :=
  fun w c _ hne => absurd (congrFun (congrFun h w) c) hne

theorem steady_call (w : Side) {c : UInt16} {frame : Bytes} (hvalid : validChannel c = true)
    (hc : channelOf frame = .ok c) :
    Run.Guarded Step Steady σ (σ.setThreads w (σ.threads w ++ [.look c frame])) :=
  ⟨.call w c frame hvalid hc, steady_of_sent rfl⟩

theorem steady_accept (w : Side) (s : ℕ) (haccepting : σ.accepting w = true)
    (hclosed : σ.closed w = false) (hlimit : σ.prefaces w < (σ.config w).prefaceLimit)
    (hs : s < σ.next) (hopener : σ.opener s = w.peer) (hnew : σ.accepted s = false) :
    Run.Guarded Step Steady σ ({ σ with
      accepted := update σ.accepted s true
      prefaces := update σ.prefaces w (σ.prefaces w + 1) }.setThreads w
        (σ.threads w ++ [Thread.readPreface s])) :=
  ⟨.accept w s haccepting hclosed hlimit hs hopener hnew, steady_of_sent rfl⟩

theorem steady_lease (w : Side) (frame : Bytes) (rest : List Bytes)
    (hreads : σ.reads w = frame :: rest) :
    Run.Guarded Step Steady σ { σ with
      reads := update σ.reads w rest
      returned := update σ.returned w (σ.returned w ++ [frame]) } :=
  ⟨.readFrameLease w frame rest hreads, steady_of_sent rfl⟩

/-- A step of a goroutine that has no frame to hand over yet is steady. -/
theorem steady_thread (w : Side) (pre post : List Thread) (hth : σ.threads w = pre ++ t :: post)
    (hm : Move w σ t ts σ') (ht : ∀ c frame s, t ≠ .send c frame s) :
    Run.Guarded Step Steady σ (σ'.setThreads w (pre ++ (ts ++ post))) := by
  refine ⟨.thread w pre t post ts σ' hth hm, steady_of_sent ?_⟩
  cases hm with
  | handOver c frame s _ => exact absurd rfl (ht c frame s)
  | _ => rfl

/-- Where all frames of a channel have arrived, the next may go to any stream. -/
theorem steady_arrived (w : Side) (pre post : List Thread) {c : UInt16} {frame : Bytes} {s : ℕ}
    (hth : σ.threads w = pre ++ .send c frame s :: post) (hshut : σ.shut w s = false)
    (hcut : σ.cut w s = false) (harrived : arrivedOn σ w.peer c = σ.sent w c) :
    Run.Guarded Step Steady σ ((σ.handOver w c frame s).setThreads w (pre ++ ([] ++ post))) := by
  refine ⟨.thread w pre _ post [] _ hth (.handOver c frame s hshut), fun v c' s' hne hlast => ?_⟩
  by_cases hv : v = w ∧ c' = c
  · obtain ⟨rfl, rfl⟩ := hv
    have hs : (σ.handOver v c' frame s).last v c' = some s := set_same
    obtain rfl := Option.some.inj (hs.symm.trans hlast)
    exact ⟨hcut, .inr harrived⟩
  · exact absurd (set_of_ne hv) hne

/-- Both sides have opened a stream for the channel. The client has sent a frame on its own and has
    accepted the server's, on which it is about to send the next one. -/
def bothOpened : { σ // ReflTransGen (Run.Guarded Step Steady) (start fun _ => {}) σ } :=
  ⟨_,
    .head (steady_call .client rfl (channelOf_dataBytes 1)) <|
    .head (steady_thread .client [] [] rfl (.lookNone 1 _ rfl rfl rfl) nofun) <|
    .head (steady_thread .client [] [] rfl (.lockOpen 1 _ rfl) nofun) <|
    .head (steady_thread .client [] [] rfl (.againNone 1 _ rfl rfl) nofun) <|
    .head (steady_thread .client [] [] rfl (.opened 1 _) nofun) <|
    .head (steady_thread .client [] [] rfl (.prefaced 1 _ 0) nofun) <|
    .head (steady_thread .client [] [] rfl (.registerNew 1 _ 0 rfl rfl) nofun) <|
    .head (steady_thread .client [] [] rfl (.outgoingStarted 1 _ 0 rfl) nofun) <|
    .head (steady_arrived .client [] [.read 1 0] rfl rfl rfl rfl) <|
    .head (steady_call .server rfl (channelOf_dataBytes 3)) <|
    .head (steady_thread .server [] [] rfl (.lookNone 1 _ rfl rfl rfl) nofun) <|
    .head (steady_thread .server [] [] rfl (.lockOpen 1 _ rfl) nofun) <|
    .head (steady_thread .server [] [] rfl (.againNone 1 _ rfl rfl) nofun) <|
    .head (steady_thread .server [] [] rfl (.opened 1 _) nofun) <|
    .head (steady_thread .server [] [] rfl (.prefaced 1 _ 1) nofun) <|
    .head (steady_thread .server [] [] rfl (.registerNew 1 _ 1 rfl rfl) nofun) <|
    .head (steady_thread .server [] [] rfl (.outgoingStarted 1 _ 1 rfl) nofun) <|
    .head (steady_accept .client 1 rfl rfl (by decide) (by decide) rfl rfl) <|
    .head (steady_thread .client [.read 1 0] [] rfl (.prefaceRead 1 rfl rfl) nofun) <|
    .head (steady_thread .client [.read 1 0] [] rfl (.enterNew 1 1 rfl rfl) nofun) <|
    .head (steady_thread .client [.read 1 0] [] rfl (.incomingStarted 1 1 rfl) nofun) <|
    .head (steady_call .client rfl (channelOf_dataBytes 2)) <|
    .single (steady_thread .client [.read 1 0, .read 1 1] [] rfl
      (.lookFound 1 _ 1 rfl rfl) nofun)⟩

/-- The server reads the frame on its own stream first. -/
theorem overtaking_run : ∃ σ, ReflTransGen Step (start fun _ => {}) σ ∧
    σ.sent .client 1 = [dataBytes 1, dataBytes 2] ∧ σ.returned .server = [dataBytes 2] :=
  ⟨_, (Run.of_guarded bothOpened.2).trans <|
    .head (.thread .client [.read 1 0, .read 1 1] _ [] _ _ rfl (.handOver 1 _ 1 rfl)) <|
    .head (.thread .server [.send 1 (dataBytes 3) 1] _ [] _ _ rfl
      (.takes rfl (channelOf_dataBytes 2))) <|
    .head (.thread .server [.send 1 (dataBytes 3) 1] _ [] _ _ rfl (.push 1 1 _ (by decide))) <|
    .single (.readFrameLease .server (dataBytes 2) [] rfl), rfl, rfl⟩

/-- The order of the two calls is not that of what is returned. -/
theorem channel_overtaken : ∃ σ, ReflTransGen Step (start fun _ => {}) σ ∧
    σ.sent .client 1 = [dataBytes 1, dataBytes 2] ∧
    (σ.returned .server).filter (onChannel 1) = [dataBytes 2] ∧ dataBytes 1 ≠ dataBytes 2 := by
  obtain ⟨σ, hrun, hsent, hreturned⟩ := overtaking_run
  refine ⟨σ, hrun, hsent, ?_, by decide +kernel⟩
  simp [hreturned, onChannel_of_ok (channelOf_dataBytes 2)]

/-- The server accepts the client's stream and reads the first frame before the client sends the
    second one. -/
theorem switching_run : ∃ σ, ReflTransGen (Run.Guarded Step Steady) (start fun _ => {}) σ ∧
    σ.sent .client 1 = [dataBytes 1, dataBytes 2] ∧
    σ.returned .server = [dataBytes 1, dataBytes 2] ∧ σ.closed .server = false := by
  have harrived : [dataBytes 1].filter (onChannel 1) = [dataBytes 1] := by
    simp [onChannel_of_ok (channelOf_dataBytes 1)]
  exact ⟨_, bothOpened.2.trans <|
    .head (steady_accept .server 0 rfl rfl (by decide) (by decide) rfl rfl) <|
    .head (steady_thread .server [.send 1 (dataBytes 3) 1, .read 1 1] [] rfl
      (.prefaceRead 0 rfl rfl) nofun) <|
    .head (steady_thread .server [.send 1 (dataBytes 3) 1, .read 1 1] [] rfl
      (.enterNew 0 1 rfl rfl) nofun) <|
    .head (steady_thread .server [.send 1 (dataBytes 3) 1, .read 1 1] [] rfl
      (.incomingStarted 1 0 rfl) nofun) <|
    .head (steady_thread .server [.send 1 (dataBytes 3) 1, .read 1 1] [] rfl
      (.takes rfl (channelOf_dataBytes 1)) nofun) <|
    .head (steady_thread .server [.send 1 (dataBytes 3) 1, .read 1 1] [] rfl
      (.push 1 0 _ (by decide)) nofun) <|
    .head (steady_arrived .client [.read 1 0, .read 1 1] [] rfl rfl rfl harrived) <|
    .head (steady_thread .server [.send 1 (dataBytes 3) 1] [.read 1 0] rfl
      (.takes rfl (channelOf_dataBytes 2)) nofun) <|
    .head (steady_thread .server [.send 1 (dataBytes 3) 1] [.read 1 0] rfl
      (.push 1 1 _ (by decide)) nofun) <|
    .head (steady_lease .server (dataBytes 1) [dataBytes 2] rfl) <|
    .single (steady_lease .server (dataBytes 2) [] rfl), rfl, rfl, rfl⟩

theorem channel_ordered_switch : ∃ σ,
    ReflTransGen (Run.Guarded Step Steady) (start fun _ => {}) σ ∧
    σ.returned .server = [dataBytes 1, dataBytes 2] ∧
    (σ.returned .server).filter (onChannel 1) <+: σ.sent .client 1 := by
  obtain ⟨σ, hrun, -, hreturned, hopen⟩ := switching_run
  exact ⟨σ, hrun, hreturned, (channel_ordered _ σ hrun .client 1).2 hopen⟩

end Etp.Streams
