import Etp.Writer.Machine

/-!
# What becomes of the items of the send queue

* `Sound`: the queue on its own. Its counters are those of its content and within the limits,
  a closing queue has only critical control items, a closed one has none;
* `State.Inv`: of any item, one of these holds: it was not handed to `enqueue` yet, its caller
  still has it, it is queued, it is being written, or `releaseItem` was called for it, once
  (`places`). Only what the transport has written is released without an error (`results`);
* `writer_accounting`: the first, in every state any interleaving reaches, and what is taken
  after `beginClosing`, after `close` and after a write has failed;
* `items_settled_once`: the second, so that in a closed writer in which nothing can go on any
  more, every item has been released exactly once.
-/

namespace Etp.Writer

open SessionWriter Function List

/-! ## The queue -/

/-- What holds of a queue whenever the lock is free. -/
structure Sound (cfg : SendQueueConfig) (w : SessionWriter Handle) : Prop where
  consistent : Consistent w
  frames : 0 < cfg.maxFrames → w.queuedItems ≤ cfg.maxFrames
  bytes : 0 < cfg.maxBytes → w.queuedBytes ≤ cfg.maxBytes
  control : w.controlOnly → ∀ p, ∀ x ∈ w.queue p, Control x
  empty : w.closed → ∀ p, w.queue p = []
  err : w.closed → w.err.isSome

section Sound

variable {cfg : SendQueueConfig} {w w' : SessionWriter Handle} {x : Item}

theorem closedErrLocked_eq_none : w.closedErrLocked = none ↔ w.err = none ∧ w.closed = false := by
  unfold closedErrLocked
  cases h : w.err <;> simp

theorem sound_init : Sound cfg {} where
  consistent := consistent_init
  frames h := h.le
  bytes _ := Nat.zero_le _
  control h := by cases h
  empty h := by cases h
  err h := by cases h

theorem Sound.push (h : Sound cfg w) (hroom : canEnqueue cfg w x.size = true)
    (hopen : w.closedErrLocked = none) (hx : w.controlOnly → Control x) :
    Sound cfg (w.push x) := by
  have hclosed := (closedErrLocked_eq_none.1 hopen).2
  simp only [canEnqueue, Bool.and_eq_true, Bool.not_eq_true', Bool.and_eq_false_iff,
    decide_eq_false_iff_not] at hroom
  refine ⟨consistent_push h.consistent x, ?_, ?_, ?_, ?_, ?_⟩
  · simp only [SessionWriter.push]
    omega
  · simp only [SessionWriter.push]
    omega
  · intro hc p y hy
    rw [push_queue] at hy
    split_ifs at hy
    · rcases mem_append.1 hy with hy | hy
      · exact h.control hc p y hy
      · obtain rfl := mem_singleton.1 hy
        exact hx hc
    · exact h.control hc p y hy
  all_goals
    intro hc
    simp [SessionWriter.push, hclosed] at hc

section Sound

variable (h : Sound cfg w)
include h

/-- A pop finds an item exactly if there is one. -/
theorem Sound.popLocked_isSome_iff : w.popLocked.1.isSome ↔ ∃ p, w.queue p ≠ [] := by
  constructor
  · intro hsome
    obtain ⟨x, hx⟩ := Option.isSome_iff_exists.1 hsome
    obtain ⟨p, rest, hq, -⟩ := @popLocked_eq_some _ w w.popLocked.2 x (Prod.ext hx rfl)
    exact ⟨p, by simp [hq]⟩
  · rintro ⟨p, hp⟩
    obtain ⟨x, w', hpop⟩ := popLocked_isSome h.consistent hp
    simp [hpop]

/-- Who finds the counter positive finds an item. -/
theorem Sound.pop_of_pos (hpos : w.queuedItems ≠ 0) : ∃ x w', w.popLocked = (some x, w') := by
  have : ∃ p, w.queue p ≠ [] := by
    by_contra hall
    push Not at hall
    exact hpos (by simp [h.consistent.items, load, hall])
  exact popLocked_isSome h.consistent this.choose_spec

theorem Sound.pop (hp : w.popLocked = (some x, w')) :
    Sound cfg { w' with inFlight := some x } ∧ (w.controlOnly → Control x) ∧
      w.closed = false := by
  obtain ⟨p, rest, hq, hw', -⟩ := popLocked_eq_some hp
  obtain ⟨hctl, hclosed, herr⟩ := popLoop_status hp
  have hc : Consistent w' := consistent_popLoop h.consistent hp
  have hopen : w.closed = false := by
    by_contra hcl
    simp [h.empty (by simpa using hcl)] at hq
  have hitems := load_pop (fun _ => 1) hp
  have hbytes := load_pop (·.size) hp
  have hmem : ∀ q, ∀ y ∈ w'.queue q, y ∈ w.queue q := by
    intro q y hy
    rw [hw'] at hy
    by_cases hqp : q = p
    · subst hqp
      rw [update_self] at hy
      simp [hq, hy]
    · rwa [update_of_ne hqp] at hy
  rw [← h.consistent.items, ← hc.items] at hitems
  rw [← h.consistent.bytes, ← hc.bytes] at hbytes
  refine ⟨⟨⟨hc.items, hc.bytes, hc.schedule⟩, ?_, ?_, ?_, ?_, ?_⟩, ?_, hopen⟩
  · have := h.frames
    show 0 < cfg.maxFrames → (w'.queuedItems : ℤ) ≤ cfg.maxFrames
    omega
  · have := h.bytes
    show 0 < cfg.maxBytes → w'.queuedBytes ≤ cfg.maxBytes
    omega
  · exact fun hon q y hy => h.control (hctl ▸ hon) q y (hmem q y hy)
  · intro hcl
    simp [hclosed, hopen] at hcl
  · intro hcl
    simp [hclosed, hopen] at hcl
  · exact fun hon => h.control hon p x (by simp [hq])

/-- A queue without items is sound, if it has an error when it is closed. -/
theorem Sound.drop (hq : ∀ p, w'.queue p = []) (hitems : w'.queuedItems = 0)
    (hbytes : w'.queuedBytes = 0) (hs : w'.scheduleAt = w.scheduleAt)
    (herr : w'.closed → w'.err.isSome) : Sound cfg w' where
  consistent := ⟨by simp [load, hq, hitems], by simp [load, hq, hbytes], hs ▸ h.consistent.schedule⟩
  frames _ := by omega
  bytes _ := by omega
  control _ p x hx := by simp [hq] at hx
  empty _ := hq
  err := herr

theorem Sound.beginClosing : Sound cfg w.beginClosing :=
  h.drop (fun _ => rfl) rfl rfl rfl h.err

theorem Sound.close : Sound cfg w.close := by
  unfold SessionWriter.close
  split
  · exact h
  · exact h.drop (fun _ => rfl) rfl rfl rfl fun _ => rfl

theorem Sound.writeFailed (e : Err) : Sound cfg (w.writeFailed e) :=
  h.drop (fun _ => rfl) rfl rfl rfl fun _ => rfl

end Sound

end Sound

/-! ## What a section does -/

namespace State

variable {cfg : Config} {s t : State} {x : Item}

/-- `enqueue` is about to try, with `n` others waiting for room. -/
def Trying (s : State) (x : Item) (n : ℕ) : Prop :=
  s.caller x = .calling ∧ n = s.queueWaiters ∨
    s.caller x = .waiting ∧ .enqueue x ∉ s.parked ∧ n = s.queueWaiters - 1

/-- The run loop is about to look at the queue. -/
def Looking (s : State) : Prop := s.runner = .top ∨ s.runner = .waiting ∧ .run ∉ s.parked

/-- A call of `flush` is about to look at the queue, counted in `n`. -/
def Flushing (s : State) (j : ℕ) (n : ℤ) : Prop :=
  s.flusher j = .calling ∧ n = s.flushWaiters + 1 ∨
    s.flusher j = .waiting ∧ .flush j ∉ s.parked ∧ n = s.flushWaiters

/-- What the sections do, each with what it has found. -/
inductive Effect (cfg : Config) (s : State) : State → Prop
  | call (x : Item) : s.caller x = .absent →
      Effect cfg s { s with caller := update s.caller x .calling }
  | refuse (x : Item) (n : ℕ) (e : Err) : s.Trying x n →
      Effect cfg s ({ s with queueWaiters := n }.refuse x e)
  | accept (x : Item) (n k : ℕ) : s.Trying x n →
      canEnqueue cfg.toSendQueueConfig s.w x.size = true → s.w.closedErrLocked = none →
      (s.w.controlOnly → Control x) → Effect cfg s ({ s with queueWaiters := n }.accept x k)
  | wait (x : Item) (n : ℕ) : s.Trying x n →
      ¬canEnqueue cfg.toSendQueueConfig s.w x.size = true → s.w.closedErrLocked = none →
      Effect cfg s ({ s with
        queueWaiters := n + 1, caller := update s.caller x .waiting }.park (.enqueue x))
  | sleep : s.Looking → s.w.queuedItems = 0 → s.w.closed = false →
      Effect cfg s ({ s with runner := .waiting }.park .run)
  | finish : s.Looking → Effect cfg s { s with runner := .finished }
  | pop (x : Item) (w : SessionWriter Handle) : s.Looking → s.w.popLocked = (some x, w) →
      Effect cfg s { s with
        w := { w with inFlight := some x }
        runner := .writing x
        popped := s.popped ++ [x]
        parked := if 0 < s.queueWaiters then [] else s.parked }
  | write (x : Item) (r : Option Err) (l : List (Item × Option Err)) : s.runner = .writing x →
      s.wrote ⊆ l → (r = none → 0 < x.size → (x, none) ∈ l) →
      Effect cfg s { s with runner := .wrote x r, wrote := l }
  | release (x : Item) (r : Option Err) : s.runner = .wrote x r →
      Effect cfg s { s.releaseItem x r with runner := .settled x r }
  | fail (x : Item) (e : Err) : s.runner = .settled x (some e) → Effect cfg s (s.fail e)
  | settle (x : Item) : s.runner = .settled x none →
      Effect cfg s { s with
        w := { s.w with inFlight := none }
        runner := .top
        parked := if 0 < s.flushWaiters then [] else s.parked }
  | callFlush (j : ℕ) : s.flusher j = .absent →
      Effect cfg s { s with flusher := update s.flusher j .calling }
  | leave (j : ℕ) (n : ℤ) (r : Option Err) : s.Flushing j n →
      Effect cfg s { s with
        flushWaiters := n, flusher := update s.flusher j (.leaving r) }
  | waitFlush (j : ℕ) (n : ℤ) : s.Flushing j n → 0 < s.w.queuedItems ∨ s.w.inFlight.isSome →
      s.w.err = none → Effect cfg s ({ s with
        flushWaiters := n, flusher := update s.flusher j .waiting }.park (.flush j))
  | read (j : ℕ) (r : Option Err) : s.flusher j = .leaving r →
      Effect cfg s { s with
        flusher := update s.flusher j (.decrementing s.flushWaiters r) }
  | decrement (j : ℕ) (n : ℤ) (r : Option Err) : s.flusher j = .decrementing n r →
      Effect cfg s { s with
        flushWaiters := n - 1, flusher := update s.flusher j (.returned r) }
  | beginClosing : Effect cfg s s.beginClosing
  | close : s.w.closed = false →
      Effect cfg s (s.releaseQueued s.w.close errSessionClosed).broadcast
  | broadcast : Effect cfg s s.broadcast

theorem effect_tryEnqueue {n : ℕ} (h : s.Trying x n) (env : Env) :
    Effect cfg s ({ s with queueWaiters := n }.tryEnqueue cfg x env) := by
  unfold State.tryEnqueue
  split
  · rename_i hroom
    split
    · exact .refuse x n _ h
    · rename_i hopen
      split
      · exact .refuse x n _ h
      · rename_i hctl
        exact .accept x n _ h hroom hopen fun hc => by simpa [hc] using hctl
  · rename_i hfull
    split
    · exact .refuse x n _ h
    · rename_i hopen
      split
      · exact .refuse x n _ h
      · split
        · exact .refuse x n _ h
        · exact .wait x n h hfull hopen

theorem effect_runTop (hs : Sound cfg.toSendQueueConfig s.w) (h : s.Looking) :
    Effect cfg s s.runTop := by
  unfold State.runTop
  split
  · rename_i hempty
    exact .sleep h hempty.1 (by simpa using hempty.2)
  split
  · exact .finish h
  · rename_i hempty hend
    have hpos : s.w.queuedItems ≠ 0 := by
      cases hc : s.w.closed <;> simp_all
    obtain ⟨x, w, hpop⟩ := hs.pop_of_pos hpos
    have heffect : Effect cfg s _ := .pop x w h hpop
    simp only [hpop]
    split <;> simpa only [*, State.broadcast, if_true, if_false] using heffect

theorem effect_runNext (hs : Sound cfg.toSendQueueConfig s.w) {o : Outcome}
    (ht : s.runNext o = some t) : Effect cfg s t := by
  unfold State.runNext at ht
  split at ht
  · rename_i hr
    cases ht
    exact effect_runTop hs (.inl hr)
  · rename_i hr
    split_ifs at ht with hwoken
    cases ht
    exact effect_runTop hs (.inr ⟨hr, hwoken⟩)
  · rename_i x hr
    cases ht
    unfold State.write
    split
    · exact .write x none s.wrote hr (fun _ => id) fun _ _ => by omega
    · split
      · exact .write x _ s.wrote hr (fun _ => id) nofun
      · exact .write x _ _ hr (subset_append_left ..) fun hr _ => by simp [hr]
  · rename_i x r hr
    cases ht
    exact .release x r hr
  · rename_i x r hr
    cases ht
    cases r with
    | some e => exact .fail x e hr
    | none =>
      have heffect : Effect cfg s _ := .settle x hr
      simp only [State.settle]
      split <;> simpa only [*, State.broadcast, if_true, if_false] using heffect
  · cases ht

theorem effect_flushLoop {j : ℕ} {n : ℤ} (h : s.Flushing j n) (ctx : Option Err) :
    Effect cfg s ({ s with flushWaiters := n }.flushLoop j ctx) := by
  unfold State.flushLoop
  split
  · rename_i hsome
    split
    · exact .leave j n _ h
    · split
      · exact .leave j n _ h
      · rename_i herr
        exact .waitFlush j n h hsome herr
  · exact .leave j n _ h

/-- Every section is one of these. -/
theorem effect_exec (hs : Sound cfg.toSendQueueConfig s.w) {ev : Event}
    (ht : exec cfg s ev = some t) : Effect cfg s t := by
  cases ev with
  | call x =>
    simp only [Writer.exec] at ht
    split at ht
    · cases ht
      exact .call x ‹_›
    · cases ht
  | enqueue x env =>
    simp only [Writer.exec, State.enqueue] at ht
    split at ht
    · rename_i hx
      split_ifs at ht <;> cases ht
      · exact .refuse x s.queueWaiters _ (.inl ⟨hx, rfl⟩)
      · exact effect_tryEnqueue (.inl ⟨hx, rfl⟩) env
    · rename_i hx
      split_ifs at ht with hwoken
      cases ht
      exact effect_tryEnqueue (.inr ⟨hx, hwoken, rfl⟩) env
    · cases ht
    · cases ht
  | run o => exact effect_runNext hs ht
  | callFlush j =>
    simp only [Writer.exec] at ht
    split at ht
    · cases ht
      exact .callFlush j ‹_›
    · cases ht
  | flush j ctx =>
    simp only [Writer.exec, State.flush] at ht
    split at ht
    · rename_i hj
      cases ht
      exact effect_flushLoop (.inl ⟨hj, rfl⟩) ctx
    · rename_i hj
      split_ifs at ht with hwoken
      cases ht
      exact effect_flushLoop (.inr ⟨hj, hwoken, rfl⟩) ctx
    · cases ht
      exact .read j _ ‹_›
    · cases ht
      exact .decrement j _ _ ‹_›
    · cases ht
    · cases ht
  | beginClosing =>
    cases ht
    exact .beginClosing
  | close =>
    cases ht
    unfold State.close
    split
    · exact .broadcast
    · rename_i hopen
      exact .close (by simpa using hopen)
  | broadcast =>
    cases ht
    exact .broadcast

end State

/-! ## The items -/

/-- Its caller has the item. -/
def Caller.held : Caller → ℕ
  | .calling | .waiting => 1
  | .absent | .returned _ => 0

/-- The item was handed to `enqueue`. -/
def Caller.handed : Caller → ℕ
  | .absent => 0
  | .calling | .waiting | .returned _ => 1

/-- The run loop has the item: it writes it, or is about to release it. -/
def Runner.flying (x : Item) : Runner → ℕ
  | .writing y | .wrote y _ => if y = x then 1 else 0
  | .top | .waiting | .settled _ _ | .finished => 0

theorem Caller.handed_of_held {c : Caller} (h : c.held = 1) : c.handed = 1 := by
  cases c <;> first | rfl | cases h

/-- How often an item is in the queues. -/
def inQueue (x : Item) (q : Priority → List Item) : ℕ := load (fun y => if y = x then 1 else 0) q

theorem inQueue_eq (x : Item) (q : Priority → List Item) :
    inQueue x q = (q .critical).count x + (q .high).count x + (q .normal).count x +
      (q .low).count x + (q .idle).count x := by
  have hsum : ∀ l : List Item, (l.map fun y => if y = x then 1 else 0).sum = l.count x := by
    intro l
    induction l with
    | nil => rfl
    | cons y l ih => simp [count_cons, ih, Nat.add_comm]
  simp [inQueue, load, hsum]

theorem inQueue_pos {x : Item} {q : Priority → List Item} {p : Priority} (h : x ∈ q p) :
    0 < inQueue x q := by
  have := count_pos_iff.2 h
  rw [inQueue_eq]
  cases p <;> omega

/-- How often `releaseItem` was called for an item. -/
def releases (x : Item) (l : List (Item × Option Err)) : ℕ := (l.map Prod.fst).count x

@[simp] theorem releases_append (x : Item) (l m : List (Item × Option Err)) :
    releases x (l ++ m) = releases x l + releases x m := by
  simp [releases]

@[simp] theorem releases_singleton (x y : Item) (r : Option Err) :
    releases x [(y, r)] = if y = x then 1 else 0 := by
  simp [releases, count_singleton]

theorem releases_queued (s : State) (x : Item) (r : Option Err) :
    releases x (s.queued.map (·, r)) = inQueue x s.w.queue := by
  simp [releases, comp_def, State.queued, inQueue_eq, Nat.add_assoc]

/-- Every item that was handed to `enqueue` is in one place. -/
def Places (caller : Item → Caller) (q : Priority → List Item) (runner : Runner)
    (l : List (Item × Option Err)) : Prop :=
  ∀ x, (caller x).held + inQueue x q + runner.flying x + releases x l = (caller x).handed

namespace State

variable {cfg : Config} {s t : State} {x y : Item} {e : Err}

theorem Trying.held {n : ℕ} (h : s.Trying x n) : (s.caller x).held = 1 := by
  rcases h with ⟨hx, -⟩ | ⟨hx, -⟩ <;> rw [hx] <;> rfl

theorem Looking.flying (h : s.Looking) (x : Item) : s.runner.flying x = 0 := by
  rcases h with hr | ⟨hr, -⟩ <;> rw [hr] <;> rfl

/-- What holds in every state that is reached. -/
structure Inv (cfg : Config) (s : State) : Prop where
  sound : Sound cfg.toSendQueueConfig s.w
  parked : s.w.closed → s.parked = []
  places : Places s.caller s.w.queue s.runner s.released
  written : ∀ x, s.runner = .wrote x none → 0 < x.size → (x, none) ∈ s.wrote
  results : ∀ x, (x, none) ∈ s.released → 0 < x.size → (x, none) ∈ s.wrote

theorem inv_init : Inv cfg {} where
  sound := sound_init
  parked _ := rfl
  places _ := rfl
  written _ h := by cases h
  results _ h := by cases h

section Inv

variable (h : s.Inv cfg)
include h

theorem Inv.broadcast : s.broadcast.Inv cfg :=
  { h with parked := fun _ => rfl }

/-- Waiting for the condition variable, where the queue is not closed. -/
theorem Inv.park (hopen : s.w.closed = false) (t : Waiter) : (s.park t).Inv cfg :=
  { h with parked := fun hc => absurd hc (by simp [State.park, hopen]) }

theorem Inv.refuse (hx : (s.caller x).held = 1) : (s.refuse x e).Inv cfg := by
  refine ⟨h.sound, h.parked, fun y => ?_, h.written, fun y hy => h.results y ?_⟩
  · have := h.places y
    simp only [State.refuse, releaseItem, update_apply, releases_append,
      releases_singleton, eq_comm (a := x)]
    split_ifs with hyx
    · subst hyx
      rw [hx, Caller.handed_of_held hx] at this
      simp only [Caller.held, Caller.handed]
      omega
    · exact this
  · simpa [State.refuse, releaseItem] using hy

theorem Inv.accept (hx : (s.caller x).held = 1)
    (hroom : canEnqueue cfg.toSendQueueConfig s.w x.size = true)
    (hopen : s.w.closedErrLocked = none) (hctl : s.w.controlOnly → Control x) (k : ℕ) :
    (s.accept x k).Inv cfg := by
  have hclosed := (closedErrLocked_eq_none.1 hopen).2
  refine ⟨h.sound.push hroom hopen hctl, fun hc => ?_, fun y => ?_, h.written, h.results⟩
  · exact absurd hc (by simp [State.accept, signal, SessionWriter.push, hclosed])
  · have := h.places y
    have hload : inQueue y (s.w.push x).queue = inQueue y s.w.queue + if x = y then 1 else 0 :=
      load_push _ s.w x
    simp only [State.accept, signal, update_apply, hload, eq_comm (a := x)]
    split_ifs with hyx
    · subst hyx
      rw [hx, Caller.handed_of_held hx] at this
      simp only [Caller.held, Caller.handed]
      omega
    · exact this

/-- The caller keeps the item while it waits. -/
theorem Inv.keep (hx : (s.caller x).held = 1) (n : ℕ) :
    Inv cfg { s with queueWaiters := n, caller := update s.caller x .waiting } := by
  refine { h with places := fun y => ?_ }
  have := h.places y
  simp only [update_apply]
  split_ifs with hyx
  · subst hyx
    rwa [hx, Caller.handed_of_held hx] at this
  · exact this

/-- The queue is emptied, and all that was in it is released with an error. -/
theorem Inv.releaseQueued {w : SessionWriter Handle} (hw : Sound cfg.toSendQueueConfig w)
    (hq : ∀ p, w.queue p = []) : (s.releaseQueued w e).broadcast.Inv cfg := by
  refine ⟨hw, fun _ => rfl, fun y => ?_, h.written, fun y hy => h.results y ?_⟩
  · have := h.places y
    have hnone : inQueue y w.queue = 0 := by simp [inQueue, load, hq]
    simp only [State.broadcast, State.releaseQueued, releases_append, releases_queued, hnone]
    omega
  · simpa [State.broadcast, State.releaseQueued] using hy

/-- The run loop goes on without an item. -/
theorem Inv.idle (hrun : ∀ x, s.runner.flying x = 0) {r : Runner} (hr : ∀ x, r.flying x = 0)
    (hw : ∀ x, r ≠ .wrote x none) : Inv cfg { s with runner := r } := by
  refine ⟨h.sound, h.parked, fun x => ?_, fun x hx => absurd hx (hw x), h.results⟩
  have := h.places x
  rw [hrun] at this
  rwa [hr]

/-- Every section keeps the invariant. -/
theorem Inv.effect (ht : Effect cfg s t) : t.Inv cfg := by
  have hcounters {n : ℕ} {m : ℤ} {f : ℕ → Flusher} :
      Inv cfg { s with queueWaiters := n, flushWaiters := m, flusher := f } := { h with }
  have hwoken {p : Prop} [Decidable p] (hc : s.w.closed = true) :
      (if p then [] else s.parked) = [] := by
    rw [h.parked hc, ite_self]
  cases ht with
  | call x hx =>
    refine { h with places := fun y => ?_ }
    have := h.places y
    simp only [update_apply]
    split_ifs with hyx
    · subst hyx
      simp only [hx, Caller.held, Caller.handed] at this ⊢
      omega
    · exact this
  | refuse x n e hx => exact hcounters.refuse hx.held
  | accept x n k hx hroom hopen hctl =>
    exact (hcounters (n := n)).accept hx.held hroom hopen hctl k
  | wait x n hx _ hopen =>
    exact (h.keep hx.held _).park (closedErrLocked_eq_none.1 hopen).2 _
  | sleep hr _ hopen => exact (h.idle hr.flying (r := .waiting) (fun _ => rfl) nofun).park hopen _
  | finish hr => exact h.idle hr.flying (r := .finished) (fun _ => rfl) nofun
  | pop x w hr hpop =>
    obtain ⟨hsound, -, hopen⟩ := h.sound.pop hpop
    refine ⟨hsound, fun hc => hwoken ((popLoop_status hpop).2.1 ▸ hc), fun y => ?_, nofun,
      h.results⟩
    have := h.places y
    have hload : inQueue y s.w.queue = inQueue y w.queue + if x = y then 1 else 0 :=
      load_pop _ hpop
    rw [hr.flying] at this
    simp only [Runner.flying]
    omega
  | write x r l hr hl hwrote =>
    have hplaces := h.places
    rw [hr] at hplaces
    refine ⟨h.sound, h.parked, hplaces, fun y hy => ?_, fun y hy hpos => hl (h.results y hy hpos)⟩
    cases hy
    exact hwrote rfl
  | release x r hr =>
    refine ⟨h.sound, h.parked, fun y => ?_, nofun, fun y hy hpos => ?_⟩
    · have := h.places y
      simp only [hr, releaseItem, Runner.flying, releases_append, releases_singleton] at this ⊢
      omega
    · rcases mem_append.1 hy with hy | hy
      · exact h.results y hy hpos
      · obtain ⟨rfl, rfl⟩ : y = x ∧ none = r := by simpa using hy
        exact h.written y hr hpos
  | fail x e hr =>
    exact (h.idle (fun y => by rw [hr]; rfl) (r := .finished) (fun _ => rfl) nofun).releaseQueued
      (h.sound.writeFailed e) fun _ => rfl
  | settle x hr =>
    have htop := h.idle (fun y => by rw [hr]; rfl) (r := .top) (fun _ => rfl) nofun
    exact ⟨⟨⟨h.sound.consistent.items, h.sound.consistent.bytes, h.sound.consistent.schedule⟩,
        h.sound.frames, h.sound.bytes, h.sound.control, h.sound.empty, h.sound.err⟩,
      hwoken, htop.places, nofun, h.results⟩
  | callFlush j => exact hcounters
  | leave j n r => exact hcounters
  | waitFlush j n _ _ herr =>
    refine hcounters.park ?_ _
    by_contra hc
    simpa [herr] using h.sound.err (by simpa using hc)
  | read j r => exact hcounters
  | decrement j n r => exact hcounters
  | beginClosing => exact h.releaseQueued h.sound.beginClosing fun _ => rfl
  | close hopen =>
    refine h.releaseQueued h.sound.close fun p => ?_
    simp [SessionWriter.close, hopen, releaseQueuedLocked]
  | broadcast => exact h.broadcast

theorem Inv.exec {ev : Event} (hs : exec cfg s ev = some t) : t.Inv cfg :=
  h.effect (effect_exec h.sound hs)

end Inv

theorem inv_reachable (h : Reachable cfg s) : s.Inv cfg :=
  Run.invariant (Inv cfg) inv_init (fun _ _ hi ⟨_, hs⟩ => hi.exec hs) h

end State

/-! ## What is taken after the queue closes -/

/-- A closing queue stays so; a closed one stays closed, and nothing is accepted or popped. -/
structure Keeps (s t : State) : Prop where
  controlOnly : s.w.controlOnly → t.w.controlOnly
  closed : s.w.closed → t.w.closed ∧ t.accepted = s.accepted ∧ t.popped = s.popped

namespace Keeps

open State

variable {cfg : Config} {s t : State} {x : Item}

theorem of_eq (hw : t.w = s.w) (ha : t.accepted = s.accepted) (hp : t.popped = s.popped) :
    Keeps s t :=
  ⟨fun h => hw ▸ h, fun h => ⟨hw ▸ h, ha, hp⟩⟩

/-- What an open queue takes. -/
theorem of_open (hc : s.w.closed = false) (hw : s.w.controlOnly → t.w.controlOnly) : Keeps s t :=
  ⟨hw, fun h => absurd h (by simp [hc])⟩

theorem trans {u : State} (h : Keeps s t) (h' : Keeps t u) : Keeps s u where
  controlOnly hc := h'.controlOnly (h.controlOnly hc)
  closed hc := by
    obtain ⟨ht, ha, hp⟩ := h.closed hc
    obtain ⟨hu, ha', hp'⟩ := h'.closed ht
    exact ⟨hu, ha'.trans ha, hp'.trans hp⟩

theorem effect (h : s.Inv cfg) (ht : Effect cfg s t) : Keeps s t := by
  cases ht with
  | accept x n k _ _ hopen => exact .of_open (closedErrLocked_eq_none.1 hopen).2 id
  | pop x w _ hpop =>
    have hctl := (popLoop_status hpop).1
    exact .of_open (h.sound.pop hpop).2.2 fun hc => by simpa [hctl] using hc
  | fail x e => exact ⟨id, fun _ => ⟨rfl, rfl, rfl⟩⟩
  | settle x => exact ⟨id, fun hc => ⟨hc, rfl, rfl⟩⟩
  | beginClosing => exact ⟨fun _ => rfl, fun hc => ⟨hc, rfl, rfl⟩⟩
  | close hopen =>
    refine .of_open hopen fun hctl => ?_
    simpa [State.broadcast, State.releaseQueued, SessionWriter.close, hopen,
      releaseQueuedLocked] using hctl
  | _ => exact .of_eq rfl rfl rfl

/-- Along any run. -/
theorem run (h : s.Inv cfg) (hrun : Relation.ReflTransGen (Step cfg) s t) :
    t.Inv cfg ∧ Keeps s t := by
  induction hrun with
  | refl => exact ⟨h, .of_eq rfl rfl rfl⟩
  | tail _ hst ih =>
    obtain ⟨ev, hst⟩ := hst
    exact ⟨ih.1.exec hst, ih.2.trans (.effect ih.1 (effect_exec ih.1.sound hst))⟩

end Keeps

/-- In every state that any interleaving of the goroutines around a new writer reaches: the
    counters are those of the five queues and within the limits that are positive; a pop finds
    an item exactly if some queue has one; from `beginClosing` on, whatever is popped is a
    critical item of the control channel; from `close` on, and from the section on in which
    the run loop takes note of a failed write, nothing is accepted and nothing is popped. -/
theorem writer_accounting (cfg : Config) (s : State) (h : Reachable cfg s) :
    s.w.queuedItems = load (fun _ => 1) s.w.queue ∧
    s.w.queuedBytes = load (·.size) s.w.queue ∧
    (0 < cfg.maxFrames → s.w.queuedItems ≤ cfg.maxFrames) ∧
    (0 < cfg.maxBytes → s.w.queuedBytes ≤ cfg.maxBytes) ∧
    (s.w.popLocked.1.isSome ↔ ∃ p, s.w.queue p ≠ []) ∧
    (∀ t, Relation.ReflTransGen (Step cfg) s.beginClosing t →
      ∀ x w, t.w.popLocked = (some x, w) → x.priority = .critical ∧ x.channel = .control) ∧
    (∀ t u, (t = s.close ∨ ∃ x e, s.runner = .settled x (some e) ∧ t = s.fail e) →
      Relation.ReflTransGen (Step cfg) t u →
        u.accepted = s.accepted ∧ u.popped = s.popped ∧ u.w.popLocked.1 = none) := by
  have hinv := State.inv_reachable h
  have hsound := hinv.sound
  refine ⟨hsound.consistent.items, hsound.consistent.bytes, hsound.frames, hsound.bytes,
    hsound.popLocked_isSome_iff, fun t hrun x w hpop => ?_, fun t u ht hrun => ?_⟩
  · obtain ⟨hinv', hkeeps⟩ := Keeps.run (hinv.effect .beginClosing) hrun
    exact (hinv'.sound.pop hpop).2.1 (hkeeps.controlOnly rfl)
  · have hclosing : t.Inv cfg ∧ t.w.closed ∧ t.accepted = s.accepted ∧ t.popped = s.popped := by
      rcases ht with rfl | ⟨x, e, hr, rfl⟩
      · refine ⟨hinv.exec (show exec cfg s .close = some _ from rfl), ?_⟩
        by_cases hc : s.w.closed = true
        · simp [State.close, hc, State.broadcast]
        · simp [State.close, hc, State.broadcast, State.releaseQueued, SessionWriter.close]
      · have hs : exec cfg s (.run (.sent none)) = some (s.fail e) := by
          simp [exec, State.runNext, hr, State.settle]
        exact ⟨hinv.exec hs, rfl, rfl, rfl⟩
    obtain ⟨htinv, hclosed, hta, htp⟩ := hclosing
    obtain ⟨huinv, hkeeps⟩ := Keeps.run htinv hrun
    obtain ⟨huclosed, ha, hp⟩ := hkeeps.closed hclosed
    refine ⟨ha.trans hta, hp.trans htp, ?_⟩
    by_contra hsome
    obtain ⟨p, hp⟩ := huinv.sound.popLocked_isSome_iff.1 (Option.isSome_iff_ne_none.2 hsome)
    exact hp (huinv.sound.empty huclosed p)

/-- A frame that waits in the queue is popped if the queue begins to close, and not if it
    closes. -/
theorem writer_accounting_queued :
    let x : Item := ⟨.critical, .control, ⟨0, true, false⟩, 48⟩
    ∃ s, play {} {} [.beginClosing, .call x, .enqueue x {}] = some s ∧ s.w.queuedItems = 1 ∧
      s.w.popLocked.1 = some x ∧ s.close.w.popLocked.1 = none := by
  intro x
  refine ⟨_, rfl, rfl, rfl, ?_⟩
  exact ((writer_accounting {} _ (reachable_play [.beginClosing, .call x, .enqueue x {}]
    rfl)).2.2.2.2.2.2 _ _ (.inl rfl) .refl).2.2

/-! ## Every item is settled once -/

/-- What `releaseItem` has put back into the pool: the items whose buffers they were. -/
def State.pool (s : State) : List Item := (s.released.map Prod.fst).filter (·.data.bufp)

/-- What `releaseItem` has sent to the channel of an item. -/
def State.results (s : State) (x : Item) : List (Option Err) :=
  (s.released.filter fun r => r.1 = x ∧ x.data.done).map Prod.snd

theorem State.count_pool (s : State) (x : Item) :
    s.pool.count x = if x.data.bufp then releases x s.released else 0 := by
  cases hb : x.data.bufp
  · exact count_eq_zero.2 (by simp [State.pool, hb])
  · simp [State.pool, releases, hb]

theorem State.length_results (s : State) (x : Item) :
    (s.results x).length = if x.data.done then releases x s.released else 0 := by
  have hcount : ∀ l : List (Item × Option Err),
      (l.filter fun r => r.1 = x).length = (l.map Prod.fst).count x := by
    intro l
    induction l with
    | nil => rfl
    | cons r l ih => by_cases hr : r.1 = x <;> simp [hr, ih]
  cases hd : x.data.done <;> simp [State.results, hd, releases, hcount]

/-- Where nothing can go on and the queue is closed, no caller and no loop has an item. -/
theorem State.Inv.settled {cfg : Config} {s : State} (h : s.Inv cfg) (hc : s.w.closed)
    (hq : Quiescent cfg s) (x : Item) : releases x s.released = (s.caller x).handed := by
  have hp := h.parked hc
  have hheld : (s.caller x).held = 0 := by
    have hno := hq.1 x {}
    unfold State.enqueue at hno
    cases hx : s.caller x with
    | calling =>
      simp only [hx] at hno
      split at hno <;> cases hno
    | waiting => simp [hx, hp] at hno
    | absent | returned _ => rfl
  have hfly : s.runner.flying x = 0 := by
    have hno := hq.2.1 (.sent none)
    unfold State.runNext at hno
    cases hr : s.runner <;> simp [hr, hp] at hno
    rfl
  have hnone : inQueue x s.w.queue = 0 := by simp [inQueue, load, h.sound.empty hc]
  have := h.places x
  omega

/-- In every state that any interleaving reaches: an item that was handed to `enqueue` has been
    released, with its buffer put back and its result sent, at most once, and not while it is
    queued or being written; exactly once, if the writer is closed and nothing can go on any
    more; and what a caller is told without an error, of an item with data, was written by the
    transport without one. -/
theorem items_settled_once (cfg : Config) (s : State) (h : Reachable cfg s) (x : Item) :
    (releases x s.released ≤ 1 ∧ s.pool.count x ≤ 1 ∧ (s.results x).length ≤ 1) ∧
    (0 < releases x s.released →
      (∀ p, x ∉ s.w.queue p) ∧ s.runner ≠ .writing x ∧ (s.caller x).held = 0) ∧
    (s.w.closed → Quiescent cfg s → (s.caller x).handed = 1 →
      releases x s.released = 1 ∧
      s.pool.count x = (if x.data.bufp then 1 else 0) ∧
      (s.results x).length = if x.data.done then 1 else 0) ∧
    (none ∈ s.results x → 0 < x.size → (x, none) ∈ s.wrote) := by
  have hinv := State.inv_reachable h
  have hplaces := hinv.places x
  have hle : (s.caller x).handed ≤ 1 := by cases s.caller x <;> simp [Caller.handed]
  refine ⟨?_, fun hpos => ⟨fun p hx => ?_, fun hr => ?_, ?_⟩, fun hc hq hx => ?_, fun hx => ?_⟩
  · rw [s.count_pool, s.length_results]
    split_ifs <;> omega
  · have := inQueue_pos hx
    omega
  · have : s.runner.flying x = 1 := by simp [hr, Runner.flying]
    omega
  · omega
  · have hone := hinv.settled hc hq x
    rw [s.count_pool, s.length_results, hone, hx]
    exact ⟨rfl, rfl, rfl⟩
  · refine hinv.results x ?_
    simp only [State.results, mem_map, mem_filter, decide_eq_true_eq] at hx
    obtain ⟨⟨y, r⟩, ⟨hmem, rfl, -⟩, rfl⟩ := hx
    exact hmem

/-- A frame is written and its caller told so; then the writer closes, and nothing can go on. -/
theorem items_settled_once_written : ∃ (x : Item) (s : State),
    play {} {} [.call x, .enqueue x {}, .run (.sent none), .run (.sent none), .run (.sent none),
      .run (.sent none), .close, .run (.sent none)] = some s ∧
    s.w.closed ∧ Quiescent {} s ∧ releases x s.released = 1 ∧ (x, none) ∈ s.wrote := by
  have hplay : ∃ (x : Item) (s : State),
      play {} {} [.call x, .enqueue x {}, .run (.sent none), .run (.sent none), .run (.sent none),
        .run (.sent none), .close, .run (.sent none)] = some s ∧
      s.caller = update (update (fun _ => .absent) x .calling) x
        (.returned none) ∧ s.runner = .finished ∧ s.flusher = (fun _ => .absent) ∧
      s.w.closed = true ∧ s.released = [(x, none)] ∧ 0 < x.size ∧ x.data.done = true :=
    ⟨⟨.critical, .control, ⟨0, true, true⟩, 48⟩, _, rfl, rfl, rfl, rfl, rfl, rfl, by decide, rfl⟩
  obtain ⟨x, s, hs, hcaller, hrunner, hflusher, hclosed, hresult, hsize, hdone⟩ := hplay
  have hquiet : Quiescent {} s := by
    refine ⟨fun z env => ?_, fun o => by rw [State.runNext, hrunner], fun j ctx => ?_⟩
    · have : s.caller z = if z = x then .returned none else .absent := by
        simp only [hcaller, update_apply]
        split_ifs <;> rfl
      rw [State.enqueue, this]
      split_ifs <;> rfl
    · rw [State.flush, hflusher]
  have hsettled := items_settled_once {} s (reachable_play _ hs) x
  refine ⟨x, s, hs, hclosed, hquiet, (hsettled.2.2.1 hclosed hquiet ?_).1,
    hsettled.2.2.2 ?_ hsize⟩
  · simp [hcaller, Caller.handed]
  · simp [State.results, hresult, hdone]

end Etp.Writer
