import Etp.Writer.Items
import Mathlib.Data.Finset.Card

/-!
# Who is woken around the send queue

Three kinds of goroutines wait for the one condition variable of the writer. `enqueue` wakes
one of them, whichever; the run loop wakes those who wait for room when it has taken an item,
and those who flush when it has written one, in each case only if a counter says that there
are any.

* `State.Flushed`: who flushes waits for something. It holds as long as no call of `flush`
  comes in while another one counts itself out (`Apart`), which happens outside of the lock
  (`flush_stranded`);
* `State.Awake`: while the run loop waits nobody else does, if every item fits into the queue
  (`Fits`); one that does not waits next to the run loop, and is woken in its place
  (`run_stranded`).
-/

namespace Etp.Writer

open SessionWriter Function

/-- The call of `flush` has counted itself in, and not yet out. -/
def Flusher.counted : Flusher → Bool
  | .waiting | .leaving _ | .decrementing _ _ => true
  | .absent | .calling | .returned _ => false

/-- The counter has all the calls of `flush`, also after it is written by one that has read it. -/
def Counted (flusher : ℕ → Flusher) (waiters : ℤ) : Prop :=
  ∃ A : Finset ℕ, (∀ j, (flusher j).counted = true → j ∈ A) ∧ A.card ≤ waiters ∧
    ∀ j n r, flusher j = .decrementing n r → A.card ≤ n

/-- No call of `flush` comes in while another one has read the counter and not yet written it. -/
def Apart (s t : State) : Prop :=
  ∀ j, s.flusher j = .calling → t.flusher j ≠ .calling → ∀ k n r, s.flusher k ≠ .decrementing n r

/-- The items that are being enqueued fit into an empty queue. -/
def Fits (cfg : Config) (s : State) : Prop :=
  ∀ x, (s.caller x).held = 1 → cfg.maxBytes = 0 ∨ x.size ≤ cfg.maxBytes

namespace Counted

variable {flusher : ℕ → Flusher} {waiters : ℤ} {j : ℕ} {f : Flusher}

theorem update_cases (flusher : ℕ → Flusher) (j : ℕ) (f : Flusher) (i : ℕ) :
    i = j ∧ update flusher j f i = f ∨
      i ≠ j ∧ update flusher j f i = flusher i := by
  by_cases hij : i = j
  · exact .inl ⟨hij, hij ▸ update_self ..⟩
  · exact .inr ⟨hij, update_of_ne hij ..⟩

/-- A call that is counted goes on, or one that is not stays so. -/
theorem replace (h : Counted flusher waiters)
    (hf : f.counted = true → (flusher j).counted = true)
    (hdec : ∀ n r, f = .decrementing n r → waiters ≤ n) :
    Counted (update flusher j f) waiters := by
  obtain ⟨A, hA, hcard, hle⟩ := h
  refine ⟨A, fun i hi => ?_, hcard, fun i n r hi => ?_⟩
  · rcases update_cases flusher j f i with ⟨rfl, heq⟩ | ⟨-, heq⟩ <;> rw [heq] at hi
    · exact hA i (hf hi)
    · exact hA i hi
  · rcases update_cases flusher j f i with ⟨rfl, heq⟩ | ⟨-, heq⟩ <;> rw [heq] at hi
    · exact hcard.trans (hdec n r hi)
    · exact hle i n r hi

/-- A call comes in while no other one counts itself out. -/
theorem enter (h : Counted flusher waiters) (hf : ∀ n r, f ≠ .decrementing n r)
    (hapart : ∀ k n r, flusher k ≠ .decrementing n r) :
    Counted (update flusher j f) (waiters + 1) := by
  obtain ⟨A, hA, hcard, -⟩ := h
  refine ⟨insert j A, fun i hi => ?_, ?_, fun i n r hi => ?_⟩
  · rcases update_cases flusher j f i with ⟨rfl, -⟩ | ⟨-, heq⟩
    · exact Finset.mem_insert_self i A
    · exact Finset.mem_insert_of_mem (hA i (heq ▸ hi))
  · have := Finset.card_insert_le j A
    omega
  · rcases update_cases flusher j f i with ⟨rfl, heq⟩ | ⟨-, heq⟩ <;> rw [heq] at hi
    · exact absurd hi (hf n r)
    · exact absurd hi (hapart i n r)

/-- A call counts itself out. -/
theorem leave (h : Counted flusher waiters) {n : ℤ} {r : Option Err}
    (hj : flusher j = .decrementing n r) :
    Counted (update flusher j (.returned r)) (n - 1) := by
  obtain ⟨A, hA, hcard, hle⟩ := h
  have hmem : j ∈ A := hA j (by rw [hj]; rfl)
  have herase := Finset.card_erase_add_one hmem
  have hn := hle j n r hj
  refine ⟨A.erase j, fun i hi => ?_, by omega, fun i m r' hi => ?_⟩
  · rcases update_cases flusher j (.returned r) i with ⟨rfl, heq⟩ | ⟨hij, heq⟩ <;> rw [heq] at hi
    · cases hi
    · exact Finset.mem_erase.mpr ⟨hij, hA i hi⟩
  · rcases update_cases flusher j (.returned r) i with ⟨rfl, heq⟩ | ⟨hij, heq⟩ <;> rw [heq] at hi
    · cases hi
    · have := hle i m r' hi
      omega

end Counted

namespace State

variable {cfg : Config} {s t : State} {x : Item}

/-! ## Those who flush -/

/-- The counter has all calls of `flush`, and those that are parked wait for something. -/
structure Flushed (s : State) : Prop where
  counted : Counted s.flusher s.flushWaiters
  parked : ∀ j, .flush j ∈ s.parked → s.flusher j = .waiting
  waits : ∀ j, .flush j ∈ s.parked →
    (0 < s.w.queuedItems ∨ s.w.inFlight.isSome) ∧ s.w.err = none

/-- A section of somebody else. -/
theorem Flushed.keep (h : s.Flushed) (hflusher : t.flusher = s.flusher)
    (hwaiters : t.flushWaiters = s.flushWaiters)
    (hparked : ∀ j, .flush j ∈ t.parked → .flush j ∈ s.parked)
    (hw : ∀ j, .flush j ∈ t.parked → (0 < s.w.queuedItems ∨ s.w.inFlight.isSome) →
      (0 < t.w.queuedItems ∨ t.w.inFlight.isSome) ∧ t.w.err = s.w.err) : t.Flushed where
  counted := by
    rw [hflusher, hwaiters]
    exact h.counted
  parked j hj := by
    rw [hflusher]
    exact h.parked j (hparked j hj)
  waits j hj := by
    obtain ⟨hsome, herr⟩ := h.waits j (hparked j hj)
    obtain ⟨hsome', herr'⟩ := hw j hj hsome
    exact ⟨hsome', herr'.trans herr⟩

/-- A section of somebody else, after which nobody is parked. -/
theorem Flushed.woken (h : s.Flushed) (hflusher : t.flusher = s.flusher)
    (hwaiters : t.flushWaiters = s.flushWaiters) (hparked : t.parked = []) : t.Flushed :=
  h.keep hflusher hwaiters (by simp [hparked]) (by simp [hparked])

/-- While a call is parked, the run loop knows that there is one. -/
theorem Flushed.waiters_pos (h : s.Flushed) {j : ℕ} (hj : .flush j ∈ s.parked) :
    0 < s.flushWaiters := by
  obtain ⟨A, hA, hcard, -⟩ := h.counted
  have hmem : j ∈ A := hA j (by rw [h.parked j hj]; rfl)
  have := Finset.card_pos.mpr ⟨j, hmem⟩
  omega

theorem mem_signal {k : ℕ} {y : Waiter} (h : y ∈ (s.signal k).parked) : y ∈ s.parked :=
  List.mem_of_mem_eraseIdx h

/-- Another place for a call that is not parked. -/
theorem Flushed.place (h : s.Flushed) {j : ℕ} {f : Flusher} {n : ℤ} (hj : .flush j ∉ s.parked)
    (hcounted : Counted (update s.flusher j f) n) :
    ({ s with flushWaiters := n, flusher := update s.flusher j f } : State).Flushed where
  counted := hcounted
  parked i hi := by
    have hij : i ≠ j := by
      rintro rfl
      exact hj hi
    simpa only [update_of_ne hij] using h.parked i hi
  waits := h.waits

/-- A call that is about to look at the queue is counted when it has. -/
theorem Flushed.enter (h : s.Flushed) {j : ℕ} {n : ℤ} {f : Flusher} (hj : s.Flushing j n)
    (hf : f = .waiting ∨ ∃ r, f = .leaving r)
    (hapart : s.flusher j = .calling → ∀ k n r, s.flusher k ≠ .decrementing n r) :
    .flush j ∉ s.parked ∧ Counted (update s.flusher j f) n := by
  have hdec : ∀ n r, f ≠ .decrementing n r := by
    rcases hf with rfl | ⟨r, rfl⟩ <;> nofun
  rcases hj with ⟨hj, rfl⟩ | ⟨hj, hwoken, rfl⟩
  · refine ⟨fun hparked => ?_, h.counted.enter hdec (hapart hj)⟩
    cases hj.symm.trans (h.parked j hparked)
  · exact ⟨hwoken, h.counted.replace (fun _ => by rw [hj]; rfl) fun n r hn => absurd hn (hdec n r)⟩

theorem Flushed.effect (h : s.Flushed) (ht : Effect cfg s t) (hapart : Apart s t) : t.Flushed := by
  -- The counter and the calls stay, and if one is parked then it waits for something.
  have hparked {j : ℕ} {f : Flusher} (hj : s.flusher j = f) (hf : f ≠ .waiting) :
      .flush j ∉ s.parked := fun hp => hf (hj.symm.trans (h.parked j hp))
  have hwoken {n : ℕ} {l : List Waiter} {j : ℕ} (hj : .flush j ∈ if 0 < n then [] else l) :
      .flush j ∈ l := by
    split at hj
    · cases hj
    · exact hj
  cases ht with
  | accept x n k =>
    exact h.keep rfl rfl (fun _ hj => mem_signal hj) fun _ _ _ => ⟨.inl (Nat.succ_pos _), rfl⟩
  | wait x n =>
    exact h.keep rfl rfl (fun j hj => by simpa [park] using hj) fun _ _ hsome => ⟨hsome, rfl⟩
  | sleep =>
    exact h.keep rfl rfl (fun j hj => by simpa [park] using hj) fun _ _ hsome => ⟨hsome, rfl⟩
  | pop x w _ hpop =>
    exact h.keep rfl rfl (fun _ hj => hwoken hj) fun _ _ _ =>
      ⟨.inr rfl, (popLoop_status hpop).2.2⟩
  | fail x e => exact h.woken rfl rfl rfl
  | settle x =>
    refine h.keep rfl rfl (fun j hj => ?_) fun j hj => ?_
    all_goals
      dsimp only at hj
      split at hj
    · cases hj
    · exact hj
    · cases hj
    · exact absurd (h.waiters_pos hj) ‹_›
  | callFlush j hj =>
    exact h.place (hparked hj (by simp))
      (h.counted.replace (by simp [Flusher.counted]) (by simp))
  | leave j n r hj =>
    obtain ⟨hnot, hcounted⟩ := h.enter hj (.inr ⟨r, rfl⟩) fun hc => hapart j hc (by simp)
    exact h.place hnot hcounted
  | waitFlush j n hj hsome herr =>
    obtain ⟨hnot, hcounted⟩ := h.enter hj (.inl rfl) fun hc => hapart j hc (by simp [park])
    have hplace := h.place hnot hcounted
    -- it is parked, and waits for what it has found
    refine ⟨hplace.counted, fun i hi => ?_, fun i _ => ⟨hsome, herr⟩⟩
    rcases List.mem_append.mp hi with hi | hi
    · exact hplace.parked i hi
    · obtain rfl : i = j := by simpa using hi
      exact update_self ..
  | read j r hj =>
    refine h.place (hparked hj (by simp))
      (h.counted.replace (fun _ => by rw [hj]; rfl) fun n r hn => ?_)
    cases hn
    exact le_refl _
  | decrement j n r hj => exact h.place (hparked hj (by simp)) (h.counted.leave hj)
  | beginClosing => exact h.woken rfl rfl rfl
  | close => exact h.woken rfl rfl rfl
  | broadcast => exact h.woken rfl rfl rfl
  | _ => exact h.keep rfl rfl (fun _ => id) fun _ _ hsome => ⟨hsome, rfl⟩

theorem flushed_init : ({} : State).Flushed :=
  ⟨⟨∅, nofun, le_refl _, nofun⟩, fun _ hj => absurd hj List.not_mem_nil,
    fun _ hj => absurd hj List.not_mem_nil⟩

end State

namespace State

variable {cfg : Config} {s t : State} {x : Item}

/-! ## The run loop -/

/-- The counter has all who wait for room, among those that `P` says. -/
def Enqueuing (s : State) (P : Item → Prop) : Prop :=
  ∃ B : Finset Item, (∀ x, P x → s.caller x = .waiting → x ∈ B) ∧ B.card ≤ s.queueWaiters

/-- Who waits for room waits for an item to be written, and while the run loop waits nobody
    else does. -/
structure Awake (s : State) : Prop where
  idle : s.runner = .top ∨ s.runner = .waiting → s.w.inFlight = none
  run : .run ∈ s.parked → s.w.queuedItems = 0 ∧ s.runner = .waiting ∧ s.parked = [.run]
  callers : ∀ x, .enqueue x ∈ s.parked → s.caller x = .waiting
  room : ∀ x, .enqueue x ∈ s.parked → 0 < s.w.queuedItems

/-- Nobody is parked. -/
theorem Awake.woken (hidle : s.runner = .top ∨ s.runner = .waiting → s.w.inFlight = none)
    (hparked : s.parked = []) : s.Awake :=
  ⟨hidle, by simp [hparked], by simp [hparked], by simp [hparked]⟩

/-- The run loop is not parked while it looks at the queue. -/
theorem Awake.run_not_parked (h : s.Awake) (hr : s.Looking) : .run ∉ s.parked := by
  rcases hr with hr | ⟨-, hwoken⟩
  · intro hp
    cases hr.symm.trans (h.run hp).2.1
  · exact hwoken

/-- An item that fits has room in an empty queue. -/
theorem queued_of_full (hinv : s.Inv cfg) (hfits : cfg.maxBytes = 0 ∨ x.size ≤ cfg.maxBytes)
    (hfull : ¬canEnqueue cfg.toSendQueueConfig s.w x.size = true) : 0 < s.w.queuedItems := by
  by_contra hnone
  have hitems : load (fun _ => 1) s.w.queue = 0 := by
    have := hinv.sound.consistent.items
    omega
  have hempty : ∀ p, s.w.queue p = [] := fun p => by
    cases p <;> simp [load] at hitems <;> simp [hitems]
  have hbytes : s.w.queuedBytes = 0 := by simp [hinv.sound.consistent.bytes, load, hempty]
  refine hfull ?_
  simp only [canEnqueue, hbytes, Bool.and_eq_true, Bool.not_eq_true', decide_eq_false_iff_not,
    Bool.and_eq_false_iff]
  omega

theorem Awake.refuse (h : s.Awake) (hx : .enqueue x ∉ s.parked) (e : Err) :
    (s.refuse x e).Awake := by
  refine { h with callers := fun y hy => ?_ }
  have hne : y ≠ x := by
    rintro rfl
    exact hx hy
  exact (update_of_ne hne ..).trans (h.callers y hy)

theorem Awake.accept (h : s.Awake) (hx : .enqueue x ∉ s.parked) (k : ℕ) :
    (s.accept x k).Awake := by
  refine ⟨h.idle, fun hrun => ?_, fun y hy => ?_, fun _ _ => Nat.succ_pos _⟩
  · -- the run loop was alone, so that it is woken
    have halone := (h.run (mem_signal hrun)).2.2
    simp [State.accept, signal, halone, Nat.mod_one] at hrun
  · have hne : y ≠ x := by
      rintro rfl
      exact hx (mem_signal hy)
    exact (update_of_ne hne ..).trans (h.callers y (mem_signal hy))

/-- `enqueue` waits for room, of which there is none while something is queued. -/
theorem Awake.wait (h : s.Awake) (hpos : 0 < s.w.queuedItems) (n : ℕ) :
    ({ s with queueWaiters := n, caller := update s.caller x .waiting }.park
      (.enqueue x)).Awake := by
  refine ⟨h.idle, fun hrun => ?_, fun y hy => ?_, fun _ _ => hpos⟩
  · have := (h.run (by simpa [park] using hrun)).1
    omega
  · by_cases hyx : y = x
    · exact hyx ▸ update_self ..
    · refine (update_of_ne hyx ..).trans (h.callers y ?_)
      simpa [park, hyx] using hy

theorem Awake.trying (h : s.Awake) {n : ℕ} (hx : s.Trying x n) : .enqueue x ∉ s.parked := by
  rcases hx with ⟨hx, -⟩ | ⟨-, hwoken, -⟩
  · intro hp
    cases hx.symm.trans (h.callers x hp)
  · exact hwoken

/-- The run loop is about to wait: nobody else is parked. -/
theorem Awake.nobody (h : s.Awake) (hflushed : s.Flushed) (hr : s.Looking)
    (hempty : s.w.queuedItems = 0) : s.parked = [] := by
  refine List.eq_nil_iff_forall_not_mem.mpr fun y hy => ?_
  cases y with
  | run => exact h.run_not_parked hr hy
  | enqueue x =>
    have := h.room x hy
    omega
  | flush j =>
    have := (hflushed.waits j hy).1
    simp [hempty, h.idle (hr.imp_right And.left)] at this

/-- The counter without a call that is about to try. -/
theorem Enqueuing.trying (h : s.Enqueuing fun _ => True) {n : ℕ} (hx : s.Trying x n) :
    ({ s with queueWaiters := n } : State).Enqueuing (· ≠ x) := by
  obtain ⟨B, hB, hcard⟩ := h
  rcases hx with ⟨-, rfl⟩ | ⟨hx, -, rfl⟩
  · exact ⟨B, fun y _ => hB y trivial, hcard⟩
  · have herase := Finset.card_erase_add_one (hB x trivial hx)
    refine ⟨B.erase x, fun y hy hw => Finset.mem_erase.mpr ⟨hy, hB y trivial hw⟩, ?_⟩
    show _ ≤ s.queueWaiters - 1
    omega

/-- A call that is not counted has returned. -/
theorem Enqueuing.returned (h : s.Enqueuing (· ≠ x)) {r : Option Err}
    (hcaller : t.caller = update s.caller x (.returned r))
    (hwaiters : t.queueWaiters = s.queueWaiters) : t.Enqueuing fun _ => True := by
  obtain ⟨B, hB, hcard⟩ := h
  refine ⟨B, fun y _ hy => ?_, hwaiters ▸ hcard⟩
  rw [hcaller] at hy
  by_cases hyx : y = x
  · subst hyx
    simp at hy
  · exact hB y hyx (by rwa [update_of_ne hyx] at hy)

/-- A call that is not counted waits. -/
theorem Enqueuing.wait (h : s.Enqueuing (· ≠ x)) :
    ({ s with
      queueWaiters := s.queueWaiters + 1
      caller := update s.caller x .waiting }.park (.enqueue x)).Enqueuing
        fun _ => True := by
  obtain ⟨B, hB, hcard⟩ := h
  refine ⟨insert x B, fun y _ hy => ?_, (Finset.card_insert_le x B).trans (by simpa [park])⟩
  by_cases hyx : y = x
  · exact hyx ▸ Finset.mem_insert_self x B
  · refine Finset.mem_insert_of_mem (hB y hyx ?_)
    simpa [park, update_of_ne hyx] using hy

/-- If nobody is counted, nobody who waits for room is parked. -/
theorem Enqueuing.none_parked (h : s.Enqueuing fun _ => True) (hs : s.Awake)
    (hnone : ¬0 < s.queueWaiters) (x : Item) : .enqueue x ∉ s.parked := by
  intro hx
  obtain ⟨B, hB, hcard⟩ := h
  have := Finset.card_pos.mpr ⟨x, hB x trivial (hs.callers x hx)⟩
  omega

/-- What the run loop relies on, as long as all items fit. -/
structure Alert (cfg : Config) (s : State) : Prop where
  inv : s.Inv cfg
  flushed : s.Flushed
  awake : s.Awake
  enqueuing : s.Enqueuing fun _ => True
  fits : Fits cfg s

theorem Alert.awake_effect (h : s.Alert cfg) (ht : Effect cfg s t) : t.Awake := by
  have hawake := h.awake
  have hcounter {n : ℕ} : ({ s with queueWaiters := n } : State).Awake := { hawake with }
  have hrun (hw : s.runner ≠ .waiting) : .run ∉ s.parked := fun hr => hw (hawake.run hr).2.1
  cases ht with
  | call x hx =>
    refine { hawake with callers := fun y hy => ?_ }
    have hyx : y ≠ x := by
      rintro rfl
      cases hx.symm.trans (hawake.callers y hy)
    exact (update_of_ne hyx ..).trans (hawake.callers y hy)
  | refuse x n e hx => exact (hcounter (n := n)).refuse (hawake.trying hx) e
  | accept x n k hx => exact (hcounter (n := n)).accept (hawake.trying hx) k
  | wait x n hx hfull => exact hawake.wait (queued_of_full h.inv (h.fits x hx.held) hfull) _
  | sleep hr hempty =>
    have hnobody := hawake.nobody h.flushed hr hempty
    have hflight := hawake.idle (hr.imp_right And.left)
    refine ⟨fun _ => hflight, fun _ => ⟨hempty, rfl, ?_⟩, fun x hx => ?_, fun x hx => ?_⟩
    all_goals simp_all [park]
  | finish hr =>
    exact ⟨by simp, fun hp => absurd hp (hawake.run_not_parked hr), hawake.callers, hawake.room⟩
  | pop x w hr hpop =>
    split
    · exact .woken (by simp) rfl
    · rename_i hnone
      have hnobody := h.enqueuing.none_parked hawake hnone
      exact ⟨by simp, fun hp => absurd hp (hawake.run_not_parked hr), hawake.callers,
        fun y hy => absurd hy (hnobody y)⟩
  | write x r l hr | release x r hr =>
    exact ⟨by simp, fun hp => absurd hp (hrun (by simp [hr])), hawake.callers, hawake.room⟩
  | fail x e hr => exact .woken (fun _ => rfl) rfl
  | settle x hr =>
    split
    · exact .woken (fun _ => rfl) rfl
    · exact ⟨fun _ => rfl, fun hp => absurd hp (hrun (by simp [hr])), hawake.callers,
        hawake.room⟩
  | waitFlush j n hj hsome =>
    refine ⟨hawake.idle, fun hr => ?_, fun x hx => ?_, fun x hx => ?_⟩
    · obtain ⟨hitems, hwaiting, -⟩ := hawake.run (by simpa [park] using hr)
      simp [hitems, hawake.idle (.inr hwaiting)] at hsome
    · exact hawake.callers x (by simpa [park] using hx)
    · exact hawake.room x (by simpa [park] using hx)
  | beginClosing => exact .woken hawake.idle rfl
  | close hopen =>
    refine .woken (fun hr => ?_) rfl
    simpa [broadcast, releaseQueued, SessionWriter.close, hopen, releaseQueuedLocked] using
      hawake.idle hr
  | broadcast => exact .woken hawake.idle rfl
  | _ => exact { hawake with }

theorem Enqueuing.effect (h : s.Enqueuing fun _ => True) (ht : Effect cfg s t) :
    t.Enqueuing fun _ => True := by
  cases ht with
  | call x =>
    obtain ⟨B, hB, hcard⟩ := h
    refine ⟨B, fun y _ hy => hB y trivial ?_, hcard⟩
    by_cases hyx : y = x
    · subst hyx
      simp at hy
    · simpa [update_of_ne hyx] using hy
  | refuse x n e hx => exact (h.trying hx).returned rfl rfl
  | accept x n k hx => exact (h.trying hx).returned rfl rfl
  | wait x n hx => exact (h.trying hx).wait
  | _ => exact h

theorem Alert.exec (h : s.Alert cfg) {ev : Event} (hs : exec cfg s ev = some t)
    (hapart : Apart s t) (hfits : Fits cfg t) : t.Alert cfg := by
  have ht := effect_exec h.inv.sound hs
  exact ⟨h.inv.effect ht, h.flushed.effect ht hapart, h.awake_effect ht, h.enqueuing.effect ht,
    hfits⟩

end State

/-! ## No lost wake-up -/

/-- If no call of `flush` comes in while another one counts itself out, then no call is parked
    while the queue is empty and nothing is being written, or while the writer has an error. -/
theorem flush_woken (cfg : Config) (s : State)
    (h : Relation.ReflTransGen (Run.Guarded (Step cfg) Apart) {} s) (j : ℕ)
    (hj : .flush j ∈ s.parked) :
    ¬(s.w.queuedItems = 0 ∧ s.w.inFlight = none) ∧ s.w.err = none := by
  have hinv : s.Inv cfg ∧ s.Flushed :=
    Run.invariant (fun s => s.Inv cfg ∧ s.Flushed) ⟨State.inv_init, State.flushed_init⟩
      (fun _ _ hi ⟨⟨_, hs⟩, hapart⟩ =>
        ⟨hi.1.exec hs, hi.2.effect (State.effect_exec hi.1.sound hs) hapart⟩) h
  obtain ⟨hsome, herr⟩ := hinv.2.waits j hj
  refine ⟨fun ⟨hitems, hnone⟩ => ?_, herr⟩
  rw [hitems, hnone] at hsome
  rcases hsome with hsome | hsome <;> cases hsome

/-- If moreover the items that are enqueued fit into the queue, then the run loop is not parked
    while an item is queued. -/
theorem run_woken (cfg : Config) (s : State)
    (h : Relation.ReflTransGen (Run.Guarded (Step cfg) fun s t => Apart s t ∧ Fits cfg t) {} s) :
    ¬(0 < s.w.queuedItems ∧ .run ∈ s.parked) := by
  have hinit : ({} : State).Alert cfg :=
    ⟨State.inv_init, State.flushed_init, .woken (fun _ => rfl) rfl, ⟨∅, nofun, le_refl _⟩,
      fun _ hx => by cases hx⟩
  have halert : s.Alert cfg := Run.invariant (State.Alert cfg) hinit
    (fun _ _ hi ⟨⟨_, hs⟩, hapart, hfits⟩ => hi.exec hs hapart hfits) h
  rintro ⟨hpos, hrun⟩
  have := (halert.awake.run hrun).1
  omega

/-! ### Frames of 48 and of 65 bytes -/

def small : Item := ⟨.critical, .control, ⟨0, true, false⟩, 48⟩

def large : Item := ⟨.low, .bulk, ⟨1, true, false⟩, 65⟩

theorem apart_of_eq {s t : State} (h : t.flusher = s.flusher) : Apart s t :=
  fun j hj hne => absurd ((congrFun h j).trans hj) hne

/-- A call waits for a frame that is queued. -/
theorem flush_woken_queued :
    ∃ s, Relation.ReflTransGen (Run.Guarded (Step {}) Apart) {} s ∧ .flush 0 ∈ s.parked ∧
      ¬(s.w.queuedItems = 0 ∧ s.w.inFlight = none) := by
  obtain ⟨s, hrun, hparked⟩ : ∃ s, Relation.ReflTransGen (Run.Guarded (Step {}) Apart) {} s ∧
      .flush 0 ∈ s.parked :=
    ⟨_,
      .head ⟨⟨.call small, rfl⟩, apart_of_eq rfl⟩ <|
      .head ⟨⟨.enqueue small {}, rfl⟩, apart_of_eq rfl⟩ <|
      .head ⟨⟨.callFlush 0, rfl⟩, fun j hj => by cases hj⟩ <|
      .single ⟨⟨.flush 0 none, rfl⟩, fun j hj hne k n r hk => by cases k <;> cases hk⟩, by decide⟩
  exact ⟨s, hrun, hparked, (flush_woken {} s hrun 0 hparked).1⟩

theorem fits_small {s : State} (h : ∀ x ≠ small, s.caller x = .absent) :
    Fits { maxBytes := 64 } s := by
  intro x hx
  by_cases hne : x = small
  · subst hne
    exact .inr (by decide)
  · rw [h x hne] at hx
    cases hx

/-- The run loop is woken by a frame that fits into the queue. -/
theorem run_woken_small :
    let cfg : Config := { maxBytes := 64 }
    ∃ s, Relation.ReflTransGen (Run.Guarded (Step cfg) fun s t => Apart s t ∧ Fits cfg t) {} s ∧
      s.w.queuedItems = 1 ∧ s.runner = .waiting ∧ ¬(0 < s.w.queuedItems ∧ .run ∈ s.parked) := by
  intro cfg
  obtain ⟨s, hrun, hitems, hrunner⟩ : ∃ s, Relation.ReflTransGen
      (Run.Guarded (Step cfg) fun s t => Apart s t ∧ Fits cfg t) {} s ∧ s.w.queuedItems = 1 ∧
      s.runner = .waiting :=
    ⟨_,
      .head ⟨⟨.run (.sent none), rfl⟩, apart_of_eq rfl, fits_small fun _ _ => rfl⟩ <|
      .head ⟨⟨.call small, rfl⟩, apart_of_eq rfl, fits_small fun _ h => dif_neg h⟩ <|
      .single ⟨⟨.enqueue small {}, rfl⟩, apart_of_eq rfl,
        fits_small fun _ h => (dif_neg h).trans (dif_neg h)⟩, rfl, rfl⟩
  exact ⟨s, hrun, hitems, hrunner, run_woken cfg s hrun⟩

/-- A call of `flush` finds the queue empty and reads the counter, a frame is queued and taken
    by the run loop, another call counts itself in and is parked, and the first one counts both
    out. When the frame is written, nobody is woken. -/
theorem flush_stranded :
    ∃ s, Reachable {} s ∧ .flush 1 ∈ s.parked ∧ s.w.queuedItems = 0 ∧ s.w.inFlight = none :=
  ⟨_, reachable_play [.callFlush 0, .flush 0 none, .flush 0 none, .call small, .enqueue small {},
      .run (.sent none), .callFlush 1, .flush 1 none, .flush 0 none, .run (.sent none),
      .run (.sent none), .run (.sent none)] rfl,
    by decide, by decide, by decide⟩

/-- A frame that is larger than the whole queue waits for room, and so does the run loop for a
    frame. When a small one is queued, the large one is woken in place of the run loop; its
    context is done, so that it returns and wakes nobody. -/
theorem run_stranded :
    ∃ s, Reachable { maxBytes := 64, enqueueTimeout := 1 } s ∧ 0 < s.w.queuedItems ∧
      s.parked = [.run] ∧ s.queueWaiters = 0 :=
  ⟨_, reachable_play [.call large, .enqueue large {}, .run (.sent none), .call small,
      .enqueue small {}, .enqueue large { ctx := some "context canceled" }] rfl,
    by decide, by decide, by decide⟩

end Etp.Writer
