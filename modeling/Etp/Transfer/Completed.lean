import Etp.Lib.Recent
import Etp.Transfer.Incoming

/-!
# The states of transfers that have ended

A receiver remembers how a transfer has ended, for as long as `CompletedTransferTTL` and for
at most `MaxCompletedTransfers` of them, to answer a peer that has missed the answer. The
states are in the map `completed`, and `completedIDs` has its keys in the order in which
they were inserted (`Recent.Cache`).

* `completed_exact`: over any calls at nondecreasing times, the map and the order agree; a
  state is found as long as it has not expired and not enough others were inserted since, and
  what is found was remembered last and has not expired.
-/

namespace Etp.Completed

open Recent Transfer List

/-- The part of the configuration that is about states. -/
structure Config where
  maxCompletedTransfers : ℕ := 1024
  completedTransferTTL : ℕ := 60000000000

/-- The maps `completed` and `completedIDs`: a state with the time at which it expires. -/
abbrev States := Cache ℕ (TransferState × ℕ)

/-- `rememberTransferState`. -/
def rememberTransferState (cfg : Config) (c : States) (now id : ℕ) (s : TransferState) : States :=
  c.put cfg.maxCompletedTransfers id (s, now + cfg.completedTransferTTL)

/-- `completedTransfer`: the state if there is one, and the maps without it if it has expired. -/
def completedTransfer (c : States) (now id : ℕ) : Option TransferState × States :=
  match c.entries id with
  | some (s, expiresAt) => if expiresAt < now then (none, c.remove id) else (some s, c)
  | none => (none, c)

/-! ## Calls -/

/-- A call of one of the two. -/
inductive Call
  | remember (now id : ℕ) (s : TransferState)
  | lookup (now id : ℕ)
  deriving DecidableEq, Repr

def Call.time : Call → ℕ
  | .remember now _ _ => now
  | .lookup now _ => now

/-- Calls, the last one first, at nondecreasing times. -/
def Chronological (calls : List Call) : Prop := calls.Pairwise fun c past => past.time ≤ c.time

instance (calls : List Call) : Decidable (Chronological calls) :=
  inferInstanceAs (Decidable (List.Pairwise _ _))

variable (cfg : Config)

/-- The maps after the calls, the last one first. -/
def states : List Call → States
  | [] => {}
  | .remember now id s :: past => rememberTransferState cfg (states past) now id s
  | .lookup now id :: past => (completedTransfer (states past) now id).2

/-- The state of `x` that was remembered last, and when. -/
def lastState : List Call → ℕ → Option (TransferState × ℕ)
  | [], _ => none
  | .remember now id s :: past, x => if x = id then some (s, now) else lastState past x
  | .lookup _ _ :: past, x => lastState past x

/-- The other transfers that were newly inserted since `x` was. -/
def insertedSince : List Call → ℕ → Finset ℕ
  | [], _ => ∅
  | .remember _ id _ :: past, x => (states cfg past).since (insertedSince past) id x
  | .lookup _ _ :: past, x => insertedSince past x

/-! ## The invariant -/

/-- A lookup leaves all but its own transfer alone. -/
theorem completedTransfer_cases (c : States) (now id : ℕ) :
    (∃ s e, c.entries id = some (s, e) ∧ e < now ∧
      completedTransfer c now id = (none, c.remove id)) ∨
    (completedTransfer c now id).2 = c := by
  rw [completedTransfer]
  split
  · rename_i s e heq
    split
    · exact .inl ⟨s, e, heq, ‹_›, rfl⟩
    · exact .inr rfl
  · exact .inr rfl

/-- What the maps have to do with the calls: a state that is there is the last one, and one
    that is not was forgotten for others, or had expired at some call. -/
structure Inv (calls : List Call) : Prop where
  sound : (states cfg calls).Sound cfg.maxCompletedTransfers
  aged : (states cfg calls).Aged (insertedSince cfg calls)
  held : ∀ x s e, (states cfg calls).entries x = some (s, e) →
    ∃ t, lastState calls x = some (s, t) ∧ e = t + cfg.completedTransferTTL
  lost : ∀ x s t, lastState calls x = some (s, t) → (states cfg calls).entries x = none →
    cfg.maxCompletedTransfers ≤ (insertedSince cfg calls x).card ∨
      ∃ call ∈ calls, t + cfg.completedTransferTTL < call.time

variable {cfg} {calls : List Call}

theorem Inv.remember (h : Inv cfg calls) (now id : ℕ) (s : TransferState) :
    Inv cfg (.remember now id s :: calls) where
  sound := h.sound.put id _
  aged := h.aged.put h.sound id _
  held x s' e hx := by
    simp only [states, rememberTransferState, lastState] at hx ⊢
    rcases Cache.put_entries (states cfg calls) id (s, now + cfg.completedTransferTTL) x with
      hput | hput
    · exact absurd (hput.symm.trans hx) (by simp)
    · rw [hput] at hx
      by_cases hid : x = id
      · rw [if_pos hid] at hx ⊢
        cases hx
        exact ⟨now, rfl, rfl⟩
      · rw [if_neg hid] at hx ⊢
        exact h.held x s' e hx
  lost x s' t hlast hnone := by
    by_cases hthere : x = id ∨ (states cfg calls).entries x ≠ none
    · exact .inl (Cache.forgotten_of_put h.sound h.aged hthere hnone)
    · -- it was lost before, and what was inserted since has not become less
      push Not at hthere
      rw [lastState, if_neg hthere.1] at hlast
      rcases h.lost x s' t hlast hthere.2 with hcard | ⟨call, hcall, hlt⟩
      · refine .inl (hcard.trans (Finset.card_le_card fun y hy => ?_))
        rw [insertedSince, Cache.since]
        split
        · exact hy
        · rw [if_neg hthere.1]
          exact Finset.mem_insert_of_mem hy
      · exact .inr ⟨call, mem_cons_of_mem _ hcall, hlt⟩

theorem Inv.lookup (h : Inv cfg calls) (now id : ℕ) : Inv cfg (.lookup now id :: calls) := by
  have later {P : Call → Prop} (hl : ∃ call ∈ calls, P call) :
      ∃ call ∈ .lookup now id :: calls, P call :=
    hl.imp fun _ => And.imp_left (mem_cons_of_mem _)
  rcases completedTransfer_cases (states cfg calls) now id with ⟨s, e, hentry, hlt, heq⟩ | heq
  · have hstates : states cfg (.lookup now id :: calls) = (states cfg calls).remove id :=
      congrArg Prod.snd heq
    refine ⟨hstates ▸ h.sound.remove id, ?_, fun x s' e' hx => ?_, fun x s' t hlast hnone => ?_⟩
    · rw [hstates]
      exact h.aged.remove id
    · rw [hstates] at hx
      by_cases hid : x = id
      · simp [Cache.remove, hid] at hx
      · rw [Cache.remove_entries_of_ne hid] at hx
        exact h.held x s' e' hx
    · rw [hstates] at hnone
      by_cases hid : x = id
      · -- it has just expired
        obtain ⟨t', hlast', rfl⟩ := h.held id s e hentry
        rw [lastState, hid, hlast'] at hlast
        cases hlast
        exact .inr ⟨_, mem_cons_self, hlt⟩
      · rw [Cache.remove_entries_of_ne hid] at hnone
        exact (h.lost x s' t hlast hnone).imp_right later
  · have hstates : states cfg (.lookup now id :: calls) = states cfg calls := heq
    refine ⟨hstates ▸ h.sound, ?_, ?_, fun x s t hlast hnone => ?_⟩
    · rw [hstates]
      exact h.aged
    · rw [hstates]
      exact h.held
    · rw [hstates] at hnone
      exact (h.lost x s t hlast hnone).imp_right later

theorem inv_calls (cfg : Config) (calls : List Call) : Inv cfg calls := by
  induction calls with
  | nil => exact ⟨Cache.sound_empty _, .nil, nofun, nofun⟩
  | cons call calls ih =>
    cases call with
    | remember now id s => exact ih.remember now id s
    | lookup now id => exact ih.lookup now id

/-! ## What is found -/

variable {s : TransferState}

theorem completedTransfer_some {c : States} {now x : ℕ} :
    (completedTransfer c now x).1 = some s ↔ ∃ e, c.entries x = some (s, e) ∧ now ≤ e := by
  rw [completedTransfer]
  split
  · rename_i s' e heq
    by_cases hlt : e < now
    · simp [hlt, heq]
    · simp [hlt, heq, not_lt.mp hlt]
  · rename_i heq
    simp [heq]

/-- What is found was remembered last, and has not expired. -/
theorem found_last {now x : ℕ} (h : (completedTransfer (states cfg calls) now x).1 = some s) :
    ∃ t, lastState calls x = some (s, t) ∧ now ≤ t + cfg.completedTransferTTL := by
  obtain ⟨e, hentry, hle⟩ := completedTransfer_some.mp h
  obtain ⟨t, hlast, rfl⟩ := (inv_calls cfg calls).held x s e hentry
  exact ⟨t, hlast, hle⟩

/-- A state that has not expired is found, unless too many others were inserted since. -/
theorem found_of_last {now x t : ℕ} (hchron : Chronological (.lookup now x :: calls))
    (hlast : lastState calls x = some (s, t)) (hnow : now ≤ t + cfg.completedTransferTTL)
    (hcard : (insertedSince cfg calls x).card < cfg.maxCompletedTransfers) :
    (completedTransfer (states cfg calls) now x).1 = some s := by
  have hinv := inv_calls cfg calls
  cases hentry : (states cfg calls).entries x with
  | some entry =>
    obtain ⟨s', e⟩ := entry
    obtain ⟨t', hlast', rfl⟩ := hinv.held x s' e hentry
    rw [hlast] at hlast'
    cases hlast'
    exact completedTransfer_some.mpr ⟨_, hentry, hnow⟩
  | none =>
    rcases hinv.lost x s t hlast hentry with hmax | ⟨call, hcall, hlt⟩
    · exact absurd hmax (not_le.mpr hcard)
    · have hle : call.time ≤ now := rel_of_pairwise_cons hchron hcall
      omega

/-- The maps after any calls at nondecreasing times: they have the same transfers, each once
    and not too many of them; what is found is what it has to be; and a lookup removes no
    other transfer than its own. -/
theorem completed_exact (cfg : Config) (calls : List Call) (hchron : Chronological calls) :
    (states cfg calls).ids.Nodup ∧
    (∀ x, x ∈ (states cfg calls).ids ↔ ((states cfg calls).entries x).isSome) ∧
    (states cfg calls).ids.length ≤ cfg.maxCompletedTransfers ∧
    (∀ now x s t, (∀ call ∈ calls.head?, call.time ≤ now) → lastState calls x = some (s, t) →
      now ≤ t + cfg.completedTransferTTL →
      (insertedSince cfg calls x).card < cfg.maxCompletedTransfers →
      (completedTransfer (states cfg calls) now x).1 = some s) ∧
    (∀ now x s, (completedTransfer (states cfg calls) now x).1 = some s →
      ∃ t, lastState calls x = some (s, t) ∧ now ≤ t + cfg.completedTransferTTL) ∧
    ∀ now x y, y ≠ x →
      (completedTransfer (states cfg calls) now x).2.entries y = (states cfg calls).entries y ∧
      (y ∈ (completedTransfer (states cfg calls) now x).2.ids ↔ y ∈ (states cfg calls).ids) := by
  have hsound := (inv_calls cfg calls).sound
  refine ⟨hsound.nodup, hsound.mem, hsound.length, fun now x s t hnow hlast hle hcard => ?_,
    fun now x s => found_last, fun now x y hne => ?_⟩
  · refine found_of_last (pairwise_cons.mpr ⟨fun call hcall => ?_, hchron⟩) hlast hle hcard
    -- the last call is not later than the lookup, and no other is later than it
    cases calls with
    | nil => cases hcall
    | cons first past =>
      have hfirst : first.time ≤ now := hnow first rfl
      rcases mem_cons.mp hcall with rfl | hcall
      · exact hfirst
      · exact (rel_of_pairwise_cons hchron hcall).trans hfirst
  · rcases completedTransfer_cases (states cfg calls) now x with ⟨s, e, -, -, heq⟩ | heq
    · rw [heq]
      exact ⟨Cache.remove_entries_of_ne hne, by simp [Cache.remove, hne]⟩
    · rw [heq]
      exact ⟨rfl, Iff.rfl⟩

/-- A state that expires, and is remembered again after another one. -/
theorem completed_exact_again :
    (completedTransfer (states ⟨2, 10⟩ [.remember 22 1 ⟨6, 2, none⟩, .remember 21 2 ⟨5, 1, none⟩,
      .lookup 20 1, .remember 5 1 ⟨4, 1, none⟩]) 23 2).1 = some ⟨5, 1, none⟩ :=
  (completed_exact ⟨2, 10⟩ _ (by decide)).2.2.2.1 23 2 _ 21 (by decide) rfl (by decide) (by decide)

end Etp.Completed
