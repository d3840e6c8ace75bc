import Mathlib.Order.WellFounded

/-!
# Runs of transition systems

A transition system is a relation `Step` on states: `Step s s'` when some
thread of the system can take the state `s` to `s'` in one indivisible step.
An interleaving is a run, a chain of steps (`Relation.ReflTransGen Step`).

* `Run.invariant`: what holds initially and is kept by every step holds in
  every state a run reaches;
* `Guarded`: the steps meeting a condition on the state they are taken in, for
  what only holds along the runs whose steps all meet it;
* `Converges`: there is no infinite run, and every run that cannot go on has ended well. A measure
  dropping at every step gives the first half (`converges_of_measure`).
-/

namespace Run

open Relation

variable {S : Type*} {Step : S → S → Prop} {s₀ s t : S}

/-- An invariant: it holds initially, and every step keeps it. -/
theorem invariant (Inv : S → Prop) (hinit : Inv s₀)
    (hstep : ∀ s s', Inv s → Step s s' → Inv s') (h : ReflTransGen Step s₀ s) : Inv s := by
  induction h with
  | refl => exact hinit
  | tail _ hst ih => exact hstep _ _ ih hst

/-- The steps of a system that meet the condition `C`. -/
def Guarded (Step C : S → S → Prop) (s s' : S) : Prop := Step s s' ∧ C s s'

/-- A run of steps meeting a condition is a run. -/
theorem of_guarded {C : S → S → Prop} (h : ReflTransGen (Guarded Step C) s t) :
    ReflTransGen Step s t :=
  h.lift id fun _ _ hst => hst.1

/-- No step is possible from `s`. -/
def Stuck (Step : S → S → Prop) (s : S) : Prop := ∀ s', ¬Step s s'

/-- Every run of steps `Taken` from `s` ends, and ends well: there is no infinite one, and a state
    it reaches from which no `Step` whatever is possible is `Final`. -/
structure Converges (Taken Step : S → S → Prop) (Final : S → Prop) (s : S) : Prop where
  terminates : Acc (fun b a => Taken a b) s
  ends : ∀ t, ReflTransGen Taken s t → Stuck Step t → Final t

/-- A system whose measure drops at every step, and which only gets stuck in
    final states where an invariant holds, converges. -/
theorem converges_of_measure {Taken : S → S → Prop} {Inv Final : S → Prop} (μ : S → ℕ)
    (hμ : ∀ s s', Taken s s' → μ s' < μ s) (hinit : Inv s)
    (hstep : ∀ s s', Inv s → Taken s s' → Inv s')
    (hend : ∀ s, Inv s → Stuck Step s → Final s) : Converges Taken Step Final s where
  terminates := Subrelation.accessible (fun h => hμ _ _ h) ((measure μ).wf.apply s)
  ends _ ht := hend _ (invariant Inv hinit hstep ht)

/-- A rank that drops at every step, of states that have one, ends all runs. -/
theorem acc_of_rank (Ranked : ℕ → S → Prop)
    (h : ∀ n s s', Ranked n s → Step s s' → ∃ n' < n, Ranked n' s') {n : ℕ} (hs : Ranked n s) :
    Acc (fun b a => Step a b) s := by
  induction n using Nat.strong_induction_on generalizing s with
  | _ n ih =>
    refine ⟨_, fun s' hst => ?_⟩
    obtain ⟨n', hlt, hs'⟩ := h n s s' hs hst
    exact ih n' hlt hs'

/-- Where there is no infinite run, some run ends. -/
theorem exists_stuck (h : Acc (fun b a => Step a b) s) :
    ∃ t, ReflTransGen Step s t ∧ Stuck Step t := by
  induction h with
  | intro s _ ih =>
    by_cases hs : Stuck Step s
    · exact ⟨s, .refl, hs⟩
    · obtain ⟨s', hst⟩ : ∃ s', Step s s' := by simpa [Stuck] using hs
      obtain ⟨t, hrun, ht⟩ := ih s' hst
      exact ⟨t, .head hst hrun, ht⟩

end Run
