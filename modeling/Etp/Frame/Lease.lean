import Etp.Lib.Run
import Mathlib.Algebra.GroupWithZero.Nat
import Mathlib.Algebra.Ring.Int.Defs
import Mathlib.Data.List.Basic

/-!
# Leases of frames

A `FrameLease` counts the references to the buffer of a frame; who gives up the last one gives
the buffer back. The lease itself can be part of what is given back: the adapters keep it in
their pools, and initialise it again for another frame while the call of `Release` that has
given it back has not returned.

* `State.next`: one step of a goroutine in `Retain`, `Release` or `InitFrameLease`, each of
  which is one access to the lease;
* `Step`: the steps of all goroutines. Who calls `Release` has a reference, which may have been
  handed over, and who initialises the lease has got it from the release action;
* `State.Phase`: the four things that a lease can be in the course of a life;
* `lease_released_once`: the release actions are those of the lives that are over, one for
  each, with its data.
-/

namespace Etp.Lease

open Relation List

/-- What a lease was made with: by `NewFrameLease`, which sets `release`, by `InitFrameLease`,
    which sets `releaser`, or for a buffer of the pool. -/
structure Life (δ : Type) where
  data : δ
  release : Option ℕ := none
  releaser : Option ℕ := none
  bufp : Option ℕ := none

/-- A release action. -/
inductive Call (δ : Type)
  | put (bufp : ℕ)
  | releaser (r : ℕ) (data : δ)
  | release (f : ℕ) (data : δ)

/-- The release action of a life, if it has one. -/
def Life.call {δ : Type} (l : Life δ) : Option (Call δ) :=
  match l.bufp, l.releaser, l.release with
  | some b, _, _ => some (.put b)
  | none, some r, _ => some (.releaser r l.data)
  | none, none, some f => some (.release f l.data)
  | none, none, none => none

/-- Where `Release` is when the count has reached zero, statement by statement. -/
inductive Ending (δ : Type)
  | checkBufp
  | putBuffer
  | checkReleaser
  | loadReleaser
  | loadData (r : ℕ)
  | clearData (r : ℕ) (data : δ)
  | clearReleaser (r : ℕ) (data : δ)
  | callReleaser (r : ℕ) (data : δ)
  | checkRelease
  | callRelease

/-- Where `InitFrameLease` is. -/
inductive Init
  | loadRefs
  | setData
  | setRelease
  | setReleaser
  | setBufp
  | storeRefs

/-- Where a goroutine is. In `Retain` and `Release` it has what it has loaded; `k` is the number
    of the life whose last reference it has given up. -/
inductive Pos (δ : Type)
  | idle
  | retaining (loaded : Option ℤ)
  | releasing (loaded : Option ℤ)
  | ending (k : ℕ) (e : Ending δ)
  | initialising (data : δ) (releaser : Option ℕ) (i : Init)
  | panicked

/-- A lease with the goroutines around it. There is one entry of `holders` for each reference;
    `lives` are the lives up to the current one, `calls` the release actions that have begun,
    and `ended` says that whoever gets the lease from the last one may initialise it. -/
structure State (τ δ : Type) where
  data : δ
  refs : ℤ
  release : Option ℕ
  releaser : Option ℕ
  bufp : Option ℕ
  pos : τ → Pos δ
  holders : List τ
  lives : List (Life δ)
  calls : List (ℕ × Call δ)
  ended : Bool

variable {τ δ : Type}

/-- A new lease, with the reference that its maker has. -/
def start (l : Life δ) (t : τ) : State τ δ where
  data := l.data
  refs := 1
  release := l.release
  releaser := l.releaser
  bufp := l.bufp
  pos := fun _ => .idle
  holders := [t]
  lives := [l]
  calls := []
  ended := false

/-- A number as an `int32`. -/
def int32 (n : ℤ) : ℤ := (n + 2 ^ 31) % 2 ^ 32 - 2 ^ 31

section Model

variable [DecidableEq τ] [Inhabited δ]

namespace State

def goto (s : State τ δ) (t : τ) (p : Pos δ) : State τ δ :=
  { s with pos := Function.update s.pos t p }

/-- The release action begins. As `Release` has nothing to do after it, the goroutine is free
    to do anything in it. -/
def act (s : State τ δ) (t : τ) (k : ℕ) (c : Option (Call δ)) : State τ δ :=
  { s.goto t .idle with calls := s.calls ++ (c.map (k, ·)).toList, ended := true }

/-- `Release` after its loop. -/
def finish (s : State τ δ) (t : τ) (k : ℕ) : Ending δ → State τ δ
  | .checkBufp => s.goto t (.ending k (if s.bufp.isSome then .putBuffer else .checkReleaser))
  | .putBuffer => s.act t k (s.bufp.map .put)
  | .checkReleaser =>
    s.goto t (.ending k (if s.releaser.isSome then .loadReleaser else .checkRelease))
  | .loadReleaser => s.goto t (.ending k (.loadData (s.releaser.getD 0)))
  | .loadData r => s.goto t (.ending k (.clearData r s.data))
  | .clearData r d => { s.goto t (.ending k (.clearReleaser r d)) with data := default }
  | .clearReleaser r d => { s.goto t (.ending k (.callReleaser r d)) with releaser := none }
  | .callReleaser r d => s.act t k (some (.releaser r d))
  | .checkRelease => if s.release.isSome then s.goto t (.ending k .callRelease) else s.act t k none
  | .callRelease => s.act t k (s.release.map (.release · s.data))

/-- `InitFrameLease`. -/
def initialise (s : State τ δ) (t : τ) (d : δ) (r : Option ℕ) : Init → State τ δ
  | .loadRefs => s.goto t (if s.refs = 0 then .initialising d r .setData else .panicked)
  | .setData => { s.goto t (.initialising d r .setRelease) with data := d }
  | .setRelease => { s.goto t (.initialising d r .setReleaser) with release := none }
  | .setReleaser => { s.goto t (.initialising d r .setBufp) with releaser := r }
  | .setBufp => { s.goto t (.initialising d r .storeRefs) with bufp := none }
  | .storeRefs => { s.goto t .idle with
      refs := 1, holders := t :: s.holders, lives := s.lives ++ [{ data := d, releaser := r }] }

/-- The next step of a goroutine that is in one of the calls. -/
def next (s : State τ δ) (t : τ) : Option (State τ δ) :=
  match s.pos t with
  | .idle | .panicked => none
  | .retaining none => some (s.goto t (.retaining (some s.refs)))
  | .retaining (some v) =>
    if v ≤ 0 then some (s.goto t .panicked)
    else if s.refs = v then
      some { s.goto t .idle with refs := int32 (v + 1), holders := t :: s.holders }
    else some (s.goto t (.retaining none))
  | .releasing none => some (s.goto t (.releasing (some s.refs)))
  | .releasing (some v) =>
    if v ≤ 0 then some (s.goto t .panicked)
    else if s.refs = v then
      some { s.goto t (if v = 1 then .ending (s.lives.length - 1) .checkBufp else .idle) with
        refs := v - 1, holders := s.holders.erase t }
    else some (s.goto t (.releasing none))
  | .ending k e => some (s.finish t k e)
  | .initialising d r i => some (s.initialise t d r i)

end State

/-- A goroutine goes on, or begins something. -/
inductive Step (s : State τ δ) : State τ δ → Prop
  | next (t : τ) (s' : State τ δ) : s.next t = some s' → Step s s'
  | retain (t : τ) : s.pos t = .idle → Step s (s.goto t (.retaining none))
  | release (t : τ) : s.pos t = .idle → t ∈ s.holders → Step s (s.goto t (.releasing none))
  | handOver (t t' : τ) : s.pos t = .idle → t ∈ s.holders →
      Step s { s with holders := t' :: s.holders.erase t }
  | initialise (t : τ) (d : δ) (r : Option ℕ) : s.pos t = .idle → s.ended = true →
      Step s { s.goto t (.initialising d r .loadRefs) with ended := false }

end Model

/-! ## The phases of a life -/

/-- The release actions of lives. -/
def expected (l : List (Life δ)) : List (ℕ × Call δ) :=
  l.zipIdx.filterMap fun p => p.1.call.map (p.2, ·)

theorem expected_concat (past : List (Life δ)) (l : Life δ) :
    expected (past ++ [l]) = expected past ++ (l.call.map (past.length, ·)).toList := by
  simp only [expected, zipIdx_append, filterMap_append]
  cases h : l.call <;> simp [h]

/-- The goroutine changes the fields of the lease. -/
def Pos.works : Pos δ → Bool
  | .ending _ _ | .initialising _ _ _ => true
  | .idle | .retaining _ | .releasing _ | .panicked => false

/-- How many steps `Release` has still to take. -/
def Ending.rank : Ending δ → ℕ
  | .checkBufp => 8
  | .putBuffer | .callReleaser _ _ | .callRelease => 1
  | .checkReleaser => 7
  | .loadReleaser => 6
  | .loadData _ => 5
  | .clearData _ _ => 4
  | .clearReleaser _ _ => 3
  | .checkRelease => 2

/-- What `Release` has found and has still to find. -/
def Ending.Fits (l : Life δ) (s : State τ δ) : Ending δ → Prop
  | .checkBufp => s.data = l.data ∧ s.releaser = l.releaser ∧ s.bufp = l.bufp
  | .putBuffer => s.bufp = l.bufp ∧ l.bufp.isSome
  | .checkReleaser => s.data = l.data ∧ s.releaser = l.releaser ∧ l.bufp = none
  | .loadReleaser =>
    s.data = l.data ∧ s.releaser = l.releaser ∧ l.bufp = none ∧ l.releaser.isSome
  | .loadData r => s.data = l.data ∧ l.bufp = none ∧ l.releaser = some r
  | .clearData r d | .clearReleaser r d | .callReleaser r d =>
    l.bufp = none ∧ l.releaser = some r ∧ d = l.data
  | .checkRelease => s.data = l.data ∧ l.bufp = none ∧ l.releaser = none
  | .callRelease => s.data = l.data ∧ l.bufp = none ∧ l.releaser = none ∧ l.release.isSome

/-- What `InitFrameLease` has set. -/
def Init.Fits (d : δ) (r : Option ℕ) (s : State τ δ) : Init → Prop
  | .loadRefs | .setData => True
  | .setRelease => s.data = d
  | .setReleaser => s.data = d ∧ s.release = none
  | .setBufp => s.data = d ∧ s.release = none ∧ s.releaser = r
  | .storeRefs => s.data = d ∧ s.release = none ∧ s.releaser = r ∧ s.bufp = none

/-- There are references. An `int32` that has overflowed is negative, and stays so. -/
structure State.Live (past : List (Life δ)) (l : Life δ) (s : State τ δ) : Prop where
  ended : s.ended = false
  works : ∀ t, (s.pos t).works = false
  calls : s.calls = expected past
  data : s.data = l.data
  release : s.release = l.release
  releaser : s.releaser = l.releaser
  bufp : s.bufp = l.bufp
  held : s.holders ≠ []
  refs : s.refs = s.holders.length ∧ s.refs < 2 ^ 31 ∨
    s.refs = -2 ^ 31 ∧ s.holders.length = 2 ^ 31

/-- `t` has given up the last reference, and its release action has not begun. -/
structure State.Dying (past : List (Life δ)) (l : Life δ) (s : State τ δ) (t : τ)
    (e : Ending δ) : Prop where
  ended : s.ended = false
  pos : s.pos t = .ending past.length e
  works : ∀ t' ≠ t, (s.pos t').works = false
  calls : s.calls = expected past
  fits : e.Fits l s
  release : s.release = l.release
  held : s.holders = []
  refs : s.refs = 0

/-- The release action has begun. -/
structure State.Ended (past : List (Life δ)) (l : Life δ) (s : State τ δ) : Prop where
  ended : s.ended = true
  works : ∀ t, (s.pos t).works = false
  calls : s.calls = expected (past ++ [l])
  held : s.holders = []
  refs : s.refs = 0

/-- `t` initialises the lease for another frame. -/
structure State.Fresh (past : List (Life δ)) (l : Life δ) (s : State τ δ) (t : τ) (d : δ)
    (r : Option ℕ) (i : Init) : Prop where
  ended : s.ended = false
  pos : s.pos t = .initialising d r i
  works : ∀ t' ≠ t, (s.pos t').works = false
  calls : s.calls = expected (past ++ [l])
  fits : i.Fits d r s
  held : s.holders = []
  refs : s.refs = 0

/-- Where the lease is in the life `l`. -/
inductive State.Phase (past : List (Life δ)) (l : Life δ) (s : State τ δ) : Prop
  | live : s.Live past l → Phase past l s
  | dying (t : τ) (e : Ending δ) : s.Dying past l t e → Phase past l s
  | ended : s.Ended past l → Phase past l s
  | fresh (t : τ) (d : δ) (r : Option ℕ) (i : Init) : s.Fresh past l t d r i → Phase past l s

/-- What holds in every state of a run. -/
structure State.Inv (s : State τ δ) : Prop where
  phase : ∃ past l, s.lives = past ++ [l] ∧ s.Phase past l
  holds : ∀ t v, s.pos t = .releasing v → t ∈ s.holders

namespace State

variable {past : List (Life δ)} {l : Life δ} {s : State τ δ} {t : τ}

theorem inv_start (l : Life δ) (t : τ) : (start l t).Inv where
  phase := ⟨[], l, rfl, .live ⟨rfl, fun _ => rfl, rfl, rfl, rfl, rfl, rfl, by simp [start],
    .inl (by simp [start])⟩⟩
  holds := by simp [start]

/-- There are references and the count is not zero, or there are none and it is. -/
theorem Phase.zero_or_live (h : s.Phase past l) : s.Live past l ∧ s.refs ≠ 0 ∨
    s.holders = [] ∧ s.refs = 0 ∧
      ((∃ t e, s.Dying past l t e) ∨ s.calls = expected (past ++ [l])) := by
  cases h with
  | live h =>
    have := length_pos_of_ne_nil h.held
    have := h.refs
    exact .inl ⟨h, by omega⟩
  | dying t e h => exact .inr ⟨h.held, h.refs, .inl ⟨t, e, h⟩⟩
  | ended h => exact .inr ⟨h.held, h.refs, .inr h.calls⟩
  | fresh t d r i h => exact .inr ⟨h.held, h.refs, .inr h.calls⟩

/-- With a positive count there are as many references as it says. -/
theorem Phase.of_pos (h : s.Phase past l) (hr : 0 < s.refs) :
    s.Live past l ∧ s.refs = s.holders.length ∧ s.refs < 2 ^ 31 := by
  rcases h.zero_or_live with ⟨h, -⟩ | ⟨-, hzero, -⟩
  · refine ⟨h, h.refs.resolve_right ?_⟩
    rintro ⟨h', -⟩
    omega
  · omega

/-- Who works on the lease is the one that the phase names. -/
theorem Phase.worker (h : s.Phase past l) (ht : (s.pos t).works = true) :
    (∃ e, s.Dying past l t e) ∨ ∃ d r i, s.Fresh past l t d r i := by
  have hself {u : τ} (hu : ∀ t' ≠ u, (s.pos t').works = false) : u = t := by
    by_contra hne
    simp [hu t (Ne.symm hne)] at ht
  cases h with
  | live h => simp [h.works t] at ht
  | dying u e h =>
    obtain rfl := hself h.works
    exact .inl ⟨e, h⟩
  | ended h => simp [h.works t] at ht
  | fresh u d r i h =>
    obtain rfl := hself h.works
    exact .inr ⟨d, r, i, h⟩

variable [DecidableEq τ] {p : Pos δ}

theorem works_goto (h : ∀ t', (s.pos t').works = false) (hp : p.works = false) (t' : τ) :
    ((s.goto t p).pos t').works = false := by
  rw [goto]
  rcases eq_or_ne t' t with rfl | hne
  · simpa using hp
  · simpa [hne] using h t'

theorem works_goto_ne {u : τ} (h : ∀ t' ≠ u, (s.pos t').works = false)
    (hp : t ≠ u → p.works = false) (t' : τ) (ht' : t' ≠ u) :
    ((s.goto t p).pos t').works = false := by
  rw [goto]
  rcases eq_or_ne t' t with rfl | hne
  · simpa using hp ht'
  · simpa [hne] using h t' ht'

/-- A goroutine that only looks at the lease goes on. -/
theorem Phase.goto (h : s.Phase past l) (ht : (s.pos t).works = false) (hp : p.works = false) :
    (s.goto t p).Phase past l := by
  have hne {u : τ} (hu : (s.pos u).works = true) : u ≠ t := by
    rintro rfl
    simp [ht] at hu
  cases h with
  | live h => exact .live { h with works := works_goto h.works hp }
  | dying u e h =>
    have hu : u ≠ t := hne (by rw [h.pos]; rfl)
    exact .dying u e { h with
      pos := by rw [State.goto]; simpa [hu] using h.pos
      works := works_goto_ne h.works fun _ => hp
      fits := by have := h.fits; cases e <;> exact this }
  | ended h => exact .ended { h with works := works_goto h.works hp }
  | fresh u d r i h =>
    have hu : u ≠ t := hne (by rw [h.pos]; rfl)
    exact .fresh u d r i { h with
      pos := by rw [State.goto]; simpa [hu] using h.pos
      works := works_goto_ne h.works fun _ => hp
      fits := by have := h.fits; cases i <;> exact this }

/-- Who is in `Release` has a reference, also after a step of another goroutine. -/
theorem holds_goto {holders : List τ} (h : ∀ t v, s.pos t = .releasing v → t ∈ s.holders)
    (hp : ∀ v, p = .releasing v → t ∈ holders) (hsub : ∀ t' ≠ t, t' ∈ s.holders → t' ∈ holders)
    (t' : τ) (v : Option ℤ) (ht' : (s.goto t p).pos t' = .releasing v) : t' ∈ holders := by
  rw [goto] at ht'
  rcases eq_or_ne t' t with rfl | hne
  · exact hp v (by simpa using ht')
  · exact hsub t' hne (h t' v (by simpa [hne] using ht'))

/-! ## Retain and Release -/

theorem Phase.retain (h : s.Phase past l) (hr : 0 < s.refs) :
    Phase past l { s.goto t .idle with refs := int32 (s.refs + 1), holders := t :: s.holders } := by
  obtain ⟨hl, he, hlt⟩ := h.of_pos hr
  refine .live { hl with works := works_goto hl.works rfl, held := by simp, refs := ?_ }
  simp only [int32, length_cons]
  omega

theorem Phase.release (h : s.Phase past l) (hlives : s.lives = past ++ [l]) (hr : 0 < s.refs)
    (ht : t ∈ s.holders) :
    Phase past l
      { s.goto t (if s.refs = 1 then .ending (s.lives.length - 1) .checkBufp else .idle) with
        refs := s.refs - 1, holders := s.holders.erase t } := by
  obtain ⟨hl, he, hlt⟩ := h.of_pos hr
  have hlen := length_erase_of_mem ht
  split
  case isTrue h1 =>
    refine .dying t .checkBufp ⟨hl.ended, ?_, ?_, hl.calls, ⟨hl.data, hl.releaser, hl.bufp⟩,
      hl.release, ?_, ?_⟩
    · simp [State.goto, hlives]
    · exact works_goto_ne (fun t' _ => hl.works t') fun h => absurd rfl h
    · exact eq_nil_of_length_eq_zero (by dsimp only; omega)
    · exact Int.sub_eq_zero.2 h1
  case isFalse h1 =>
    refine .live { hl with works := works_goto hl.works rfl, held := ?_, refs := .inl ?_ }
    · exact ne_nil_of_length_pos (by dsimp only; omega)
    · dsimp only
      omega

/-! ## InitFrameLease -/

/-- One step of `InitFrameLease`: the last one begins another life. -/
theorem Fresh.initialise {d : δ} {r : Option ℕ} {i : Init} (h : s.Fresh past l t d r i)
    (hlives : s.lives = past ++ [l]) : ∃ past' l',
      (s.initialise t d r i).lives = past' ++ [l'] ∧ (s.initialise t d r i).Phase past' l' := by
  have goto {i' : Init} {d' : δ} {f r' b : Option ℕ}
      (hfits : i'.Fits d r { s with data := d', release := f, releaser := r', bufp := b }) :
      Phase past l { s.goto t (.initialising d r i') with
        data := d', release := f, releaser := r', bufp := b } :=
    .fresh t d r i' { h with
      pos := by simp [State.goto]
      works := works_goto_ne h.works fun hne => absurd rfl hne
      fits := by cases i' <;> exact hfits }
  have hfits := h.fits
  cases i with
  | loadRefs =>
    rw [State.initialise, if_pos h.refs]
    exact ⟨past, l, hlives, goto trivial⟩
  | setData => exact ⟨past, l, hlives, goto rfl⟩
  | setRelease => exact ⟨past, l, hlives, goto ⟨hfits, rfl⟩⟩
  | setReleaser => exact ⟨past, l, hlives, goto ⟨hfits.1, hfits.2, rfl⟩⟩
  | setBufp => exact ⟨past, l, hlives, goto ⟨hfits.1, hfits.2.1, hfits.2.2, rfl⟩⟩
  | storeRefs =>
    obtain ⟨hd, hf, hr, hb⟩ := hfits
    refine ⟨past ++ [l], { data := d, releaser := r }, by simp [State.initialise, hlives], .live ?_⟩
    refine ⟨h.ended, fun t' => ?_, h.calls, hd, hf, hr, hb, by simp [State.initialise], .inl ?_⟩
    · rcases eq_or_ne t' t with rfl | hne
      · simp [State.initialise, State.goto, Pos.works]
      · exact works_goto_ne h.works (fun hne => absurd rfl hne) t' hne
    · simp [State.initialise, h.held]

theorem initialise_frame (s : State τ δ) (t : τ) (d : δ) (r : Option ℕ) (i : Init) :
    (∃ p, (∀ v, p ≠ .releasing v) ∧ (s.initialise t d r i).pos = (s.goto t p).pos) ∧
      ∀ t' ∈ s.holders, t' ∈ (s.initialise t d r i).holders := by
  cases i with
  | loadRefs =>
    refine ⟨⟨_, fun v => ?_, rfl⟩, fun _ => id⟩
    split <;> simp
  | storeRefs => exact ⟨⟨_, by simp, rfl⟩, fun _ => mem_cons_of_mem _⟩
  | _ => exact ⟨⟨_, by simp, rfl⟩, fun _ => id⟩

/-! ## The release action -/

/-- `Release` goes on after its loop. It may clear the data and the releaser. -/
theorem Dying.goto {e e' : Ending δ} {d : δ} {r : Option ℕ} (h : s.Dying past l t e)
    (hfits : e'.Fits l { s with data := d, releaser := r }) :
    Dying past l { s.goto t (.ending past.length e') with data := d, releaser := r } t e' where
  ended := h.ended
  pos := by simp [State.goto]
  works := works_goto_ne h.works fun hne => absurd rfl hne
  calls := h.calls
  fits := by cases e' <;> exact hfits
  release := h.release
  held := h.held
  refs := h.refs

variable {e : Ending δ}

/-- The release action of the life begins. -/
theorem Dying.act {c : Option (Call δ)} (h : s.Dying past l t e) (hc : c = l.call) :
    (s.act t past.length c).Ended past l where
  ended := rfl
  works t' := by
    rcases eq_or_ne t' t with rfl | hne
    · simp [State.act, State.goto, Pos.works]
    · exact works_goto_ne h.works (fun hne => absurd rfl hne) t' hne
  calls := by
    rw [expected_concat, ← h.calls, ← hc]
    rfl
  held := h.held
  refs := h.refs

variable [Inhabited δ]

/-- What `Release` does after its loop: it goes on with what was put into the lease for this
    life, and ends with its release action. -/
theorem Dying.finish (h : s.Dying past l t e) :
    (∃ e' : Ending δ, e'.rank < e.rank ∧ (s.finish t past.length e).Dying past l t e') ∨
      (s.finish t past.length e).Ended past l := by
  have hfits := h.fits
  cases e with
  | checkBufp =>
    obtain ⟨hd, hr, hb⟩ := hfits
    rw [State.finish, hb]
    cases hl : l.bufp with
    | none => exact .inl ⟨.checkReleaser, by simp [Ending.rank], h.goto ⟨hd, hr, hl⟩⟩
    | some b => exact .inl ⟨.putBuffer, by simp [Ending.rank], h.goto ⟨hb, by simp [hl]⟩⟩
  | putBuffer =>
    obtain ⟨hb, hs⟩ := hfits
    obtain ⟨b, hl⟩ := Option.isSome_iff_exists.1 hs
    exact .inr (h.act (by simp [hb, hl, Life.call]))
  | checkReleaser =>
    obtain ⟨hd, hr, hb⟩ := hfits
    rw [State.finish, hr]
    cases hl : l.releaser with
    | none => exact .inl ⟨.checkRelease, by simp [Ending.rank], h.goto ⟨hd, hb, hl⟩⟩
    | some r =>
      exact .inl ⟨.loadReleaser, by simp [Ending.rank], h.goto ⟨hd, hr, hb, by simp [hl]⟩⟩
  | loadReleaser =>
    obtain ⟨hd, hr, hb, hs⟩ := hfits
    obtain ⟨r, hl⟩ := Option.isSome_iff_exists.1 hs
    rw [State.finish, hr, hl]
    exact .inl ⟨.loadData r, by simp [Ending.rank], h.goto ⟨hd, hb, hl⟩⟩
  | loadData r =>
    obtain ⟨hd, hb, hl⟩ := hfits
    exact .inl ⟨.clearData r s.data, by simp [Ending.rank], h.goto ⟨hb, hl, hd⟩⟩
  | clearData r d => exact .inl ⟨.clearReleaser r d, by simp [Ending.rank], h.goto hfits⟩
  | clearReleaser r d => exact .inl ⟨.callReleaser r d, by simp [Ending.rank], h.goto hfits⟩
  | callReleaser r d =>
    obtain ⟨hb, hl, rfl⟩ := hfits
    exact .inr (h.act (by simp [hb, hl, Life.call]))
  | checkRelease =>
    obtain ⟨hd, hb, hl⟩ := hfits
    rw [State.finish, h.release]
    cases hf : l.release with
    | none => exact .inr (h.act (by simp [hb, hl, hf, Life.call]))
    | some f =>
      exact .inl ⟨.callRelease, by simp [Ending.rank], h.goto ⟨hd, hb, hl, by simp [hf]⟩⟩
  | callRelease =>
    obtain ⟨hd, hb, hl, hs⟩ := hfits
    obtain ⟨f, hf⟩ := Option.isSome_iff_exists.1 hs
    exact .inr (h.act (by simp [h.release, hd, hb, hl, hf, Life.call]))

/-- What `Release` changes after its loop. -/
theorem finish_frame (s : State τ δ) (t : τ) (k : ℕ) (e : Ending δ) :
    (∃ p, (∀ v, p ≠ .releasing v) ∧ (s.finish t k e).pos = (s.goto t p).pos) ∧
      (s.finish t k e).holders = s.holders ∧ (s.finish t k e).lives = s.lives := by
  cases e with
  | checkRelease =>
    rw [finish]
    split <;> exact ⟨⟨_, by simp, rfl⟩, rfl, rfl⟩
  | _ => exact ⟨⟨_, by simp, rfl⟩, rfl, rfl⟩

/-- The goroutine that has given up the last reference gets to the release action by itself. -/
theorem Dying.acts (h : s.Dying past l t e) :
    ∃ s', ReflTransGen (fun a b => a.next t = some b) s s' ∧ s'.Ended past l ∧
      s'.lives = s.lives := by
  -- By induction on the steps that are left.
  induction hn : e.rank using Nat.strong_induction_on generalizing s e with
  | _ n ih =>
    have hstep : s.next t = some (s.finish t past.length e) := by rw [next, h.pos]
    have hlives := (s.finish_frame t past.length e).2.2
    rcases h.finish with ⟨e', hlt, h'⟩ | h'
    · obtain ⟨s', hrun, hended, hl⟩ := ih e'.rank (hn ▸ hlt) h' rfl
      exact ⟨s', .head hstep hrun, hended, hl.trans hlives⟩
    · exact ⟨_, .single hstep, h', hlives⟩

/-! ## All runs -/

/-- A goroutine in one of the calls goes on. -/
theorem Inv.next {s' : State τ δ} (h : s.Inv) (hn : s.next t = some s') : s'.Inv := by
  obtain ⟨⟨past, l, hlives, hphase⟩, hholds⟩ := h
  -- A goroutine that only looks keeps the phase, and its reference.
  have look {p : Pos δ} (ht : (s.pos t).works = false) (hp : p.works = false)
      (hr : ∀ v, p = .releasing v → t ∈ s.holders) : (s.goto t p).Inv :=
    ⟨⟨past, l, hlives, hphase.goto ht hp⟩, holds_goto hholds hr fun _ _ => id⟩
  rw [State.next] at hn
  split at hn
  case h_1 | h_2 => cases hn
  case h_3 ht =>
    cases hn
    exact look (by rw [ht]; rfl) rfl (by simp)
  case h_4 v ht =>
    have hw : (s.pos t).works = false := by rw [ht]; rfl
    split_ifs at hn with hv hcas <;> cases hn
    · exact look hw rfl (by simp)
    · subst hcas
      exact ⟨⟨past, l, hlives, hphase.retain (not_le.1 hv)⟩,
        holds_goto hholds (by simp) fun _ _ => mem_cons_of_mem _⟩
    · exact look hw rfl (by simp)
  case h_5 ht =>
    cases hn
    exact look (by rw [ht]; rfl) rfl fun _ _ => hholds t _ ht
  case h_6 v ht =>
    have hw : (s.pos t).works = false := by rw [ht]; rfl
    have hmem := hholds t _ ht
    by_cases hv : v ≤ 0
    · rw [if_pos hv] at hn
      cases hn
      exact look hw rfl (by simp)
    rw [if_neg hv] at hn
    by_cases hcas : s.refs = v
    · rw [if_pos hcas] at hn
      cases hn
      subst hcas
      refine ⟨⟨past, l, hlives, hphase.release hlives (not_le.1 hv) hmem⟩,
        holds_goto hholds (fun v hp => ?_) fun t' hne => (mem_erase_of_ne hne).2⟩
      split at hp <;> cases hp
    · rw [if_neg hcas] at hn
      cases hn
      exact look hw rfl fun _ _ => hmem
  case h_7 k e ht =>
    cases hn
    obtain ⟨⟨p, hp, hpos⟩, hh, hl⟩ := s.finish_frame t k e
    refine ⟨⟨past, l, hl.trans hlives, ?_⟩, fun t' v ht' => ?_⟩
    · rcases hphase.worker (t := t) (by rw [ht]; rfl) with ⟨e', h⟩ | ⟨d, r, i, h⟩
      · obtain ⟨rfl, rfl⟩ := Pos.ending.inj (ht.symm.trans h.pos)
        exact h.finish.elim (fun ⟨e', _, h'⟩ => .dying t e' h') .ended
      · cases ht.symm.trans h.pos
    · rw [hh]
      exact holds_goto hholds (fun v hv => absurd hv (hp v)) (fun _ _ => id) t' v (hpos ▸ ht')
  case h_8 d r i ht =>
    cases hn
    obtain ⟨⟨p, hp, hpos⟩, hh⟩ := s.initialise_frame t d r i
    refine ⟨?_, fun t' v ht' => ?_⟩
    · rcases hphase.worker (t := t) (by rw [ht]; rfl) with ⟨e', h⟩ | ⟨d', r', i', h⟩
      · cases ht.symm.trans h.pos
      · obtain ⟨rfl, rfl, rfl⟩ := Pos.initialising.inj (ht.symm.trans h.pos)
        exact h.initialise hlives
    · exact holds_goto hholds (fun v hv => absurd hv (hp v)) (fun t' _ => hh t') t' v (hpos ▸ ht')

theorem Inv.step {s' : State τ δ} (h : s.Inv) (hst : Step s s') : s'.Inv := by
  obtain ⟨past, l, hlives, hphase⟩ := h.phase
  have hidle {t : τ} (ht : s.pos t = .idle) : (s.pos t).works = false := by
    rw [ht]
    rfl
  cases hst with
  | next t s' hn => exact h.next hn
  | retain t ht =>
    exact ⟨⟨past, l, hlives, hphase.goto (hidle ht) rfl⟩,
      holds_goto h.holds (by simp) fun _ _ => id⟩
  | release t ht hmem =>
    exact ⟨⟨past, l, hlives, hphase.goto (hidle ht) rfl⟩,
      holds_goto h.holds (fun _ _ => hmem) fun _ _ => id⟩
  | handOver t t' ht hmem =>
    have hlen : (t' :: s.holders.erase t).length = s.holders.length := by
      rw [length_cons, length_erase_of_mem hmem]
      exact Nat.sub_add_cancel (length_pos_of_mem hmem)
    refine ⟨⟨past, l, hlives, ?_⟩, fun u v hu => ?_⟩
    · rcases hphase.zero_or_live with ⟨hl, -⟩ | ⟨hnone, -⟩
      · exact .live { hl with held := by simp, refs := by rw [hlen]; exact hl.refs }
      · exact absurd hnone (ne_nil_of_mem hmem)
    · have hut : u ≠ t := by
        rintro rfl
        cases ht.symm.trans hu
      exact mem_cons_of_mem _ ((mem_erase_of_ne hut).2 (h.holds u v hu))
  | initialise t d r ht hended =>
    refine ⟨⟨past, l, hlives, ?_⟩, holds_goto h.holds (by simp) fun _ _ => id⟩
    cases hphase with
    | live h => cases hended.symm.trans h.ended
    | dying u e h => cases hended.symm.trans h.ended
    | ended h =>
      exact .fresh t d r .loadRefs ⟨rfl, by simp [State.goto],
        works_goto_ne (fun t' _ => h.works t') fun hne => absurd rfl hne, h.calls, trivial,
        h.held, h.refs⟩
    | fresh u d r i h => cases hended.symm.trans h.ended

end State

variable [DecidableEq τ] [Inhabited δ]

/-- A lease is given back once in each life, when the last reference is given up.

    * While there are references, the release actions that have begun are those of the earlier
      lives, one for each, with its data.
    * When there are none, that of this life may have begun as well, and it has unless somebody
      is at giving the lease back.
    * Who is at it gets to the release action without anybody else.
    * The count is zero when there are no references, and a `Retain` does not succeed then. -/
structure State.ReleasedOnce (s : State τ δ) : Prop where
  before : s.holders ≠ [] → s.calls = expected s.lives.dropLast
  after : s.holders = [] → s.calls = expected s.lives.dropLast ∨ s.calls = expected s.lives
  done : s.holders = [] → (∀ t k e, s.pos t ≠ .ending k e) → s.calls = expected s.lives
  acts : ∀ t k e, s.pos t = .ending k e → ∃ s', ReflTransGen (fun a b => a.next t = some b) s s' ∧
    s'.lives = s.lives ∧ s'.calls = expected s.lives
  zero : s.refs = 0 ↔ s.holders = []
  retain : ∀ t v s', s.pos t = .retaining v → s.next t = some s' → s'.holders ≠ s.holders →
    s.holders ≠ []

theorem State.Inv.releasedOnce {s : State τ δ} (h : s.Inv) : s.ReleasedOnce := by
  obtain ⟨past, l, hlives, hphase⟩ := h.phase
  have hlast : s.lives.dropLast = past := by rw [hlives, dropLast_concat]
  have hacts {t : τ} {k : ℕ} {e : Ending δ} (ht : s.pos t = .ending k e) :
      ∃ s', ReflTransGen (fun a b => a.next t = some b) s s' ∧ s'.lives = s.lives ∧
        s'.calls = expected s.lives := by
    rcases hphase.worker (t := t) (by rw [ht]; rfl) with ⟨e', h⟩ | ⟨d, r, i, h⟩
    · obtain ⟨s', hrun, hended, hl⟩ := h.acts
      exact ⟨s', hrun, hl, by rw [hended.calls, hlives]⟩
    · cases ht.symm.trans h.pos
  rcases hphase.zero_or_live with ⟨h, hne⟩ | ⟨hnone, hzero, hcalls⟩
  · exact ⟨fun _ => by rw [hlast, h.calls], fun he => absurd he h.held,
      fun he => absurd he h.held, fun _ _ _ => hacts,
      ⟨fun hz => absurd hz hne, fun he => absurd he h.held⟩, fun _ _ _ _ _ _ => h.held⟩
  refine ⟨fun he => absurd hnone he, fun _ => ?_, fun _ hno => ?_, fun _ _ _ => hacts,
    ⟨fun _ => hnone, fun _ => hzero⟩, fun t v s' ht hn hh => absurd ?_ hh⟩
  · rw [hlast, hlives]
    exact hcalls.imp_left fun ⟨_, _, h⟩ => h.calls
  · rw [hlives]
    exact hcalls.resolve_left fun ⟨t, e, h⟩ => hno t _ e h.pos
  · -- a `Retain` finds that the count is not positive, or not what it was
    rw [State.next, ht] at hn
    cases v with
    | none => cases hn; rfl
    | some v =>
      dsimp only at hn
      split_ifs at hn with hv hcas <;> cases hn
      · rfl
      · omega
      · rfl

/-- In every run of goroutines that retain the lease, release and hand over the references that
    they have, and initialise it when it was given back. -/
theorem lease_released_once (l : Life δ) (t₀ : τ) {s : State τ δ}
    (h : ReflTransGen Step (start l t₀) s) : s.ReleasedOnce :=
  (Run.invariant State.Inv (State.inv_start l t₀) (fun _ _ => State.Inv.step) h).releasedOnce

/-- A goroutine goes on for `n` steps. -/
theorem runs_next {s₀ s s' : State τ δ} (t : τ) (n : ℕ) (h : ReflTransGen Step s₀ s)
    (hn : (· >>= (State.next · t))^[n] (some s) = some s') : ReflTransGen Step s₀ s' := by
  induction n generalizing s' with
  | zero => cases hn; exact h
  | succ n ih =>
    rw [Function.iterate_succ_apply'] at hn
    obtain ⟨s₁, hs₁, hn⟩ := Option.bind_eq_some_iff.1 hn
    exact (ih hs₁).tail (.next t s' hn)

/-- The lease is released, and initialised for another frame. -/
theorem lease_released_once_again : ∃ s : State Unit ℕ, s.ReleasedOnce ∧
    s.calls = [(0, .releaser 7 5)] ∧ s.holders = [()] ∧ s.data = 6 := by
  have released := runs_next () 9 (.single (.release (s := start (Life.mk 5 none (some 7) none) ())
    () rfl (by simp [start]))) rfl
  have again := runs_next () 6 (released.tail (.initialise () 6 (some 8) rfl rfl)) rfl
  exact ⟨_, lease_released_once _ () again, rfl, rfl, rfl⟩

end Etp.Lease
