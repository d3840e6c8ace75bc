import Etp.Transfer.Deadlines
import Mathlib.Data.Finset.Insert

/-!
# The timer of the retries

All outgoing transfers of a session share one monitor with one timer. The monitor arms the
timer for `outgoingNext` when it takes a token; when the timer fires it clears
`outgoingNext`, looks at every transfer, and schedules itself for the shortest delay it has
seen.

Here a step is one operation on the atomic, the channel or the timer, or a section under a
lock, and the transfers come and go. While the monitor looks at the transfers it holds the
lock of the session, so that none is registered or removed.

* `State.Covered`: a deadline is not before `outgoingNext`, or the pass takes it into account;
* `State.Answered`: whenever `outgoingNext` is set, someone is about to arm the timer for it,
  or it is armed;
* `retry_timer_kept`: hence no deadline of a waiting sender is lost. The one who is about to
  have the timer armed can be a sender that has not put its token yet (`parked_unarmed`).
-/

namespace Etp.RetryTimer

open Relation Transfer Function

/-! ## The monitor -/

/-- Where the monitor is in `runOutgoingMonitor`. A pass knows when it began, the shortest
    delay so far and the transfers it has looked at. -/
inductive Mon
  | selecting
  | woken
  | arming (target : ℕ)
  | fired (armed : ℕ)
  | cleared
  | entering (now : ℕ)
  | pass (now : ℕ) (next : Option ℕ) (seen : Finset ℕ)
  | sending (now : ℕ) (next : Option ℕ)
  | calling (c : Call)

/-- The shortest delay the timer is set to: a millisecond. -/
def floor : ℕ := 1000000

structure State where
  now : ℕ
  cell : Cell := {}
  armed : ℕ := 0
  /-- When the timer was set, and when it fires. -/
  setAt : ℕ := 0
  firesAt : ℕ := 0
  mon : Mon := .selecting
  outgoing : ℕ → Option Out := fun _ => none

/-- The sender or the monitor goes on with a call, or returns. -/
def Waiter.after : Option Call → Waiter
  | none => .parked
  | some c => .calling c

@[inherit_doc Waiter.after]
def Mon.after : Option Call → Mon
  | none => .selecting
  | some c => .calling c

/-- The monitor holds the lock of the session. -/
def Mon.locks : Mon → Bool
  | .pass .. => true
  | _ => false

namespace State

inductive Step : State → State → Prop
  | tick {s : State} (n : ℕ) : Step s { s with now := s.now + n }
  | register {s : State} (id ackTimeout retryLimit maxInFlight maxInFlightBytes : ℕ)
      (hasRemoteWindow : Bool) (m : TransferBegin) (hnew : s.outgoing id = none)
      (hlock : s.mon.locks = false) (htimeout : 0 < ackTimeout) :
      Step s { s with
        outgoing := update s.outgoing id (some
          { ot := registerOutgoing id retryLimit maxInFlight maxInFlightBytes hasRemoteWindow m
            ackTimeout := ackTimeout }) }
  | unregister {s : State} {id : ℕ} {o : Out} (ho : s.outgoing id = some o)
      (hrun : o.sender = .running) (hlock : s.mon.locks = false) :
      Step s { s with outgoing := update s.outgoing id none }
  | transfer {s : State} {id : ℕ} {o o' : Out} (ho : s.outgoing id = some o)
      (hs : Out.Step s.now o o') :
      Step s { s with outgoing := update s.outgoing id (some o') }
  | schedule {s : State} {id : ℕ} {o : Out} {c : Call} {c' : Option Call} {cell : Cell}
      (ho : s.outgoing id = some o) (hcall : o.sender = .calling c)
      (hs : Call.Step c s.cell c' cell) :
      Step s { s with
        cell := cell
        outgoing := update s.outgoing id (some { o with sender := .after c' }) }
  -- the monitor
  | take {s : State} (hmon : s.mon = .selecting) (htoken : s.cell.outgoingWake = true) :
      Step s { s with cell := { s.cell with outgoingWake := false }, mon := .woken }
  | keep {s : State} (hmon : s.mon = .woken)
      (htarget : s.cell.outgoingNext = 0 ∨ s.cell.outgoingNext = s.armed) :
      Step s { s with mon := .selecting }
  | target {s : State} (hmon : s.mon = .woken) (hset : s.cell.outgoingNext ≠ 0)
      (hne : s.cell.outgoingNext ≠ s.armed) :
      Step s { s with mon := .arming s.cell.outgoingNext }
  | arm {s : State} {target : ℕ} (hmon : s.mon = .arming target) :
      Step s { s with
        mon := .selecting
        armed := target
        setAt := s.now
        firesAt := s.now + max (target - s.now) floor }
  | fire {s : State} (hmon : s.mon = .selecting) (harmed : s.armed ≠ 0)
      (hdue : s.firesAt ≤ s.now) : Step s { s with mon := .fired s.armed, armed := 0 }
  | clear {s : State} {armed : ℕ} (hmon : s.mon = .fired armed) :
      Step s { s with
        cell.outgoingNext := if s.cell.outgoingNext = armed then 0 else s.cell.outgoingNext
        mon := .cleared }
  | clock {s : State} (hmon : s.mon = .cleared) : Step s { s with mon := .entering s.now }
  | enter {s : State} {now : ℕ} (hmon : s.mon = .entering now) :
      Step s { s with mon := .pass now none ∅ }
  | examine {s : State} {now id : ℕ} {next : Option ℕ} {seen : Finset ℕ} {o : Out}
      (hmon : s.mon = .pass now next seen) (ho : s.outgoing id = some o) (hid : id ∉ seen)
      (hfree : o.Free) :
      Step s { s with
        mon := .pass now (o.shortest now next) (insert id seen)
        outgoing := update s.outgoing id (some (o.expire now)) }
  | leave {s : State} {now : ℕ} {next : Option ℕ} {seen : Finset ℕ}
      (hmon : s.mon = .pass now next seen) (hall : ∀ id o, s.outgoing id = some o → id ∈ seen) :
      Step s { s with mon := .sending now next }
  | rest {s : State} {now : ℕ} (hmon : s.mon = .sending now none) :
      Step s { s with mon := .selecting }
  | again {s : State} {now delay : ℕ} (hmon : s.mon = .sending now (some delay)) :
      Step s { s with mon := .calling (.load (now + delay)) }
  | reschedule {s : State} {c : Call} {c' : Option Call} {cell : Cell} (hmon : s.mon = .calling c)
      (hs : Call.Step c s.cell c' cell) : Step s { s with cell := cell, mon := .after c' }

end State

/-! ## What the monitor takes into account -/

/-- The monitor is in a pass that takes the deadline `d` of the transfer `id` into account,
    or in the call that ends it. -/
def Mon.Takes (id d : ℕ) : Mon → Prop
  | .fired _ | .cleared | .entering _ => True
  | .pass now next seen => id ∉ seen ∨ Within next now d
  | .sending now next => Within next now d
  | .calling c => ∃ v, c.time = some v ∧ v ≤ d
  | _ => False

/-- The monitor is about to arm its timer for `next`, to clear it, or to put a token. -/
def Mon.Answers (next : ℕ) : Mon → Prop
  | .woken | .calling .wake => True
  | .arming t | .fired t => t = next
  | _ => False

/-- The timer has fired, and is not armed again. -/
def Mon.Off : Mon → Prop
  | .selecting | .woken | .arming _ => False
  | _ => True

namespace State

variable (s : State)

def Covered (id d : ℕ) : Prop := s.cell.By d ∨ s.mon.Takes id d

/-- The timer is armed for `outgoingNext`, or someone sees to it. -/
inductive Answered : Prop
  | token (h : s.cell.outgoingWake = true)
  | waking (id : ℕ) (o : Out) (ho : s.outgoing id = some o) (h : o.sender = .calling .wake)
  | armed (h : s.armed = s.cell.outgoingNext)
  | monitor (h : s.mon.Answers s.cell.outgoingNext)

/-- What the monitor knows at its place. -/
def MonOk : Mon → Prop
  | .arming target => s.cell.By target ∧ target ≠ 0 ∧ (s.armed ≠ 0 → target < s.armed)
  | .entering now | .pass now _ _ | .sending now _ => now ≠ 0 ∧ now ≤ s.now
  | .calling c => c.Ok
  | _ => True

structure Inv : Prop where
  started : s.now ≠ 0
  good : ∀ id o, s.outgoing id = some o → o.Good s.now
  mon : s.MonOk s.mon
  off : s.mon.Off → s.armed = 0
  armed : s.armed ≠ 0 → s.cell.By s.armed ∧ s.firesAt ≤ max s.armed (s.setAt + floor)
  covered : ∀ id o, s.outgoing id = some o → o.sender.Settled → ∀ d ∈ o.deadlines,
    s.Covered id d
  answered : s.cell.outgoingNext ≠ 0 → s.Answered

variable {s} {s' : State} {id d d' : ℕ} {o : Out}

theorem Takes.le (h : s.mon.Takes id d) (hle : d ≤ d') : s.mon.Takes id d' := by
  have hwithin : ∀ {next : Option ℕ} {start : ℕ}, Within next start d → Within next start d' :=
    fun ⟨e, he, hd⟩ => ⟨e, he, hd.trans hle⟩
  cases hmon : s.mon with
  | fired _ | cleared | entering _ => trivial
  | pass =>
    rw [hmon] at h
    exact h.imp (fun h => h) hwithin
  | sending =>
    rw [hmon] at h
    exact hwithin h
  | calling =>
    rw [hmon] at h
    obtain ⟨v, hv, hd⟩ := h
    exact ⟨v, hv, hd.trans hle⟩
  | selecting | woken | arming =>
    rw [hmon] at h
    exact h

theorem Covered.le (h : s.Covered id d) (hle : d ≤ d') : s.Covered id d' :=
  h.imp (fun h => h.le hle) (fun h => Takes.le h hle)

variable {mon : Mon}

/-- What is known where the monitor is. -/
theorem Inv.here (h : s.Inv) (hmon : s.mon = mon) : s.MonOk mon ∧ (mon.Off → s.armed = 0) :=
  hmon ▸ ⟨h.mon, h.off⟩

/-- Whoever sees to the timer still does where the token and the transfers stay, unless it is the
    timer or the monitor. -/
theorem Answered.keep (h : s.Answered) (hmon : s.mon = mon)
    (htoken : s'.cell.outgoingWake = s.cell.outgoingWake) (hout : s'.outgoing = s.outgoing)
    (harmed : s.armed = s.cell.outgoingNext → s'.Answered)
    (hanswers : mon.Answers s.cell.outgoingNext → s'.Answered) : s'.Answered := by
  cases h with
  | token ht => exact .token (htoken.trans ht)
  | waking j y hy hw => exact .waking j y (hout ▸ hy) hw
  | armed ha => exact harmed ha
  | monitor hm => exact hanswers (hmon ▸ hm)

/-! ### Steps that change one transfer -/

variable {x : Option Out}

theorem update_cases {outgoing : ℕ → Option Out} {id j : ℕ} {y : Out}
    (h : update outgoing id x j = some y) :
    (j = id ∧ x = some y) ∨ (j ≠ id ∧ outgoing j = some y) := by
  rw [update_apply] at h
  split_ifs at h with hj
  · exact .inl ⟨hj, h⟩
  · exact .inr ⟨hj, h⟩

/-- A transfer changes, or comes or goes, while no goroutine puts a token for it; the monitor may
    go on. -/
theorem Inv.replace (h : s.Inv) (hok : s.MonOk mon) (hoff : mon.Off → s.armed = 0)
    (htakes : ∀ j d, j ≠ id → s.mon.Takes j d → mon.Takes j d)
    (hanswers : ∀ n, s.mon.Answers n → mon.Answers n)
    (hquiet : ∀ o, s.outgoing id = some o → o.sender ≠ .calling .wake)
    (hgood : ∀ o', x = some o' → o'.Good s.now)
    (hcovered : ∀ o', x = some o' → o'.sender.Settled → ∀ d ∈ o'.deadlines,
      s.cell.By d ∨ mon.Takes id d) :
    ({ s with mon := mon, outgoing := update s.outgoing id x } : State).Inv where
  started := h.started
  good j y hy := by
    rcases update_cases hy with ⟨rfl, rfl⟩ | ⟨-, hy⟩
    · exact hgood y rfl
    · exact h.good j y hy
  mon := hok
  off := hoff
  armed := h.armed
  covered j y hy hsettled d hd := by
    rcases update_cases hy with ⟨rfl, rfl⟩ | ⟨hj, hy⟩
    · exact hcovered y rfl hsettled d hd
    · exact (h.covered j y hy hsettled d hd).imp_right (htakes j d hj)
  answered hset := by
    cases h.answered hset with
    | token ht => exact .token ht
    | waking j y hy hw =>
      have hj : j ≠ id := by
        rintro rfl
        exact hquiet y hy hw
      exact .waking j y ((update_of_ne hj _ _).trans hy) hw
    | armed ha => exact .armed ha
    | monitor hm => exact .monitor (hanswers _ hm)

/-- The same while the monitor stays where it is. -/
theorem Inv.replace_transfer (h : s.Inv)
    (hquiet : ∀ o, s.outgoing id = some o → o.sender ≠ .calling .wake)
    (hgood : ∀ o', x = some o' → o'.Good s.now)
    (hcovered : ∀ o', x = some o' → o'.sender.Settled → ∀ d ∈ o'.deadlines, s.Covered id d) :
    ({ s with outgoing := update s.outgoing id x } : State).Inv :=
  h.replace h.mon h.off (fun _ _ _ ht => ht) (fun _ hm => hm) hquiet hgood hcovered

theorem Inv.transfer (h : s.Inv) (ho : s.outgoing id = some o) {o' : Out}
    (hs : Out.Step s.now o o') :
    ({ s with outgoing := update s.outgoing id (some o') } : State).Inv := by
  have hgood := h.good id o ho
  obtain ⟨hfree, hrests⟩ := Out.step_rests hgood hs
  refine h.replace_transfer (fun y hy => ?_) ?_ ?_
  · cases ho.symm.trans hy
    exact hfree .wake
  · rintro y ⟨⟩
    exact hgood.step hs
  · rintro y ⟨⟩ hsettled d hd
    rcases hrests hsettled with hnone | ⟨hparked, hlater⟩
    · rw [hnone] at hd
      exact absurd hd List.not_mem_nil
    · obtain ⟨e, he, hle⟩ := hlater d hd
      exact (h.covered id o ho (.inl hparked) e he).le hle

/-! ### Scheduling the monitor -/

/-- A sender schedules the monitor. -/
theorem Inv.schedule (h : s.Inv) (ho : s.outgoing id = some o) {c : Call} {c' : Option Call}
    {cell : Cell} (hcall : o.sender = .calling c) (hs : Call.Step c s.cell c' cell) :
    ({ s with
        cell := cell
        outgoing := update s.outgoing id (some { o with sender := .after c' }) } :
      State).Inv := by
  have hgood := h.good id o ho
  obtain ⟨hok, htime⟩ := hgood.call c hcall
  have he := hs.effect hok
  refine ⟨h.started, fun j y hy => ?_, ?_, h.off, fun ha => ?_, fun j y hy hsettled d hd => ?_,
    fun hset => ?_⟩
  · rcases update_cases hy with ⟨rfl, heq⟩ | ⟨-, hy⟩
    · cases heq
      refine { hgood with healthy := fun _ => ?_, call := fun x hx => ?_ }
      · exact hgood.healthy (by rw [hcall]; nofun)
      · cases c' with
        | none => cases hx
        | some x' =>
          cases hx
          exact ⟨he.ok _ rfl, fun v hv => htime v (he.again _ v rfl hv)⟩
    · exact h.good j y hy
  · have hmon := h.mon
    show State.MonOk _ s.mon
    cases hm : s.mon with
    | arming t =>
      rw [hm] at hmon
      exact ⟨hmon.1.lowered he.lowered, hmon.2⟩
    | _ =>
      rw [hm] at hmon
      exact hmon
  · exact ⟨(h.armed ha).1.lowered he.lowered, (h.armed ha).2⟩
  · rcases update_cases hy with ⟨rfl, heq⟩ | ⟨-, hy⟩
    · cases heq
      cases hv : c.time with
      | none =>
        -- the token is put: the time was set before
        have hwake : c = .wake := by
          cases c with
          | wake => rfl
          | load | swap => cases hv
        refine (h.covered j o ho (.inr (hwake ▸ hcall)) d hd).imp (fun hb => ?_) (fun ht => ht)
        exact hb.lowered he.lowered
      | some v =>
        rcases he.by_time v hv with ⟨x, hx, hxv⟩ | hby
        · cases hx
          rcases hsettled with hsettled | hsettled
          · cases hsettled
          · cases hsettled
            cases hxv
        · obtain ⟨e, hnext, hle⟩ := Out.next_le hd
          have hev : v = e := Option.some.inj ((htime v hv).symm.trans hnext)
          exact .inl (hby.le (by omega))
    · refine (h.covered j y hy hsettled d hd).imp (fun hb => ?_) (fun ht => ht)
      exact hb.lowered he.lowered
  · rcases he.moved with hsame | hwake
    · rw [hsame] at hset
      cases h.answered hset with
      | token ht => exact .token (he.token ht)
      | waking j y hy hw =>
        by_cases hj : j = id
        · subst hj
          cases ho.symm.trans hy
          cases hcall.symm.trans hw
          exact .token (he.put rfl)
        · exact .waking j y ((update_of_ne hj _ _).trans hy) hw
      | armed ha => exact .armed (ha.trans hsame.symm)
      | monitor hm =>
        refine .monitor ?_
        show s.mon.Answers cell.outgoingNext
        rw [hsame]
        exact hm
    · exact .waking id _ (update_self _ _ _) (by rw [hwake]; rfl)

/-- The monitor schedules itself. -/
theorem Inv.reschedule (h : s.Inv) {c : Call} {c' : Option Call} {cell : Cell}
    (hmon : s.mon = .calling c) (hs : Call.Step c s.cell c' cell) :
    ({ s with cell := cell, mon := .after c' } : State).Inv := by
  have he := hs.effect (h.here hmon).1
  have hunarmed : s.armed = 0 := (h.here hmon).2 trivial
  refine ⟨h.started, h.good, ?_, fun _ => hunarmed, fun ha => absurd hunarmed ha,
    fun j y hy hsettled d hd => ?_, fun hset => ?_⟩
  · cases c' with
    | none => trivial
    | some x => exact he.ok x rfl
  · rcases h.covered j y hy hsettled d hd with hb | ht
    · exact .inl (hb.lowered he.lowered)
    · rw [hmon] at ht
      obtain ⟨v, hv, hle⟩ := ht
      rcases he.by_time v hv with ⟨x, rfl, hxv⟩ | hby
      · exact .inr ⟨v, hxv, hle⟩
      · exact .inl (hby.le hle)
  · rcases he.moved with hsame | rfl
    · rw [hsame] at hset
      cases h.answered hset with
      | token ht => exact .token (he.token ht)
      | waking j y hy hw => exact .waking j y hy hw
      | armed ha => exact .armed (ha.trans hsame.symm)
      | monitor hm =>
        rw [hmon] at hm
        cases c with
        | wake => exact .token (he.put rfl)
        | load | swap => exact hm.elim
    · exact .monitor trivial

/-! ### The monitor -/

/-- A step of the monitor while its timer runs that leaves `outgoingNext`. No pass is going on, so
    that every deadline that is covered is by `outgoingNext`. -/
theorem Inv.monitor (h : s.Inv) (hmon : s.mon = mon) (hnow : s'.now = s.now)
    (hout : s'.outgoing = s.outgoing) (hnext : s'.cell.outgoingNext = s.cell.outgoingNext)
    (hok : s'.MonOk s'.mon) (hoff : s'.mon.Off → s'.armed = 0)
    (harmed : s'.armed ≠ 0 → s'.cell.By s'.armed ∧ s'.firesAt ≤ max s'.armed (s'.setAt + floor))
    (htakes : ∀ id d, s.outgoing id ≠ none → mon.Takes id d → s'.Covered id d)
    (hanswered : s.cell.outgoingNext ≠ 0 → s.Answered → s'.Answered) : s'.Inv where
  started := hnow ▸ h.started
  good := by
    rw [hnow, hout]
    exact h.good
  mon := hok
  off := hoff
  armed := harmed
  covered id o ho hsettled d hd := by
    rw [hout] at ho
    rcases h.covered id o ho hsettled d hd with hby | ht
    · exact .inl (by rw [Cell.By, hnext]; exact hby)
    · exact htakes id d (by rw [ho]; nofun) (hmon ▸ ht)
  answered hset := by
    rw [hnext] at hset
    exact hanswered hset (h.answered hset)

/-- A step of the monitor that leaves everything but its place. -/
theorem Inv.move (h : s.Inv) {old mon : Mon} (hmon : s.mon = old) (hok : s.MonOk mon)
    (hoff : mon.Off → s.armed = 0)
    (htakes : ∀ id d, s.outgoing id ≠ none → old.Takes id d → mon.Takes id d)
    (hanswers : s.cell.outgoingNext ≠ 0 → old.Answers s.cell.outgoingNext →
      s.armed = s.cell.outgoingNext ∨ mon.Answers s.cell.outgoingNext) :
    ({ s with mon := mon } : State).Inv := by
  refine h.monitor hmon rfl rfl rfl hok hoff h.armed (fun id d ho ht => .inr (htakes id d ho ht))
    fun hset hanswered => ?_
  refine hanswered.keep hmon rfl rfl (fun ha => .armed ha) fun hm => ?_
  exact (hanswers hset hm).elim (fun ha => .armed ha) fun hm => .monitor hm

/-- The timer is armed for the time that was read, which is sooner than the one before. -/
theorem Inv.arm (h : s.Inv) {target : ℕ} (hmon : s.mon = .arming target) :
    ({ s with
        mon := .selecting
        armed := target
        setAt := s.now
        firesAt := s.now + max (target - s.now) floor } : State).Inv := by
  obtain ⟨⟨hby, hne, hlt⟩, -⟩ := h.here hmon
  refine h.monitor hmon rfl rfl rfl trivial nofun (fun _ => ⟨hby, ?_⟩) (fun _ _ _ ht => ht.elim)
    fun hset hanswered => ?_
  · show s.now + max (target - s.now) floor ≤ max target (s.now + floor)
    omega
  · refine hanswered.keep hmon rfl rfl (fun ha => ?_) fun hm => .armed hm
    -- it cannot be armed for `outgoingNext` already, which is no later than the target
    have := hlt (ha ▸ hset)
    have := hby.2
    omega

/-- The timer fires. -/
theorem Inv.fire (h : s.Inv) (hmon : s.mon = .selecting) :
    ({ s with mon := .fired s.armed, armed := 0 } : State).Inv := by
  refine h.monitor hmon rfl rfl rfl trivial (fun _ => rfl) (fun ha => absurd rfl ha)
    (fun _ _ _ ht => ht.elim) fun hset hanswered => ?_
  exact hanswered.keep hmon rfl rfl (fun ha => .monitor ha) fun hm => hm.elim

/-- `outgoingNext` is cleared, unless it was set to a sooner time. From now on every transfer is
    still to be looked at. -/
theorem Inv.clear (h : s.Inv) {armed : ℕ} (hmon : s.mon = .fired armed) :
    ({ s with
        cell.outgoingNext := if s.cell.outgoingNext = armed then 0 else s.cell.outgoingNext
        mon := .cleared } : State).Inv := by
  have hunarmed : s.armed = 0 := (h.here hmon).2 trivial
  refine ⟨h.started, h.good, trivial, fun _ => hunarmed, fun ha => absurd hunarmed ha,
    fun _ _ _ _ _ _ => .inr trivial, fun hset => ?_⟩
  change (if s.cell.outgoingNext = armed then 0 else s.cell.outgoingNext) ≠ 0 at hset
  split_ifs at hset with hne
  · exact absurd rfl hset
  · refine (h.answered hset).keep hmon rfl rfl (fun ha => ?_) fun hm => absurd hm.symm hne
    exact absurd (ha.symm.trans hunarmed) hset

/-- The monitor looks at a transfer. -/
theorem Inv.examine (h : s.Inv) {now : ℕ} {next : Option ℕ} {seen : Finset ℕ}
    (hmon : s.mon = .pass now next seen) (ho : s.outgoing id = some o) (hfree : o.Free) :
    ({ s with
        mon := .pass now (o.shortest now next) (insert id seen)
        outgoing := update s.outgoing id (some (o.expire now)) } : State).Inv := by
  obtain ⟨hok, hunarmed⟩ := h.here hmon
  have hexpired := (h.good id o ho).expire hok.2 hfree
  refine h.replace hok hunarmed (fun j d hj ht => ?_) (fun n hm => ?_) (fun y hy => ?_) ?_ ?_
  · rw [hmon] at ht
    refine ht.imp (fun hunseen hmem => ?_) Out.shortest_within
    exact (Finset.mem_insert.mp hmem).elim hj hunseen
  · rw [hmon] at hm
    exact hm.elim
  · cases ho.symm.trans hy
    exact hfree .wake
  · rintro y ⟨⟩
    exact hexpired
  · rintro y ⟨⟩ hsettled d hd
    have hfailed : (o.expire now).ot.failed = none := hexpired.healthy fun hrun => by
      rw [hrun] at hsettled
      exact hsettled.elim nofun nofun
    exact .inr (.inr (Out.expire_within hfailed hd next))

theorem Inv.step (h : s.Inv) (hs : Step s s') : s'.Inv := by
  cases hs with
  | tick n =>
    refine ⟨?_, fun id o ho => (h.good id o ho).later (Nat.le_add_right _ _), ?_, h.off, h.armed,
      h.covered, fun hset => ?_⟩
    · have := h.started
      show s.now + n ≠ 0
      omega
    · have hok := h.mon
      show State.MonOk _ s.mon
      cases hm : s.mon with
      | entering | pass | sending =>
        rw [hm] at hok
        exact ⟨hok.1, hok.2.trans (Nat.le_add_right _ _)⟩
      | _ =>
        rw [hm] at hok
        exact hok
    · exact (h.answered hset).keep rfl rfl rfl (fun ha => .armed ha) fun hm => .monitor hm
  | register id ackTimeout retryLimit maxInFlight maxInFlightBytes hasRemoteWindow m hnew hlock
      htimeout =>
    refine h.replace_transfer (fun o ho => ?_) ?_ ?_
    · rw [hnew] at ho
      cases ho
    · rintro o ⟨⟩
      exact ⟨htimeout.ne', fun _ => Nat.zero_le _, nofun, nofun, fun _ => rfl, nofun⟩
    · rintro o ⟨⟩ hsettled
      exact hsettled.elim nofun nofun
  | @unregister id o ho hrun hlock =>
    refine h.replace_transfer (fun y hy => ?_) nofun nofun
    cases ho.symm.trans hy
    rw [hrun]
    nofun
  | transfer ho hs => exact h.transfer ho hs
  | schedule ho hcall hs => exact h.schedule ho hcall hs
  | take hmon htoken =>
    exact h.monitor hmon rfl rfl rfl trivial nofun h.armed (fun _ _ _ ht => ht.elim)
      fun _ _ => .monitor trivial
  | keep hmon htarget =>
    exact h.move hmon trivial nofun (fun _ _ _ ht => ht.elim)
      fun hset _ => .inl (htarget.resolve_left hset).symm
  | target hmon hset hne =>
    exact h.move hmon ⟨⟨hset, le_rfl⟩, hset, fun ha => lt_of_le_of_ne (h.armed ha).1.2 hne⟩ nofun
      (fun _ _ _ ht => ht.elim) fun _ _ => .inr rfl
  | arm hmon => exact h.arm hmon
  | fire hmon harmed hdue => exact h.fire hmon
  | clear hmon => exact h.clear hmon
  | clock hmon =>
    exact h.move hmon ⟨h.started, le_rfl⟩ (h.here hmon).2 (fun _ _ _ _ => trivial)
      fun _ hm => hm.elim
  | enter hmon =>
    exact h.move hmon (h.here hmon).1 (h.here hmon).2
      (fun _ _ _ _ => .inl (Finset.notMem_empty _)) fun _ hm => hm.elim
  | examine hmon ho hid hfree => exact h.examine hmon ho hfree
  | leave hmon hall =>
    refine h.move hmon (h.here hmon).1 (h.here hmon).2 (fun id d ho ht => ?_) fun _ hm => hm.elim
    obtain ⟨o, ho⟩ := Option.ne_none_iff_exists'.mp ho
    exact ht.resolve_left fun hunseen => hunseen (hall id o ho)
  | rest hmon =>
    refine h.move hmon trivial nofun (fun id d _ ht => ?_) fun _ hm => hm.elim
    obtain ⟨e, he, -⟩ := ht
    cases he
  | @again now delay hmon =>
    have hok : s.MonOk (.calling (.load (now + delay))) := by
      have := (h.here hmon).1.1
      show now + delay ≠ 0
      omega
    refine h.move hmon hok (h.here hmon).2 (fun id d _ ht => ?_) fun _ hm => hm.elim
    obtain ⟨e, he, hle⟩ := ht
    cases he
    exact ⟨_, rfl, hle⟩
  | reschedule hmon hs => exact h.reschedule hmon hs

/-- In every run, from any time on, the invariant holds. -/
theorem inv_of_run {start : ℕ} (hstart : 0 < start)
    (hrun : ReflTransGen Step { now := start } s) : s.Inv := by
  refine Run.invariant Inv ?_ (fun _ _ h hs => h.step hs) hrun
  exact ⟨hstart.ne', nofun, trivial, fun _ => rfl, fun h => absurd rfl h, nofun,
    fun h => absurd rfl h⟩

end State

/-! ## No deadline is lost -/

/-- The monitor is going to look at the transfer `id` on account of its deadline `d`: its timer
    fires by then, up to the shortest delay; there is a token; a sender that has set
    `outgoingNext` puts one; the monitor arms its timer again, or puts a token; or it is in a pass
    that takes the deadline into account. -/
inductive State.Minds (s : State) (id d : ℕ) : Prop
  | armed (hset : s.armed ≠ 0) (hle : s.armed ≤ d) (hfires : s.firesAt ≤ max d (s.setAt + floor))
  | token (hnext : s.cell.By d) (htoken : s.cell.outgoingWake = true)
  | waking (hnext : s.cell.By d) (j : ℕ) (y : Out) (hy : s.outgoing j = some y)
      (hwake : y.sender = .calling .wake)
  | rearming (hnext : s.cell.By d) (hmon : s.mon = .woken ∨ s.mon = .arming s.cell.outgoingNext ∨
      s.mon = .calling .wake)
  | processing (htakes : s.mon.Takes id d)

theorem State.Inv.minds {s : State} (h : s.Inv) {id d : ℕ} (hcovered : s.Covered id d) :
    s.Minds id d := by
  rcases hcovered with hby | htakes
  · cases h.answered hby.1 with
    | token ht => exact .token hby ht
    | waking j y hy hw => exact .waking hby j y hy hw
    | armed ha =>
      have hset : s.armed ≠ 0 := ha ▸ hby.1
      have hle : s.armed ≤ d := ha ▸ hby.2
      exact .armed hset hle ((h.armed hset).2.trans (max_le_max hle le_rfl))
    | monitor hm =>
      cases hmon : s.mon with
      | woken => exact .rearming hby (.inl hmon)
      | arming t =>
        rw [hmon] at hm
        exact .rearming hby (.inr (.inl (hm ▸ hmon)))
      | fired t => exact .processing (by rw [hmon]; trivial)
      | calling c =>
        rw [hmon] at hm
        cases c with
        | wake => exact .rearming hby (.inr (.inr hmon))
        | load | swap => exact hm.elim
      | selecting | cleared | entering | pass | sending =>
        rw [hmon] at hm
        exact hm.elim
  · exact .processing htakes

/-- A transfer with a chunk that is not acknowledged, or with its end, has a first deadline. -/
theorem Out.Good.first_deadline {now : ℕ} {o : Out} (h : o.Good now)
    (hopen : o.ot.pending ≠ [] ∨ (o.ot.doneSending = true ∧ o.ot.completed = false)) :
    ∃ d ∈ o.deadlines, o.nextOutgoingDeadlineLocked = some d ∧ ∀ e ∈ o.deadlines, d ≤ e := by
  have hsome : ∃ e, e ∈ o.deadlines := by
    rcases hopen with hpending | ⟨hdone, hcompleted⟩
    · obtain ⟨c, hc⟩ := List.exists_mem_of_ne_nil _ hpending
      exact ⟨_, List.mem_append_right _ (List.mem_map_of_mem hc)⟩
    · obtain ⟨t, ht⟩ := h.ended hdone
      refine ⟨t + o.ackTimeout, List.mem_append_left _ (Option.mem_toList.mpr ?_)⟩
      rw [Out.commitSent, hdone, hcompleted, ht]
      rfl
  obtain ⟨e, he⟩ := hsome
  obtain ⟨d, hd, -⟩ := Out.next_le he
  refine ⟨d, Out.next_mem hd, hd, fun e he => ?_⟩
  obtain ⟨d', hd', hle⟩ := Out.next_le he
  cases hd.symm.trans hd'
  omega

/-- In every run, whenever a sender waits for a chunk or the end to be acknowledged, the monitor is
    going to look at its transfer on account of its first deadline. -/
theorem retry_timer_kept {start : ℕ} (hstart : 0 < start) {s : State}
    (hrun : ReflTransGen State.Step { now := start } s) {id : ℕ} {o : Out}
    (ho : s.outgoing id = some o) (hparked : o.sender = .parked)
    (hopen : o.ot.pending ≠ [] ∨ (o.ot.doneSending = true ∧ o.ot.completed = false)) :
    ∃ d ∈ o.deadlines, o.nextOutgoingDeadlineLocked = some d ∧ (∀ e ∈ o.deadlines, d ≤ e) ∧
      s.Minds id d := by
  have hinv := State.inv_of_run hstart hrun
  obtain ⟨d, hd, hnext, hfirst⟩ := (hinv.good id o ho).first_deadline hopen
  exact ⟨d, hd, hnext, hfirst, hinv.minds (hinv.covered id o ho (.inl hparked) d hd)⟩

/-! ### Two senders -/

/-- Two empty transfers are sent at the time 1. The first sender has set `outgoingNext`; the second
    one waits, for its deadline is not sooner. -/
theorem second_parked : ∃ (s : State) (o₁ o₂ : Out), ReflTransGen State.Step { now := 1 } s ∧
    s.outgoing 1 = some o₁ ∧ o₁.sender = .calling .wake ∧
    s.outgoing 2 = some o₂ ∧ o₂.sender = .parked ∧
    o₂.ot.doneSending = true ∧ o₂.ot.completed = false ∧
    s.armed = 0 ∧ s.cell = ⟨11, false⟩ ∧ s.mon = .selecting := by
  have hfirst := (ReflTransGen.refl (r := State.Step) (a := { now := 1 })).tail
    (.register 1 10 3 1 1 false (announce [] 1 0 []) rfl rfl (by decide))
  have hboth := hfirst.tail (.register 2 10 3 1 1 false (announce [] 1 0 []) rfl rfl (by decide))
  have hsent := (hboth.tail (@State.Step.transfer _ 1 _ _ rfl (.finish rfl rfl))).tail
    (@State.Step.transfer _ 2 _ _ rfl (.finish rfl rfl))
  have hwait := (hsent.tail
    (@State.Step.transfer _ 1 _ _ rfl (.wait rfl ⟨rfl, .inr ⟨rfl, .inr rfl⟩⟩))).tail
    (@State.Step.transfer _ 2 _ _ rfl (.wait rfl ⟨rfl, .inr ⟨rfl, .inr rfl⟩⟩))
  have hset := (hwait.tail (@State.Step.schedule _ 1 _ _ _ _ rfl rfl (.load (by simp)))).tail
    (@State.Step.schedule _ 1 _ _ _ _ rfl rfl .swap)
  have hrun := hset.tail (@State.Step.schedule _ 2 _ _ _ _ rfl rfl (.sooner (by decide) le_rfl))
  exact ⟨_, _, _, hrun, rfl, rfl, rfl, rfl, rfl, rfl, rfl, rfl, rfl⟩

/-- A sender waits for its end to be acknowledged, and the monitor neither is armed, nor has it a
    token, nor is it in a pass: the token is still to be put by another sender. -/
theorem parked_unarmed : ∃ (s : State) (o : Out), ReflTransGen State.Step { now := 1 } s ∧
    s.outgoing 2 = some o ∧ o.sender = .parked ∧
    o.ot.doneSending = true ∧ o.ot.completed = false ∧
    s.armed = 0 ∧ s.cell.outgoingWake = false ∧ s.mon = .selecting := by
  obtain ⟨s, -, o, hrun, -, -, ho, hparked, hdone, hcompleted, harmed, hcell, hmon⟩ := second_parked
  exact ⟨s, o, hrun, ho, hparked, hdone, hcompleted, harmed, by rw [hcell], hmon⟩

/-- The first sender puts its token, and the monitor arms its timer for both. -/
theorem retry_timer_kept_two : ∃ (s : State) (o : Out), ReflTransGen State.Step { now := 1 } s ∧
    s.outgoing 2 = some o ∧ o.sender = .parked ∧ s.armed = 11 ∧ s.mon = .selecting ∧
    ∃ d ∈ o.deadlines, o.nextOutgoingDeadlineLocked = some d ∧ (∀ e ∈ o.deadlines, d ≤ e) ∧
      s.Minds 2 d := by
  obtain ⟨s, o₁, o, hrun, ho₁, hwake, ho, hparked, hdone, hcompleted, harmed, hcell, hmon⟩ :=
    second_parked
  have hput := hrun.tail (.schedule ho₁ hwake .wake)
  have htaken := hput.tail (.take hmon rfl)
  have hnext : s.cell.outgoingNext = 11 := congrArg Cell.outgoingNext hcell
  have hset : s.cell.outgoingNext ≠ 0 := by omega
  have hne : s.cell.outgoingNext ≠ s.armed := by omega
  have htarget := htaken.tail (.target rfl hset hne)
  have hrun' := htarget.tail (.arm rfl)
  have ho' : update s.outgoing 1 (some { o₁ with sender := .after none }) 2 = some o :=
    ho
  exact ⟨_, o, hrun', ho', hparked, hnext, rfl,
    retry_timer_kept (by decide) hrun' ho' hparked (.inr ⟨hdone, hcompleted⟩)⟩

end Etp.RetryTimer
