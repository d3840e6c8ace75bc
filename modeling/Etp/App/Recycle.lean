import Etp.App.Spool
import Etp.Lib.Pool
import Etp.Lib.Run

/-!
# Transfers that share a pool of writers

Any number of transfers of one application acquire writers, write, close and abort. `Close` is
three steps here: it emits, which takes as long as the handler does, then releases the object,
which the next transfer may acquire at once, and the session receives its result. If the
commit timeout is over before that, be it before the release or after it, the session aborts
the writer when `Close` has returned: the object it still refers to is in the pool, or with
another transfer, whose data it discards (`late_abort_discards`).

* `State.Inv`: no two transfers use the same object, and an object that may still be aborted
  late is not in use, as long as no such object is acquired (`Careful`);
* `late_abort_harmless`: so closing and aborting on behalf of a transfer does not touch what
  another one uses.
-/

namespace Etp.Application.Spool

open Function List

/-- Where a transfer is: `closing o late` from the emission to the release, `late` if the commit
    timeout is over; `returned o` from the release until the session receives the result of
    `Close`; `aborting o` while it is still to abort the writer that `Close` has released. -/
inductive Phase
  | absent
  | writing (o : ℕ)
  | closing (o : ℕ) (late : Bool)
  | returned (o : ℕ)
  | aborting (o : ℕ)
  | done
  deriving DecidableEq

/-- The object that a transfer uses. -/
def Phase.object : Phase → Option ℕ
  | .writing o | .closing o _ => some o
  | .absent | .returned _ | .aborting _ | .done => none

/-- The object that a transfer uses no more, and that the session may still abort. -/
def Phase.outstanding : Phase → Option ℕ
  | .returned o | .aborting o => some o
  | .absent | .writing _ | .closing _ _ | .done => none

/-- The objects by their numbers, those in the pool, the files, the transfers, and what was
    emitted: for which transfer, from which object. -/
structure State where
  objs : ℕ → Pooled := fun _ => {}
  made : ℕ := 0
  pool : List ℕ := []
  files : Files := {}
  phase : ℕ → Phase := fun _ => .absent
  emitted : List (ℕ × ℕ × Context) := []

inductive Event
  | make (t : ℕ) (i : Info)
  | acquire (t o : ℕ) (i : Info)
  | forget (o : ℕ)
  | write (t : ℕ) (d : Disk) (p : Bytes)
  | close (t : ℕ) (d : Disk)
  | timeout (t : ℕ)
  | release (t : ℕ)
  | result (t : ℕ)
  | abort (t : ℕ)
  | lateAbort (t : ℕ)

namespace State

variable (s : State)

def setPhase (t : ℕ) (x : Phase) : State := { s with phase := update s.phase t x }

def setObj (o : ℕ) (f : Files) (w : Pooled) : State :=
  { s with objs := update s.objs o w, files := f }

/-- `release`, with putting the object into the pool. -/
def release (o : ℕ) (w : Pooled) : State :=
  { s.setObj o (w.release s.files).1 (w.release s.files).2 with pool := s.pool ++ [o] }

/-- `Abort` of an object: one that is released refuses it. -/
def abort (o : ℕ) : State :=
  if (s.objs o).released then s
  else { s.setObj o ((s.objs o).abort s.files).1.1 ((s.objs o).abort s.files).1.2 with
    pool := s.pool ++ [o] }

end State

/-- The state after an event, if it is possible. The pool returns any object it has, or a new
    one, and may forget what it has. -/
def exec (a : App) (s : State) : Event → Option State
  | .make t i =>
    match s.phase t with
    | .absent => some { (s.setObj s.made s.files (({} : Pooled).acquire a i)).setPhase t
        (.writing s.made) with made := s.made + 1 }
    | _ => none
  | .acquire t o i =>
    match s.phase t with
    | .absent =>
      if o ∈ s.pool then
        some { (s.setObj o s.files ((s.objs o).acquire a i)).setPhase t (.writing o) with
          pool := s.pool.erase o }
      else none
    | _ => none
  | .forget o => some { s with pool := s.pool.erase o }
  | .write t d p =>
    match s.phase t with
    | .writing o =>
      let r := ((s.objs o).write s.files d p).1
      some (s.setObj o r.1 r.2)
    | _ => none
  | .close t d =>
    match s.phase t with
    | .writing o =>
      if (s.objs o).released then some (s.setPhase t (.returned o))
      else match (s.objs o).prepare s.files d with
        | (w, .ok body) => some { (s.setObj o s.files w).setPhase t (.closing o false) with
            emitted := s.emitted ++ [(t, o, w.context body)] }
        | (w, .error _) => some ((s.setObj o s.files w).setPhase t (.closing o false))
    | _ => none
  | .timeout t =>
    match s.phase t with
    | .closing o _ => some (s.setPhase t (.closing o true))
    -- the result is there only when the object was put into the pool
    | .returned o => some (s.setPhase t (.aborting o))
    | _ => none
  | .release t =>
    match s.phase t with
    | .closing o late =>
      some ((s.release o (s.objs o)).setPhase t (if late then .aborting o else .returned o))
    | _ => none
  | .result t =>
    match s.phase t with
    | .returned _ => some (s.setPhase t .done)
    | _ => none
  | .abort t =>
    match s.phase t with
    | .writing o => some ((s.abort o).setPhase t .done)
    | _ => none
  | .lateAbort t =>
    match s.phase t with
    | .aborting o => some ((s.abort o).setPhase t .done)
    | _ => none

/-- An object is acquired only if no transfer before is still to receive the result of closing
    it, or to abort it. -/
def Careful (s : State) : Event → Prop
  | .acquire _ o _ => ∀ t, (s.phase t).outstanding ≠ some o
  | _ => True

/-- A step that meets the condition. -/
def CarefulStep (a : App) (s s' : State) : Prop := ∃ e, Careful s e ∧ exec a s e = some s'

/-! ## What the files of the objects are -/

namespace Pooled

variable {f : Files} {w : Pooled} {d : Disk} {p : Bytes}

/-- A write keeps the name of the file, or the writer gets one that was not used before. -/
theorem write_path : (w.write f d p).1.1.next = f.next ∧ (w.write f d p).1.2.path = w.path ∨
    (w.write f d p).1.1.next = f.next + 1 ∧ (w.write f d p).1.2.path = some f.next := by
  simp only [write, writeFile]
  repeat' split
  all_goals first | exact .inl ⟨rfl, rfl⟩ | exact .inr ⟨rfl, rfl⟩

theorem prepare_path : (w.prepare f d).1.path = w.path := by
  unfold prepare
  repeat' split
  all_goals rfl

/-- Releasing a writer removes its file only. -/
theorem release_contents {n : ℕ} (h : w.path ≠ some n) :
    (w.release f).1.contents n = f.contents n ∧ (w.release f).1.next = f.next := by
  unfold release
  split
  · rename_i m hm
    have hne : n ≠ m := fun hnm => h (hnm ▸ hm)
    exact ⟨update_of_ne hne _ _, rfl⟩
  · exact ⟨rfl, rfl⟩

theorem abort_contents {n : ℕ} (h : w.path ≠ some n) :
    (w.abort f).1.1.contents n = f.contents n := by
  unfold abort
  split
  · rfl
  · split
    · rename_i m hm
      have hne : n ≠ m := fun hnm => h (hnm ▸ hm)
      refine (release_contents (w := { w with file := none }) h).1.trans ?_
      exact update_of_ne hne _ _
    · exact (release_contents (w := { w with file := none }) h).1

theorem abort_object (h : w.released = false) :
    (w.abort f).1.2 = { released := true } ∧ (w.abort f).1.1.next = f.next := by
  unfold abort release
  rw [h, if_neg Bool.false_ne_true]
  cases w.path <;> exact ⟨rfl, rfl⟩

end Pooled

/-- The temporary files that the objects have names for were made, for one object each. -/
structure Named (objs : ℕ → Pooled) (next : ℕ) : Prop where
  made : ∀ o n, (objs o).path = some n → n < next
  apart : ∀ o o' n, (objs o).path = some n → (objs o').path = some n → o = o'

variable {w : Pooled}

/-- An object changes: its file is gone, the same as before, or a new one. -/
theorem Named.set {objs : ℕ → Pooled} {next next' o : ℕ} (h : Named objs next)
    (hnext : next ≤ next')
    (hw : w.path = none ∨ w.path = (objs o).path ∨ w.path = some next ∧ next < next') :
    Named (update objs o w) next' := by
  have hpath : ∀ o' n, (update objs o w o').path = some n →
      (objs o').path = some n ∨ o' = o ∧ n = next ∧ next < next' := by
    intro o' n hn
    rw [update_apply] at hn
    split_ifs at hn with ho
    · subst ho
      rcases hw with hw | hw | ⟨hw, hlt⟩
      · simp [hw] at hn
      · exact .inl (hw ▸ hn)
      · exact .inr ⟨rfl, by simpa [hw] using hn.symm, hlt⟩
    · exact .inl hn
  constructor
  · intro o' n hn
    rcases hpath o' n hn with hn | ⟨-, rfl, hlt⟩
    · exact (h.made o' n hn).trans_le hnext
    · exact hlt
  · intro o₁ o₂ n h₁ h₂
    rcases hpath o₁ n h₁ with hn₁ | ⟨ho₁, hn₁, -⟩ <;> rcases hpath o₂ n h₂ with hn₂ | ⟨ho₂, hn₂, -⟩
    · exact h.apart o₁ o₂ n hn₁ hn₂
    · exact absurd (h.made o₁ n hn₁) (hn₂ ▸ Nat.lt_irrefl _)
    · exact absurd (h.made o₂ n hn₂) (hn₁ ▸ Nat.lt_irrefl _)
    · exact ho₁.trans ho₂.symm

namespace State

variable {a : App} {s s' : State} {t o : ℕ} {x : Phase}

/-- The object of every transfer. -/
def owner (s : State) (t : ℕ) : Option ℕ := (s.phase t).object

/-- What holds as long as all steps meet the condition. -/
structure Inv (s : State) : Prop where
  pool : Pool.Sound s.owner s.pool s.made
  resting : ∀ o ∈ s.pool, s.objs o = { released := true }
  late : ∀ t o, (s.phase t).outstanding = some o →
    (s.objs o).released = true ∧ o < s.made ∧ ∀ t', s.owner t' ≠ some o
  named : Named s.objs s.files.next

theorem inv_init : Inv {} where
  pool := ⟨nofun, nofun, nodup_nil, nofun, nofun⟩
  resting := nofun
  late := nofun
  named := ⟨nofun, nofun⟩

theorem object_update (t' : ℕ) :
    (update s.phase t x t').object = if t' = t then x.object else s.owner t' := by
  rw [update_apply]
  split_ifs <;> rfl

theorem owner_setPhase (t' : ℕ) :
    (s.setPhase t x).owner t' = if t' = t then x.object else s.owner t' :=
  object_update t'

/-- A transfer goes on with its object, or without. -/
theorem Inv.setPhase (h : s.Inv) (hx : ∀ o, x.object = some o → s.owner t = some o)
    (hlate : ∀ o, x.outstanding = some o → (s.phase t).outstanding = some o ∨
      x.object = none ∧ s.owner t = some o ∧ (s.objs o).released = true) :
    (s.setPhase t x).Inv := by
  have howner : ∀ t' o, (s.setPhase t x).owner t' = some o → s.owner t' = some o := by
    intro t' o ho
    rw [owner_setPhase] at ho
    split_ifs at ho with htt
    · exact htt ▸ hx o ho
    · exact ho
  refine ⟨h.pool.hand t t fun t' o ho => ?_, h.resting, fun t' o ht' => ?_, h.named⟩
  · by_cases htt : t' = t
    · exact .inl ⟨htt, htt ▸ howner t' o ho⟩
    · exact .inr ⟨htt, howner t' o ho⟩
  · simp only [State.setPhase, update_apply] at ht'
    have hold : (s.phase t').outstanding = some o → (s.objs o).released = true ∧ o < s.made ∧
        ∀ t'', (s.setPhase t x).owner t'' ≠ some o := fun hlate' => by
      obtain ⟨hr, hm, hno⟩ := h.late t' o hlate'
      exact ⟨hr, hm, fun t'' ho => hno t'' (howner t'' o ho)⟩
    split_ifs at ht' with htt
    · subst htt
      rcases hlate o ht' with hlate | ⟨hnone, ho, hr⟩
      · exact hold hlate
      · -- the transfer was the only one to use the object
        refine ⟨hr, h.pool.known t' o ho, fun t'' ho'' => ?_⟩
        have heq := h.pool.single t'' t' o (howner t'' o ho'') ho
        rw [owner_setPhase, if_pos heq, hnone] at ho''
        cases ho''
    · exact hold ht'

/-- The object of a transfer changes. -/
theorem Inv.setObj (h : s.Inv) (ht : s.owner t = some o) {f : Files} (hnext : s.files.next ≤ f.next)
    (hw : w.path = none ∨ w.path = (s.objs o).path ∨
      w.path = some s.files.next ∧ s.files.next < f.next) : (s.setObj o f w).Inv := by
  refine ⟨h.pool, fun o' ho' => ?_, fun t' o' ht' => ?_, h.named.set hnext hw⟩
  · have hne : o' ≠ o := fun ho => h.pool.apart t o ht (ho ▸ ho')
    simpa [State.setObj, update_of_ne hne] using h.resting o' ho'
  · obtain ⟨hr, hm, hno⟩ := h.late t' o' ht'
    have hne : o' ≠ o := fun ho => hno t (ho ▸ ht)
    exact ⟨by simpa [State.setObj, update_of_ne hne] using hr, hm, hno⟩

/-- A transfer gives its object back. -/
theorem Inv.giveBack (h : s.Inv) (ht : s.owner t = some o) (f : Files)
    (hnext : f.next = s.files.next) (hx : x.object = none)
    (hlate : ∀ o', x.outstanding = some o' → o' = o) :
    Inv (({ s.setObj o f { released := true } with pool := s.pool ++ [o] } : State).setPhase t
      x) := by
  have howner : ∀ t' o', (if t' = t then x.object else s.owner t') = some o' →
      s.owner t' = some o' ∧ o' ≠ o := by
    intro t' o' ho
    split_ifs at ho with htt
    · simp [hx] at ho
    · refine ⟨ho, fun heq => htt ?_⟩
      exact h.pool.single t' t o (heq ▸ ho) ht
  refine ⟨?_, fun o' ho' => ?_, fun t' o' ht' => ?_, ?_⟩
  · refine h.pool.giveBack (nodup_singleton o) (fun b hb => ?_) fun t' o' ho => ?_
    · exact ⟨t, by rwa [mem_singleton.1 hb]⟩
    · rw [owner_setPhase] at ho
      simpa using howner t' o' ho
  · simp only [State.setPhase, State.setObj, update_apply]
    split_ifs with ho
    · rfl
    · refine h.resting o' ?_
      simpa [State.setPhase, ho] using ho'
  · simp only [State.setPhase, State.setObj, update_apply] at ht' ⊢
    have hno : ∀ b, (∀ t'', s.owner t'' = some b → t'' = t) → ∀ t'', (({ s.setObj o f
        { released := true } with pool := s.pool ++ [o] } : State).setPhase t x).owner t'' ≠
          some b := by
      intro b hb t'' ho
      rw [owner_setPhase] at ho
      obtain ⟨hold, -⟩ := howner t'' b ho
      rw [if_pos (hb t'' hold), hx] at ho
      cases ho
    split_ifs at ht' with htt
    · obtain rfl := hlate o' ht'
      exact ⟨by simp, h.pool.known t o' ht, hno o' fun t'' ho => h.pool.single t'' t o' ho ht⟩
    · obtain ⟨hr, hm, hfree⟩ := h.late t' o' ht'
      refine ⟨?_, hm, hno o' fun t'' ho => absurd ho (hfree t'')⟩
      split_ifs
      · rfl
      · exact hr
  · exact h.named.set hnext.ge (.inl rfl)

/-- Aborts that are outstanding, when a transfer takes an object that they are not about. -/
theorem Inv.late_take (h : s.Inv) (ho : ∀ t, (s.phase t).outstanding ≠ some o) {t' o' : ℕ}
    (ht' : (update s.phase t (.writing o) t').outstanding = some o') :
    (update s.objs o w o').released = true ∧ o' < s.made ∧
      ∀ t'', (update s.phase t (.writing o) t'').object ≠ some o' := by
  rw [update_apply] at ht'
  split_ifs at ht'
  · cases ht'
  obtain ⟨hr, hm, hno⟩ := h.late t' o' ht'
  have hne : o' ≠ o := fun heq => ho t' (heq ▸ ht')
  refine ⟨by rwa [update_of_ne hne], hm, fun t'' hobj => ?_⟩
  rw [object_update] at hobj
  split_ifs at hobj
  · exact hne (Option.some.inj hobj).symm
  · exact hno t'' hobj

/-- Who has an object after a transfer has taken one. -/
theorem owner_take {t' o' : ℕ} (h : (update s.phase t (.writing o) t').object = some o') :
    t' = t ∧ o' = o ∨ s.owner t' = some o' := by
  rw [object_update] at h
  split_ifs at h with htt
  · exact .inl ⟨htt, (Option.some.inj h).symm⟩
  · exact .inr h

theorem Inv.make (h : s.Inv) (i : Info) :
    Inv { (s.setObj s.made s.files (({} : Pooled).acquire a i)).setPhase t (.writing s.made) with
      made := s.made + 1 } := by
  refine ⟨h.pool.make (a := t) fun _ _ => owner_take, fun o' ho' => ?_, fun t' o' ht' => ?_,
    h.named.set le_rfl (.inl rfl)⟩
  · have hne : o' ≠ s.made := (h.pool.free_known o' ho').ne
    simpa [State.setPhase, State.setObj, update_of_ne hne] using h.resting o' ho'
  · have hnew : ∀ t, (s.phase t).outstanding ≠ some s.made := fun t ht =>
      absurd (h.late t _ ht).2.1 (Nat.lt_irrefl _)
    obtain ⟨hr, hm, hno⟩ := h.late_take hnew ht'
    exact ⟨hr, hm.trans (Nat.lt_succ_self _), hno⟩

theorem Inv.acquire (h : s.Inv) (ho : o ∈ s.pool) (hc : ∀ t, (s.phase t).outstanding ≠ some o)
    (i : Info) :
    Inv { (s.setObj o s.files ((s.objs o).acquire a i)).setPhase t (.writing o) with
      pool := s.pool.erase o } := by
  refine ⟨h.pool.take (a := t) ho fun _ _ => owner_take, fun o' ho' => ?_,
    fun t' o' ht' => h.late_take hc ht', h.named.set le_rfl (.inr (.inl rfl))⟩
  have hne : o' ≠ o := fun heq => h.pool.nodup.not_mem_erase (heq ▸ ho')
  simpa [State.setPhase, State.setObj, update_of_ne hne] using
    h.resting o' (mem_of_mem_erase ho')

/-- Every step that meets the condition keeps the invariant. -/
theorem Inv.exec (h : s.Inv) {e : Event} (hc : Careful s e) (hs : exec a s e = some s') :
    s'.Inv := by
  have howner : ∀ {t o}, s.phase t = .writing o → s.owner t = some o := fun ht => by
    simp [State.owner, ht, Phase.object]
  cases e with
  | make t i =>
    simp only [Spool.exec] at hs
    split at hs
    · obtain rfl := Option.some.inj hs
      exact h.make i
    · cases hs
  | acquire t o i =>
    simp only [Spool.exec] at hs
    split at hs
    · split_ifs at hs with ho
      obtain rfl := Option.some.inj hs
      exact h.acquire ho hc i
    · cases hs
  | forget o =>
    obtain rfl := Option.some.inj hs
    exact ⟨h.pool.forget o, fun o' ho' => h.resting o' (mem_of_mem_erase ho'), h.late,
      h.named⟩
  | write t d p =>
    simp only [Spool.exec] at hs
    split at hs
    · rename_i o ht
      obtain rfl := Option.some.inj hs
      rcases Pooled.write_path (w := s.objs o) (f := s.files) (d := d) (p := p) with
        ⟨hn, hp⟩ | ⟨hn, hp⟩
      · exact h.setObj (howner ht) hn.ge (.inr (.inl hp))
      · exact h.setObj (howner ht) (by omega) (.inr (.inr ⟨hp, by omega⟩))
    · cases hs
  | close t d =>
    simp only [Spool.exec] at hs
    split at hs
    · rename_i o ht
      have hobj : ((s.setObj o s.files ((s.objs o).prepare s.files d).1).setPhase t
          (.closing o false)).Inv := by
        refine (h.setObj (howner ht) le_rfl (.inr (.inl Pooled.prepare_path))).setPhase ?_ nofun
        rintro o' ⟨⟩
        exact howner ht
      split_ifs at hs with hr
      · obtain rfl := Option.some.inj hs
        refine h.setPhase nofun fun o' ho' => .inr ⟨rfl, ?_⟩
        obtain rfl := Option.some.inj ho'
        exact ⟨howner ht, hr⟩
      · split at hs <;> rename_i hprep <;> obtain rfl := Option.some.inj hs <;>
          rw [hprep] at hobj <;> exact { hobj with }
    · cases hs
  | timeout t =>
    simp only [Spool.exec] at hs
    split at hs
    · rename_i o late ht
      obtain rfl := Option.some.inj hs
      refine h.setPhase ?_ nofun
      rintro o' ⟨⟩
      simp [State.owner, ht, Phase.object]
    · rename_i o ht
      obtain rfl := Option.some.inj hs
      exact h.setPhase nofun fun o' ho' => .inl (by rw [ht]; exact ho')
    · cases hs
  | release t =>
    simp only [Spool.exec] at hs
    split at hs
    · rename_i o late ht
      obtain rfl := Option.some.inj hs
      refine h.giveBack (o := o) (by simp [State.owner, ht, Phase.object]) _ ?_ ?_ ?_
      · unfold Pooled.release
        split <;> rfl
      · cases late <;> rfl
      · cases late <;> exact fun o' ho' => (Option.some.inj ho').symm
    · cases hs
  | result t =>
    simp only [Spool.exec] at hs
    split at hs
    · obtain rfl := Option.some.inj hs
      exact h.setPhase nofun nofun
    · cases hs
  | abort t =>
    simp only [Spool.exec] at hs
    split at hs
    · rename_i o ht
      obtain rfl := Option.some.inj hs
      unfold State.abort
      split
      · exact h.setPhase nofun nofun
      · rename_i hr
        obtain ⟨hobj, hnext⟩ := Pooled.abort_object (f := s.files) (by simpa using hr)
        rw [hobj]
        exact h.giveBack (howner ht) _ hnext rfl nofun
    · cases hs
  | lateAbort t =>
    simp only [Spool.exec] at hs
    split at hs
    · rename_i o ht
      obtain rfl := Option.some.inj hs
      unfold State.abort
      rw [if_pos (h.late t o (by rw [ht]; rfl)).1]
      exact h.setPhase nofun nofun
    · cases hs

theorem inv_careful (h : Relation.ReflTransGen (CarefulStep a) {} s) : s.Inv :=
  Run.invariant Inv inv_init (fun _ _ hi ⟨_, hc, hs⟩ => hi.exec hc hs) h

/-- What another transfer uses, before and after a step: its object, with what is in memory, and the
    contents of its file; the object is not put into the pool, and nothing is emitted from it. -/
structure Untouched (o : ℕ) (s s' : State) : Prop where
  obj : s'.objs o = s.objs o
  file : ∀ n, (s.objs o).path = some n → s'.files.contents n = s.files.contents n
  pool : o ∈ s'.pool → o ∈ s.pool
  emitted : ∀ x ∈ s'.emitted, x ∈ s.emitted ∨ x.2.1 ≠ o

/-- A step that changes another object, and the files that the one in question has not. -/
theorem untouched_other {o' : ℕ} (hne : o ≠ o') {f : Files} {phase : ℕ → Phase} {pool : List ℕ}
    {emitted : List (ℕ × ℕ × Context)}
    (hf : ∀ n, (s.objs o).path = some n → f.contents n = s.files.contents n)
    (hpool : o ∈ pool → o ∈ s.pool) (hem : ∀ x ∈ emitted, x ∈ s.emitted ∨ x.2.1 ≠ o) :
    Untouched o s ⟨update s.objs o' w, s.made, pool, f, phase, emitted⟩ :=
  ⟨update_of_ne hne _ _, hf, hpool, hem⟩

end State

/-- The steps of `Close` and `Abort` on behalf of a transfer, the late one included. -/
def Event.ends (t : ℕ) : Event → Prop
  | .close t' _ | .release t' | .abort t' | .lateAbort t' => t' = t
  | _ => False

/-- In every run in which no object is acquired while an earlier transfer has still to receive
    the result of closing it, or to abort it: whatever `Close` or `Abort`, also the late one after
    a commit timeout, does on behalf of a transfer, the writer that another transfer uses is not
    touched. -/
theorem late_abort_harmless (a : App) (s s' : State) (e : Event) (t t' o : ℕ)
    (hrun : Relation.ReflTransGen (CarefulStep a) {} s) (he : e.ends t)
    (hs : exec a s e = some s') (ht' : t' ≠ t) (ho : (s.phase t').object = some o) :
    s'.objs o = s.objs o ∧
      (∀ n, (s.objs o).path = some n → s'.files.contents n = s.files.contents n) ∧
      o ∉ s'.pool ∧ ∀ x ∈ s'.emitted, x ∈ s.emitted ∨ x.2.1 ≠ o := by
  have h := State.inv_careful hrun
  have hpool : o ∉ s.pool := h.pool.apart t' o ho
  suffices hu : State.Untouched o s s' from
    ⟨hu.obj, hu.file, fun hp => hpool (hu.pool hp), hu.emitted⟩
  have hsame : ∀ x, State.Untouched o s (s.setPhase t x) := fun x =>
    ⟨rfl, fun _ _ => rfl, id, fun _ => .inl⟩
  -- the object of the transfer that ends is another one, and so is its file
  have hother : ∀ o', (s.phase t).object = some o' → o ≠ o' ∧
      ∀ n, (s.objs o).path = some n → (s.objs o').path ≠ some n := by
    intro o' ho'
    have hne : o ≠ o' := fun heq => ht' (h.pool.single t' t o ho (heq ▸ ho'))
    exact ⟨hne, fun n hn hn' => hne (h.named.apart o o' n hn hn')⟩
  cases e with
  | close t₁ d =>
    obtain rfl : t₁ = t := he
    simp only [exec] at hs
    split at hs
    · rename_i o' ht
      obtain ⟨hne, -⟩ := hother o' (by rw [ht]; rfl)
      split_ifs at hs
      · obtain rfl := Option.some.inj hs
        exact hsame _
      · split at hs <;> obtain rfl := Option.some.inj hs
        · refine State.untouched_other hne (fun _ _ => rfl) id fun x hx => ?_
          rcases mem_append.1 hx with hx | hx
          · exact .inl hx
          · obtain rfl := mem_singleton.1 hx
            exact .inr hne.symm
        · exact State.untouched_other hne (fun _ _ => rfl) id fun _ => .inl
    · cases hs
  | release t₁ =>
    obtain rfl : t₁ = t := he
    simp only [exec] at hs
    split at hs
    · rename_i o' late ht
      obtain ⟨hne, hpath⟩ := hother o' (by rw [ht]; rfl)
      obtain rfl := Option.some.inj hs
      refine State.untouched_other hne (fun n hn => ?_) (fun hp => ?_) fun _ => .inl
      · exact (Pooled.release_contents (hpath n hn)).1
      · simpa [State.release, hne] using hp
    · cases hs
  | abort t₁ =>
    obtain rfl : t₁ = t := he
    simp only [exec] at hs
    split at hs
    · rename_i o' ht
      obtain ⟨hne, hpath⟩ := hother o' (by rw [ht]; rfl)
      obtain rfl := Option.some.inj hs
      unfold State.abort
      split
      · exact hsame _
      · refine State.untouched_other hne (fun n hn => ?_) (fun hp => ?_) fun _ => .inl
        · exact Pooled.abort_contents (hpath n hn)
        · simpa [hne] using hp
    · cases hs
  | lateAbort t₁ =>
    obtain rfl : t₁ = t := he
    simp only [exec] at hs
    split at hs
    · rename_i o' ht
      obtain rfl := Option.some.inj hs
      -- the object is in the pool, and refuses
      unfold State.abort
      rw [if_pos (h.late _ o' (by rw [ht]; rfl)).1]
      exact hsame _
    · cases hs
  | _ => exact he.elim

/-- A sequence of events. -/
def play (a : App) : State → List Event → Option State
  | s, [] => some s
  | s, e :: es => (exec a s e).bind (play a · es)

/-- The run of two transfers: the first one closes slowly and is to be aborted late, the second
    one acquires its object. -/
def lateRun : List Event :=
  [.make 0 {}, .write 0 {} [1], .close 0 {}, .timeout 0, .release 0, .acquire 1 0 {},
    .write 1 {} [2]]

/-- The late abort discards what the second transfer has written, and puts the object that it
    uses into the pool. -/
theorem late_abort_discards :
    let a : App := { compiled := fun _ => none, onNotFound := none, maxMemoryBody := 4 }
    ∃ s s', play a {} lateRun = some s ∧ exec a s (.lateAbort 0) = some s' ∧
      s.phase 1 = .writing 0 ∧ (s.objs 0).memory = [2] ∧ (s.objs 0).released = false ∧
      s'.phase 1 = .writing 0 ∧ (s'.objs 0).memory = [] ∧ (s'.objs 0).released = true ∧
      s'.pool = [0] :=
  ⟨_, _, rfl, rfl, rfl, rfl, rfl, rfl, rfl, rfl, rfl⟩

/-- The timeout may come after the release, too: the result of `Close` is not yet there. -/
example : play { compiled := fun _ => none, onNotFound := none, maxMemoryBody := 4 } {}
    [.make 0 {}, .close 0 {}, .release 0, .acquire 1 0 {}, .timeout 0, .lateAbort 0] ≠ none :=
  nofun

/-- The third transfer acquires the object whose first user has received its result. The second
    one has released another object and times out; the abort that follows does nothing. -/
theorem late_abort_harmless_acquired :
    let a : App := { compiled := fun _ => none, onNotFound := none, maxMemoryBody := 4 }
    ∃ s s', play a {} [.make 0 {}, .close 0 {}, .release 0, .result 0, .make 1 {}, .close 1 {},
        .release 1, .acquire 2 0 {}, .timeout 1, .write 2 {} [2]] = some s ∧
      exec a s (.lateAbort 1) = some s' ∧ s.pool = [1] ∧ (s.objs 0).memory = [2] ∧
      s'.objs 0 = s.objs 0 := by
  intro a
  refine ⟨_, _, rfl, rfl, rfl, rfl, ?_⟩
  refine (late_abort_harmless a _ _ (.lateAbort 1) 1 2 0 ?_ rfl rfl (by decide) rfl).1
  refine .head ⟨.make 0 {}, trivial, rfl⟩ <| .head ⟨.close 0 {}, trivial, rfl⟩ <|
    .head ⟨.release 0, trivial, rfl⟩ <| .head ⟨.result 0, trivial, rfl⟩ <|
    .head ⟨.make 1 {}, trivial, rfl⟩ <| .head ⟨.close 1 {}, trivial, rfl⟩ <|
    .head ⟨.release 1, trivial, rfl⟩ <| .head ⟨.acquire 2 0 {}, fun t => ?_, rfl⟩ <|
    .head ⟨.timeout 1, trivial, rfl⟩ <| .head ⟨.write 2 {} [2], trivial, rfl⟩ .refl
  match t with
  | 0 => exact nofun
  | 1 => exact nofun
  | t + 2 => exact nofun

end Etp.Application.Spool
