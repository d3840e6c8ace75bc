import Etp.Session.Inventory

/-!
# The closed state

Whether a closed session stays closed. The state is stored without a look at it by
many procedures, so that one of them which is under way when the session is closed,
or `SendGoAway` called afterwards, takes it out of the closed state again
(`closed_left`).

* `inert_code`: a procedure that is called in a closed session leaves it closed, with
  the exception of `SendGoAway`;
* `prepared_code`: the closed state is only stored after the send queue is closed, so
  that no frame is sent afterwards, and what has stored it leaves it alone;
* `closed_terminal`: the closed state is final in every run in which it is stored
  while no other goroutine is about to store another one, and after which `SendGoAway`
  is not called and the transport closes without an error.
-/

namespace Etp.Session

open Threads Relation

variable {cfg : Config} {codec : Codec}

/-! ## What leaves the closed state alone -/

/-- Watches a program in a session that is closed: it finds the closed state, its
    frames are not sent and the transport closes without an error. It must not store
    another state, nor start what does. -/
@[simps] def closedMonitor : Monitor Op Op.Res Unit where
  ok _ o :=
    match o with
    | .store s => s = .closed
    | .goFinishPeerClose _ _ | .goFinishPeerDrain _ _ => False
    | _ => True
  may _ o r :=
    match o, r with
    | .load, r => r = .closed
    | .lookAuth, r => r = .closed
    | .beginLocalClose _, r => r = false
    | .beginPeerClose _, r => r = false
    | .send _, r => r ≠ none
    | .sendAndWait _, r => r ≠ none
    | .closeTransport, r => r = none
    | _, _ => True
  next _ _ _ := ()

/-- The program does nothing to a closed session any more. -/
def Inert {α : Type} (p : M α) : Prop := p.Always closedMonitor (fun _ _ => True) ()

/-- A procedure that is called in a closed session does nothing to it, with the
    exception of `SendGoAway`. -/
theorem inert_code {p : Proc} (hp : p.callable = true)
    (hgo : ∀ flags message, p ≠ .sendGoAway flags message) : Inert (code cfg codec p) := by
  cases p with
  | run => cases hp
  | finishPeerClose => cases hp
  | finishPeerDrain => cases hp
  | sendGoAway flags message => exact absurd rfl (hgo flags message)
  | closeWith m => simp +contextual [Inert, code, closeWith, closeLocked, always_requireCap]
  | authenticate => simp [Inert, code, authenticate]
  | acceptAuth => simp [Inert, code, acceptAuth]
  | rejectAuth => simp [Inert, code, rejectAuth]
  | sendHello => simp [Inert, code, sendHello]
  | sendHelloAck => simp +contextual [Inert, code, sendHelloAck]
  | sendApp => simp [Inert, code, sendApp]
  | transfers => simp [Inert, code]
  | heartbeat => simp [Inert, code, heartbeat]
  | authTimeout => simp [Inert, code, authTimeout]
  | writerFailure => simp [Inert, code, handleWriterFailure]

theorem inert_run : Inert (run cfg codec) := by
  refine (always_run cfg codec).mpr ⟨trivial, fun e _ => ?_, fun f _ => ?_⟩
  · simp [connectionLost]
  · simp [runFrame]

/-! ## How the closed state is stored -/

/-- The operations that may make the state closed. -/
def Op.closes : Op → Bool
  | .store s | .beginLocalClose s | .beginPeerClose s => s == .closed
  | _ => false

/-- How far a procedure has come: the send queue may be open, it is closed, and the
    procedure has stored the closed state. -/
inductive Stage
  | queueOpen
  | queueClosed
  | stored

/-- The stage at which a procedure starts: without a send queue there is none to close. -/
def Stage.start : Bool → Stage
  | true => .queueOpen
  | false => .queueClosed

/-- Watches that the closed state is only stored, only after the send queue is closed,
    and that what has stored it does nothing to the closed session any more. -/
def stageMonitor : Monitor Op Op.Res Stage where
  ok g o :=
    match g with
    | .stored => closedMonitor.ok () o
    | .queueOpen => o.closes = false
    | .queueClosed => o.closes = true → o = .store .closed
  may g o r :=
    match g with
    | .stored => closedMonitor.may () o r
    | _ => True
  next g o _ :=
    match g, o with
    | .stored, _ | _, .store .closed => .stored
    | _, .closeWriter => .queueClosed
    | g, _ => g

section stageMonitor

variable {o : Op} {r : o.Res}

@[simp] theorem ok_queueOpen : stageMonitor.ok .queueOpen o ↔ o.closes = false := Iff.rfl

@[simp] theorem ok_queueClosed :
    stageMonitor.ok .queueClosed o ↔ (o.closes = true → o = .store .closed) := Iff.rfl

@[simp] theorem ok_stored : stageMonitor.ok .stored o ↔ closedMonitor.ok () o := Iff.rfl

@[simp] theorem may_queueOpen : stageMonitor.may .queueOpen o r := trivial

@[simp] theorem may_queueClosed : stageMonitor.may .queueClosed o r := trivial

@[simp] theorem may_stored : stageMonitor.may .stored o r ↔ closedMonitor.may () o r := Iff.rfl

@[simp] theorem next_stored : stageMonitor.next .stored o r = .stored := rfl

@[simp] theorem next_store {r : Unit} :
    stageMonitor.next .queueClosed (.store .closed) r = .stored := rfl

@[simp] theorem next_closeWriter {r : Unit} :
    stageMonitor.next .queueOpen .closeWriter r = .queueClosed := rfl

/-- No other operation takes a program to another stage. -/
@[simp] theorem next_other {g : Stage} (hw : o ≠ .closeWriter) (hs : o ≠ .store .closed) :
    stageMonitor.next g o r = g := by
  cases g with
  | stored => rfl
  | queueOpen | queueClosed =>
    cases o with
    | store s => cases s <;> first | rfl | exact absurd rfl hs
    | closeWriter => exact absurd rfl hw
    | _ => rfl

end stageMonitor

/-- From the stage `g` on the program stores the closed state in the order that
    `stageMonitor` watches. -/
def Prepared {α : Type} (g : Stage) (p : M α) : Prop :=
  p.Always stageMonitor (fun _ _ => True) g

/-- What has stored the closed state is inert. -/
theorem Prepared.inert {α : Type} {p : M α} (h : Prepared .stored p) : Inert p := by
  induction p with
  | ret a => trivial
  | op o k ih => exact ⟨h.1, fun r hr => ih r (h.2 r hr)⟩

/-- A program that does not close the session is at no stage out of order. -/
theorem prepared_of_only {α : Type} {S : Op → Bool} {p : M α} (h : p.Only S)
    (hS : ∀ o, S o = true → o.closes = false) {g : Stage} (hg : g ≠ .stored) : Prepared g p := by
  refine h.always (· ≠ .stored) (fun g o hg ho => ?_) (fun _ _ _ => trivial) hg
  replace ho := hS o ho
  have hnext (r : o.Res) : stageMonitor.next g o r ≠ .stored := by
    by_cases hw : o = .closeWriter
    · subst hw
      cases g <;> first | exact absurd rfl hg | exact Stage.noConfusion
    · rwa [next_other hw fun hs => by simp [hs, Op.closes] at ho]
  refine ⟨?_, fun r _ => hnext r⟩
  cases g with
  | stored => exact absurd rfl hg
  | queueOpen => exact ho
  | queueClosed => exact fun hc => absurd (ho.symm.trans hc) Bool.false_ne_true

variable {o : Op}

theorem closes_of_frameOp (h : frameOp o = true) : o.closes = false := by
  cases o with
  | store s | beginLocalClose s | beginPeerClose s => cases s <;> first | rfl | cases h
  | _ => rfl

theorem closes_of_callOp (h : callOp o = true) : o.closes = false := by
  cases o <;> simp_all [callOp, Op.closes]

theorem closes_of_goAwayOp (h : goAwayOp o = true) : o.closes = false := by
  cases o with
  | store s => cases s <;> first | rfl | cases h
  | beginLocalClose => cases h
  | beginPeerClose => cases h
  | _ => rfl

theorem only_run : (run cfg codec).Only fun o => !o.closes := by
  refine (always_run cfg codec).mpr ⟨rfl, fun e _ => ?_, fun f _ => ?_⟩
  · simp [connectionLost, Op.closes]
  · have hframe : (handleFrame cfg codec f).Only fun o => !o.closes :=
      (only_handleFrame f).mono fun o ho => by simp [closes_of_frameOp ho]
    simp only [runFrame, Prog.always_bind, Prog.always_perform, Prog.always_ite, always_ifErr]
    refine ⟨rfl, fun st _ => ⟨fun _ => trivial, fun _ => hframe.imp fun _ e _ => ?_⟩⟩
    simp [goOn, handlingFailed, Op.closes]

theorem Stage.start_ne (b : Bool) : Stage.start b ≠ .stored := by
  cases b <;> exact Stage.noConfusion

theorem prepared_closeUnsent (e : Err) : Prepared (.start cfg.sendQueue) (closeUnsent cfg e) := by
  cases hq : cfg.sendQueue <;>
    simp [Prepared, Stage.start, closeUnsent, closeUnsent.failed, waitPeerCloseDone, Op.closes, hq]

theorem prepared_closeAcked : Prepared (.start cfg.sendQueue) (closeAcked cfg) := by
  cases hq : cfg.sendQueue <;>
    simp +contextual [Prepared, Stage.start, closeAcked, closeAcked.peerFailed,
      closeAcked.transportFailed, waitPeerCloseDone, Op.closes, hq]

theorem prepared_closeLocked (m : CloseMessage) :
    Prepared (.start cfg.sendQueue) (closeLocked cfg m) := by
  have hunsent (e : Err) : Prepared (.start cfg.sendQueue) (closeUnsent cfg e) :=
    prepared_closeUnsent e
  have hacked : Prepared (.start cfg.sendQueue) (closeAcked cfg) := prepared_closeAcked
  cases hq : cfg.sendQueue <;> simp only [hq, Prepared, Stage.start] at hunsent hacked ⊢ <;>
    simp [closeLocked, closeDraining, closeImmediate, Op.closes, hq, hunsent, hacked]

theorem prepared_closeWith (m : CloseMessage) :
    Prepared (.start cfg.sendQueue) (closeWith cfg m) := by
  have hlock (g : Stage) (hg : g ≠ .stored) : stageMonitor.ok g .lockClose := by
    cases g <;> simp_all [Op.closes]
  have hunlock (g : Stage) : stageMonitor.ok g .unlockClose := by cases g <;> simp [Op.closes]
  simp only [Prepared, closeWith, Prog.perform_bind, Prog.always_op, Prog.always_bind]
  refine ⟨hlock _ (Stage.start_ne _), fun _ _ => ?_⟩
  rw [next_other Op.noConfusion Op.noConfusion]
  exact (prepared_closeLocked m).imp fun g _ _ => ⟨hunlock g, fun _ _ => trivial⟩

theorem prepared_code (p : Proc) : Prepared (.start cfg.sendQueue) (code cfg codec p) := by
  cases p with
  | run => exact prepared_of_only only_run (fun o ho => by simpa using ho) (Stage.start_ne _)
  | closeWith m => exact Prog.always_map.mpr (prepared_closeWith m)
  | finishPeerClose | finishPeerDrain =>
    cases hq : cfg.sendQueue <;>
      simp +contextual [Prepared, code, Stage.start, finishPeerClose, finishPeerDrain, finishFailed,
        Op.closes, hq]
  | sendGoAway =>
    exact prepared_of_only (only_sendGoAway.map _) (fun _ => closes_of_goAwayOp) (Stage.start_ne _)
  | _ => exact prepared_of_only (only_code rfl) (fun _ => closes_of_callOp) (Stage.start_ne _)

/-! ## Runs in which the closed state is final -/

/-- The state is made closed by nothing but `Op.closes`. -/
theorem closes_of_after {s : SessionState} (h : o.after s = .closed) (hs : s ≠ .closed) :
    o.closes = true := by
  cases o <;> cases s <;> simp_all [Op.after, Op.closes, beginLocalClose, beginPeerClose]

/-- An operation that is allowed in a closed session leaves it closed. -/
theorem after_closed (h : closedMonitor.ok () o) : o.after .closed = .closed := by
  cases o <;> simp_all [Op.after, beginLocalClose, beginPeerClose]

variable (cfg codec) in
/-- The condition on a step: the closed state is stored while no other goroutine is about to store
    another one, whatever it finds; and in the closed state `SendGoAway` is not called, the
    transport closes without an error, and no frame is sent past the send queue. -/
structure Orderly (c : (lang cfg codec).Conf) (e : (lang cfg codec).Event)
    (c' : (lang cfg codec).Conf) : Prop where
  alone : ∀ p, e = .run p (.store .closed) () → ∀ ts, Lang.Others c e c' ts → ∀ t ∈ ts, Inert t.2
  noGoAway : c.mem.state = .closed → ∀ flags message, e ≠ .call (.sendGoAway flags message)
  transport : c.mem.state = .closed → ∀ p r, e = .run p .closeTransport r → r = none
  unsent : c.mem.state = .closed → cfg.sendQueue = false → ∀ p o r,
    e = .run p (.send o) r ∨ e = .run p (.sendAndWait o) r → r ≠ none

variable (cfg codec) in
/-- The invariant: every thread has come to a stage, which tells of the send queue and
    the state; and none does anything to a closed session. -/
structure Sealed (c : (lang cfg codec).Conf) : Prop where
  prepared : ∀ t ∈ c.threads, ∃ g, Prepared g t.2 ∧
    (g ≠ .queueOpen → c.mem.writerClosed = true ∨ cfg.sendQueue = false) ∧
    (g = .stored → c.mem.state = .closed)
  closed : c.mem.state = .closed →
    (c.mem.writerClosed = true ∨ cfg.sendQueue = false) ∧ ∀ t ∈ c.threads, Inert t.2

variable {c c' : (lang cfg codec).Conf}

/-- What an operation finds in a closed session is what `closedMonitor` reckons with. -/
theorem may_of_closed {p : Proc} {r : o.Res} (horder : Orderly cfg codec c (.run p o r) c')
    (hstate : c.mem.state = .closed) (hqueue : c.mem.writerClosed = true ∨ cfg.sendQueue = false)
    (h : sem cfg o c.mem r c'.mem) : closedMonitor.may () o r := by
  have hadmits (o : Out) (hw : c.mem.writerClosed = true) (hq : ¬cfg.sendQueue = false) :
      c.mem.admits cfg o = false := by simp [Mem.admits, hw, hq]
  cases o with
  | load | lookAuth => exact h.1.trans hstate
  | beginLocalClose t => simpa [hstate, beginLocalClose] using h.1
  | beginPeerClose t => simpa [hstate, beginPeerClose] using h.1
  | closeTransport => exact horder.transport hstate p r rfl
  | send o =>
    by_cases hq : cfg.sendQueue = false
    · exact horder.unsent hstate hq p o r (.inl rfl)
    · rcases h with ⟨-, hadm, -⟩ | ⟨hr, -⟩
      · rw [hadmits o (hqueue.resolve_right hq) hq] at hadm
        cases hadm
      · exact hr
  | sendAndWait o =>
    by_cases hq : cfg.sendQueue = false
    · exact horder.unsent hstate hq p o r (.inr rfl)
    · rcases h with ⟨hadm, -⟩ | ⟨hr, -⟩
      · rw [hadmits o (hqueue.resolve_right hq) hq] at hadm
        cases hadm
      · exact hr
  | _ => trivial

variable {e : (lang cfg codec).Event}

/-- A step of a closed session leaves it closed. -/
theorem Sealed.closed_step (h : Sealed cfg codec c) (hstep : Lang.Step c e c')
    (hstate : c.mem.state = .closed) : c'.mem.state = .closed := by
  rcases hstep.memory with ⟨p, o, k, r, -, hthread, hsem⟩ | ⟨q, -, hmem⟩
  · have hok : closedMonitor.ok () o := ((h.closed hstate).2 _ hthread).1
    have hafter := sem_state hsem
    rwa [hstate, after_closed hok] at hafter
  · rwa [hmem]

theorem prepared_started {m : Mem} (q : Proc) : ∃ g, Prepared g (code cfg codec q) ∧
    (g ≠ .queueOpen → m.writerClosed = true ∨ cfg.sendQueue = false) ∧
    (g = .stored → m.state = .closed) := by
  refine ⟨_, prepared_code q, fun hg => .inr ?_, fun hg => absurd hg (Stage.start_ne _)⟩
  cases hq : cfg.sendQueue with
  | false => rfl
  | true => exact absurd (by rw [hq]; rfl) hg

/-- A send queue that is closed stays closed. -/
theorem queue_step (hstep : Lang.Step c e c')
    (h : c.mem.writerClosed = true ∨ cfg.sendQueue = false) :
    c'.mem.writerClosed = true ∨ cfg.sendQueue = false := by
  rcases hstep.memory with ⟨p, o, k, r, -, -, hsem⟩ | ⟨q, -, hmem⟩
  · exact h.imp_left (sem_writerClosed hsem)
  · rwa [hmem]

/-- What a thread has come to after an operation. -/
theorem Sealed.moved {p : Proc} {r : o.Res} {k : o.Res → M Outcome} (h : Sealed cfg codec c)
    (hstep : Lang.Step c (.run p o r) c') (horder : Orderly cfg codec c (.run p o r) c')
    (hthread : (p, Prog.op o k) ∈ c.threads) (hsem : sem cfg o c.mem r c'.mem) :
    ∃ g, Prepared g (k r) ∧
      (g ≠ .queueOpen → c'.mem.writerClosed = true ∨ cfg.sendQueue = false) ∧
      (g = .stored → c'.mem.state = .closed) := by
  obtain ⟨g, hg, hqueue, hstored⟩ := h.prepared _ hthread
  by_cases hst : g = .stored
  · subst hst
    have hclosed := hstored rfl
    have hq := (h.closed hclosed).1
    exact ⟨.stored, hg.2 r (may_of_closed horder hclosed hq hsem), fun _ => queue_step hstep hq,
      fun _ => h.closed_step hstep hclosed⟩
  have hmay : stageMonitor.may g o r := by cases g <;> first | exact absurd rfl hst | trivial
  refine ⟨_, hg.2 r hmay, ?_⟩
  by_cases hw : o = .closeWriter
  · subst hw
    refine ⟨fun _ => .inl (congrArg Mem.writerClosed hsem), fun hnext => ?_⟩
    cases g <;> first | exact absurd rfl hst | cases hnext
  by_cases hs : o = .store .closed
  · subst hs
    refine ⟨fun _ => queue_step hstep (hqueue fun hopen => ?_), fun _ => sem_state hsem⟩
    subst hopen
    cases hg.1
  · rw [next_other hw hs]
    exact ⟨fun hne => queue_step hstep (hqueue hne), fun hnext => absurd hnext hst⟩

theorem Sealed.step (h : Sealed cfg codec c) (hstep : Lang.Step c e c')
    (horder : Orderly cfg codec c e c') : Sealed cfg codec c' := by
  refine ⟨fun t ht => ?_, fun hstate => ?_⟩
  · rcases hstep.threads ht with ht | ⟨p, o, k, r, rfl, hthread, hsem, rfl⟩ |
      ⟨p, o, k, r, q, -, -, -, -, rfl⟩ | ⟨q, -, -, -, rfl⟩
    · obtain ⟨g, hg, hqueue, hstored⟩ := h.prepared t ht
      exact ⟨g, hg, fun hne => queue_step hstep (hqueue hne),
        fun hst => h.closed_step hstep (hstored hst)⟩
    · exact h.moved hstep horder hthread hsem
    · exact prepared_started q
    · exact prepared_started q
  by_cases hold : c.mem.state = .closed
  · obtain ⟨hw, hinert⟩ := h.closed hold
    refine ⟨queue_step hstep hw, fun t ht => ?_⟩
    rcases hstep.threads ht with ht | ⟨p, o, k, r, rfl, hthread, hsem, rfl⟩ |
      ⟨p, o, k, r, q, -, hthread, -, hfork, rfl⟩ | ⟨q, rfl, hcall, -, rfl⟩
    · exact hinert t ht
    · exact (hinert _ hthread).2 r (may_of_closed horder hold hw hsem)
    · -- a closed session starts nothing but the next turn of `Run`
      have hok : closedMonitor.ok () o := (hinert _ hthread).1
      cases o with
      | again =>
        cases hfork
        exact inert_run
      | goFinishPeerClose => exact hok.elim
      | goFinishPeerDrain => exact hok.elim
      | _ => cases hfork
    · exact inert_code hcall fun flags message heq =>
        horder.noGoAway hold flags message (by rw [heq])
  · -- the state has just been stored: by a thread that is inert afterwards, as the others are
    rcases hstep.memory with ⟨p, o, _, r, rfl, -, hsem⟩ | ⟨q, -, hmem⟩
    · have hcloses := closes_of_after ((sem_state hsem).symm.trans hstate) hold
      obtain ⟨ts, k, hothers, hthread, hafter⟩ := hstep.others
      obtain ⟨g, hg, hqueue, hstored⟩ := h.prepared _ hthread
      cases g with
      | stored => exact absurd (hstored rfl) hold
      | queueOpen => exact absurd (hg.1.symm.trans hcloses) Bool.false_ne_true
      | queueClosed =>
        obtain rfl := hg.1 hcloses
        refine ⟨queue_step hstep (hqueue Stage.noConfusion), fun t ht => ?_⟩
        rcases hafter t ht with rfl | ht | ⟨q, hfork, rfl⟩
        · exact Prepared.inert (hg.2 () trivial)
        · exact horder.alone p rfl ts hothers t ht
        · cases hfork
    · exact absurd (hmem ▸ hstate) hold

theorem sealed_running (negotiated : Option ℕ) :
    Sealed cfg codec (running cfg codec (newSession cfg negotiated)) := by
  refine ⟨List.forall_mem_singleton.mpr (prepared_started .run), fun hstate => ?_⟩
  have hnew : (newSession cfg negotiated).state = .closed := hstate
  rcases newSession_state cfg negotiated with h | h <;> rw [h] at hnew <;> cases hnew

/-- In a run of orderly steps the closed state is final: in every state after one in
    which the session is closed it is closed. -/
theorem closed_terminal {negotiated : Option ℕ} {c c' : (lang cfg codec).Conf}
    (hrun : ReflTransGen (Lang.StepIf (Orderly cfg codec))
      (running cfg codec (newSession cfg negotiated)) c)
    (hclosed : c.mem.state = .closed)
    (hlater : ReflTransGen (Lang.StepIf (Orderly cfg codec)) c c') : c'.mem.state = .closed := by
  have hsealed : Sealed cfg codec c :=
    Run.invariant _ (sealed_running negotiated)
      (fun _ _ h ⟨_, hstep, horder⟩ => h.step hstep horder) hrun
  have hinv : Sealed cfg codec c' ∧ c'.mem.state = .closed := by
    refine Run.invariant (fun c => Sealed cfg codec c ∧ c.mem.state = .closed)
      ⟨hsealed, hclosed⟩ ?_ hlater
    rintro c c' ⟨h, hstate⟩ ⟨e, hstep, horder⟩
    exact ⟨h.step hstep horder, h.closed_step hstep hstate⟩
  exact hinv.2

/-- A `CloseWith` that waits for its acknowledgement in vain, up to the moment before
    it stores the closed state. -/
def closeMoves : List (Lang.Move (lang {} default) Env) :=
  .call (.closeWith {}) :: .run 1 {} :: .run 1 {} :: .run 1 {} :: .run 1 {} :: .run 1 {} ::
    .run 1 {} :: .run 1 { flag := false } :: [.run 1 {}]

/-- `SendGoAway` in a session whose `CloseWith` ends. -/
def goAwayMoves : List (Lang.Move (lang {} default) Env) :=
  [.run 1 {}, .run 1 {}, .call (.sendGoAway 0 ""), .run 2 {}]

theorem closed_left : ∃ c c' : (lang {} default).Conf,
    ReflTransGen (Lang.StepIf Lang.free) (running {} default (newSession {} none)) c ∧
      c.mem.state = .closed ∧ ReflTransGen (Lang.StepIf Lang.free) c c' ∧
        c'.mem.state = .closing := by
  have hplay : ∃ c, Lang.play (answer {}) (fun _ _ _ => true) (closeMoves ++ [.run 1 {}])
      (running {} default (newSession {} none)) = some c ∧ c.mem.state = .closed ∧
      ∃ c', Lang.play (answer {}) (fun _ _ _ => true) goAwayMoves c = some c' ∧
        c'.mem.state = .closing := ⟨_, rfl, rfl, _, rfl, rfl⟩
  obtain ⟨c, hc, hclosed, c', hc', hleft⟩ := hplay
  exact ⟨c, c', Lang.play_run answer_sem (fun _ _ _ _ => trivial) hc, hclosed,
    Lang.play_run answer_sem (fun _ _ _ _ => trivial) hc', hleft⟩

/-- A step that cannot take a session out of the closed state. -/
def harmless (_ : (lang {} default).Conf) (e : (lang {} default).Event)
    (_ : (lang {} default).Conf) : Bool :=
  match e with
  | .run _ (.store s) _ => s != .closed
  | .run _ .closeTransport r => Option.isNone r
  | .call (.sendGoAway _ _) => false
  | _ => true

theorem orderly_of_harmless {c c' : (lang {} default).Conf} {e : (lang {} default).Event}
    (h : harmless c e c' = true) : Orderly {} default c e c' := by
  refine ⟨fun p he => ?_, fun _ flags message he => ?_, fun _ p r he => ?_, fun _ hq => nomatch hq⟩
  · subst he
    cases h
  · subst he
    cases h
  · subst he
    exact Option.isNone_iff_eq_none.mp h

/-- The closed state is stored by a `CloseWith` that waited for its acknowledgement in
    vain, while `Run` waits for a frame. -/
theorem stored_closed : ∃ c, Lang.play (answer {}) harmless closeMoves
      (running {} default (newSession {} none)) = some c ∧
    (∃ q, c.threads = [(Proc.run, run {} default), q]) ∧
    ∃ c₁, Lang.move (answer {}) c (.run 1 {}) =
        some (.run (.closeWith {}) (.store .closed) (), c₁) ∧
      c₁.mem.state = .closed ∧ c₁.mem.tClosed = false ∧
      ∃ c₂, Lang.play (answer {}) harmless [.run 1 {}, .run 1 {}] c₁ = some c₂ ∧
        c₂.mem.tClosed = true :=
  ⟨_, rfl, ⟨_, rfl⟩, _, rfl, rfl, rfl, _, rfl, rfl⟩

/-- `Run` is inert before its next frame, so that what else there is may store the closed state. -/
theorem orderly_of_pair {c c' : (lang {} default).Conf} {m : CloseMessage}
    {q : (lang {} default).Thread} (h : c.threads = [(Proc.run, run {} default), q]) :
    Orderly {} default c (.run (.closeWith m) (.store .closed) ()) c' := by
  refine ⟨fun p _ ts hts t ht => ?_, fun _ _ _ he => (nomatch he), fun _ _ _ he => (nomatch he),
    fun _ hq => (nomatch hq)⟩
  rw [hts.of_pair h Proc.noConfusion] at ht
  rw [List.mem_singleton.mp ht]
  exact inert_run

theorem closed_terminal_timeout : ∃ c c' : (lang {} default).Conf,
    c.mem.state = .closed ∧ c.mem.tClosed = false ∧ c'.mem.tClosed = true ∧
      c'.mem.state = .closed := by
  obtain ⟨c, hc, ⟨q, hpair⟩, c₁, hc₁, hclosed, hopen, c₂, hc₂, hshut⟩ := stored_closed
  have hstore : Lang.StepIf (Orderly {} default) c c₁ :=
    ⟨_, Lang.move_step answer_sem hc₁, orderly_of_pair hpair⟩
  have hbefore := Lang.play_run answer_sem (fun _ _ _ => orderly_of_harmless) hc
  have hafter := Lang.play_run answer_sem (fun _ _ _ => orderly_of_harmless) hc₂
  exact ⟨c₁, c₂, hclosed, hopen, hshut, closed_terminal (hbefore.tail hstore) hclosed hafter⟩

end Etp.Session
