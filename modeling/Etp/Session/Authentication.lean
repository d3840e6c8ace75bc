import Etp.Session.Inventory

/-!
# The verdict on an authentication

Two goroutines of a server decide on the authentication of its peer: the reader, which
handles `FrameAuth` in `HandleAuth`, and the timer of `StartAuthTimeout`. Each looks at the
state before it begins, and sends its verdict and stores the state by separate operations, so
where they meet, both may send one, and a rejected session may become an accepted one
(`verdicts_collide`).

The reader takes one frame after the other, until it has handled one with an error: `FrameAuth`,
and in the states behind the authentication also others; and the timer fires once (`Proper`).
Where neither begins while the other is at work (`Apart`), one verdict is sent at most, and a
rejection is final (`verdict_once`): then a thread knows the state of the session
(`authMonitor`).
-/

namespace Etp.Session

open Threads Relation Prog

/-- The goroutines that decide on an authentication: a turn of the reader on a frame, and
    the timer. -/
inductive AuthProc
  | frame (f : Frame)
  | timeout
  deriving DecidableEq

variable (cfg : Config) (codec : Codec)

/-- The language of the two goroutines. -/
def authLang : Lang where
  Op := Op
  Res := Op.Res
  Mem := Mem
  Proc := AuthProc
  Out := Outcome
  sem := sem cfg
  fork _ := none
  code
    | .frame f => runFrame cfg codec f
    | .timeout => .returned <$> authTimeout cfg
  callable _ := true

variable {cfg codec}

/-- A turn of the reader that is over, and after which it goes on. -/
def turned (t : (authLang cfg codec).Thread) : Bool :=
  match t with
  | (.frame _, .ret .again) => true
  | (.frame _, _) => false
  | (.timeout, _) => true

/-- A thread of the timer. -/
def isTimeout (t : (authLang cfg codec).Thread) : Bool :=
  match t.1 with
  | .timeout => true
  | .frame _ => false

/-- What starts: the reader takes a frame when it has handled the last one, and the timer fires
    once. Besides `FrameAuth` the reader takes frames in the states behind the authentication,
    other than `FrameClose`, which starts a goroutine of its own. -/
def Proper (c : (authLang cfg codec).Conf) : (authLang cfg codec).Event →
    (authLang cfg codec).Conf → Prop
  | .call (.frame f), _ => (f.header.frameType = .auth ∨
      f.header.frameType ≠ .close ∧ Trusted c.mem.state) ∧ c.threads.all turned = true
  | .call .timeout, _ => c.threads.any isTimeout = false
  | .run _ _ _, _ => True

instance (c : (authLang cfg codec).Conf) (e : (authLang cfg codec).Event)
    (c' : (authLang cfg codec).Conf) : Decidable (Proper c e c') := by
  unfold Proper
  split <;> infer_instance

/-- And nothing starts before what has been started is over. -/
def Apart (c : (authLang cfg codec).Conf) (e : (authLang cfg codec).Event)
    (c' : (authLang cfg codec).Conf) : Prop :=
  Proper c e c' ∧ ∀ q, e = .call q → ∀ t ∈ c.threads, Lang.ended t.2 = true

/-- A session on which nothing has been decided. -/
def unauthenticated (m : Mem) : (authLang cfg codec).Conf := ⟨m, []⟩

/-- A verdict. -/
def Out.verdict : Out → Bool
  | .authAccept | .authReject _ _ _ => true
  | _ => false

/-- The number of verdicts that were sent. -/
def Mem.verdicts (m : Mem) : ℕ := m.sent.countP (·.verdict)

/-! ## The monitor -/

/-- What a thread knows of the session: its state, the number of verdicts, and whether
    nothing can be sent any more. -/
structure AuthView where
  state : SessionState
  verdicts : ℕ
  shut : Bool

variable (cfg) in
/-- The view of a memory. -/
def Mem.authView (m : Mem) : AuthView :=
  ⟨m.state, m.verdicts, if cfg.sendQueue then m.writerClosed else m.tClosed⟩

variable (cfg) in
/-- Watches a thread that knows the session: a verdict is the first one, and a rejection is
    final. -/
@[simps] def authMonitor : Monitor Op Op.Res AuthView where
  ok g o :=
    match o with
    | .send out => out.verdict = true → g.shut = false → g.verdicts = 0
    | .store s => g.state = .authRejected → s = .authRejected
    | .load | .lookAuth | .rate _ | .callAuth _ | .flush | .closeWriter | .closeTransport
    | .cleanupIncoming | .failOutgoing | .again | .loadCaps | .storeRemote _ | .work _
    | .callEstablished | .putCloseAck => True
    | _ => False
  may g o r :=
    match o, r with
    | .load, r | .lookAuth, r => r = g.state
    | .send _, r => r = none → g.shut = false
    | _, _ => True
  next g o r :=
    match o, r with
    | .send out, r =>
      { g with verdicts := if r = none ∧ out.verdict = true then g.verdicts + 1 else g.verdicts }
    | .store s, _ => { g with state := s }
    | .closeWriter, _ => { g with shut := g.shut || cfg.sendQueue }
    | .closeTransport, _ => { g with shut := g.shut || !cfg.sendQueue }
    | _, _ => g

/-- The states in which neither goroutine decides any more. -/
def SessionState.judged : SessionState → Bool
  | .new | .authPending | .failed => false
  | _ => true

/-- A session on which at most one verdict was sent; where there was one, the state says so,
    or nothing can be sent. -/
structure Decided (g : AuthView) : Prop where
  verdicts_le : g.verdicts ≤ 1
  settled : g.verdicts ≠ 0 → g.shut = true ∨ SessionState.judged g.state = true

/-- Nothing was sent, or nothing can be sent. -/
def AuthView.Open (g : AuthView) : Prop := g.shut = false → g.verdicts = 0

section Programs

variable {g : AuthView}

/-- A thread leaves the session decided. -/
abbrev Decides {α : Type} (cfg : Config) (g : AuthView) (p : M α) : Prop :=
  p.Always (authMonitor cfg) (fun g _ => Decided g) g

/-- A session that is open is decided, whatever its state. -/
theorem AuthView.Open.decided (h : g.Open) (hle : g.verdicts ≤ 1) : Decided g := by
  refine ⟨hle, fun hne => .inl ?_⟩
  by_contra hshut
  exact hne (h (by simpa using hshut))

/-- A session in none of the states of a verdict is open. -/
theorem Decided.open (h : Decided g) (hstate : SessionState.judged g.state = false) : g.Open := by
  intro hshut
  by_contra hne
  rcases h.settled hne with h | h
  · exact absurd (h.symm.trans hshut) (by simp)
  · exact absurd (hstate.symm.trans h) (by simp)

/-- The end of a thread on a session that was rejected. -/
theorem Decided.rejected {shut : Bool} {n : ℕ} (hn : n ≤ 1) : Decided ⟨.authRejected, n, shut⟩ :=
  ⟨hn, fun _ => .inr rfl⟩

theorem decides_rejectAuthAndClose {status reason : ℕ} {message : String} (hopen : g.Open)
    (hle : g.verdicts ≤ 1) :
    Decides cfg g (rejectAuthAndClose cfg status reason message) := by
  have hdecided := hopen.decided hle
  simp only [Decides, rejectAuthAndClose, always_check, rejectAuth, always_ite,
    always_pure, always_send, perform_bind, always_op]
  refine ⟨fun _ => ⟨by simp, fun _ _ => hdecided⟩,
    fun _ => ⟨fun _ => hopen, fun r hr => ⟨?_, ?_⟩⟩⟩
  · -- the verdict was sent, so it is the first one
    rintro rfl
    have hzero : g.verdicts = 0 := hopen (hr rfl)
    refine ⟨fun _ => rfl, fun _ _ => ⟨fun _ => ?_, by simp⟩⟩
    have hone : (if (none : Option Err) = none ∧ (Out.authReject status reason message).verdict
        then g.verdicts + 1 else g.verdicts) ≤ 1 := by
      split <;> omega
    refine ⟨fun _ => ⟨trivial, fun e _ => ⟨fun _ => ?_, fun _ _ => .rejected hone⟩⟩, fun _ => ?_⟩
    · exact ⟨trivial, fun _ _ => ⟨trivial, fun _ _ => .rejected hone⟩⟩
    · exact ⟨trivial, fun _ _ => .rejected hone⟩
  · rintro e rfl
    simpa using hdecided

theorem decides_acceptAuth {userID : String} (hopen : g.Open) (hle : g.verdicts ≤ 1)
    (hstate : g.state ≠ .authRejected) : Decides cfg g (acceptAuth cfg userID) := by
  have hdecided := hopen.decided hle
  simp only [Decides, acceptAuth, always_ite, always_pure, always_check, always_send,
    perform_bind, always_op]
  refine ⟨fun _ => hdecided, fun _ => ⟨fun _ => hopen, fun r hr => ⟨?_, ?_⟩⟩⟩
  · rintro rfl
    have hzero : g.verdicts = 0 := hopen (hr rfl)
    exact ⟨fun h => absurd h hstate, fun _ _ =>
      ⟨by simp [Out.verdict, hzero], fun _ => .inr rfl⟩⟩
  · rintro e rfl
    simpa using hdecided

variable {f : Frame}

theorem decides_handleAuth (hopen : g.Open) (hle : g.verdicts ≤ 1)
    (hstate : g.state ≠ .authRejected) : Decides cfg g (handleAuth cfg codec f) := by
  have hreject {a b : ℕ} {s : String} : Decides cfg g (rejectAuthAndClose cfg a b s) :=
    decides_rejectAuthAndClose hopen hle
  have hreject' {a b : ℕ} {s : String} {e : Err} : Decides cfg g
      (do let _ ← rejectAuthAndClose cfg a b s; return some e) :=
    always_bind.mpr (hreject.imp fun _ _ h => h)
  rw [Decides, handleAuth, always_ite]
  refine ⟨fun _ => hreject, fun _ => ?_⟩
  split
  · exact hreject'
  · rw [always_ite]
    refine ⟨fun _ => ?_, fun _ => ⟨trivial, fun verdict _ => ?_⟩⟩
    · exact always_ite.mpr ⟨fun _ => hreject, fun _ => decides_acceptAuth hopen hle hstate⟩
    · cases verdict with
      | accepted userID => exact decides_acceptAuth hopen hle hstate
      | rejected => exact hreject
      | failed => exact hreject'
      | timeout => exact hreject'

/-- `FrameAuth` is only handled in a state without a verdict. -/
theorem decides_authFrame (hg : Decided g) : Decides cfg g (authFrame cfg codec f) := by
  have hauth (hstate : g.state = .new ∨ g.state = .authPending) : Decides cfg g
      (act (.store .authPending) >>= fun _ => handleAuth cfg codec f) := by
    have hopen : g.Open := by
      rcases hstate with h | h <;> exact hg.open (by rw [h]; rfl)
    refine ⟨fun h => ?_, fun _ _ => decides_handleAuth hopen hg.verdicts_le (by simp)⟩
    simp [h] at hstate
  rw [Decides, authFrame, always_ite]
  refine ⟨fun _ => hg, fun _ => ⟨trivial, ?_⟩⟩
  rintro state rfl
  refine always_ite.mpr ⟨fun _ => ⟨trivial, ?_⟩, fun h => hauth (.inl (not_not.mp h))⟩
  rintro state rfl
  exact always_ite.mpr ⟨fun _ => hg, fun h => hauth (.inr (not_not.mp h))⟩

theorem decides_sendError {code : ℕ} {e : Err} (hg : Decided g) :
    Decides cfg g (do sendError cfg code f e; return some e : M (Option Err)) := by
  simp only [Decides, sendError, always_bind, always_ite, always_pure, always_send]
  refine ⟨fun _ => hg, fun _ => ⟨by simp [Out.verdict], fun r _ => ?_⟩⟩
  simpa [Out.verdict] using hg

/-- What `HandleFrame` leaves: a decided session, or an error. -/
def Judges (g : AuthView) (e : Option Err) : Prop := g.verdicts ≤ 1 ∧ (e = none → Decided g)

theorem Decided.judges (hg : Decided g) (e : Option Err) : Judges g e :=
  ⟨hg.verdicts_le, fun _ => hg⟩

/-- The operations on frames behind the authentication: no verdict is sent, and the state stays
    one of a verdict. -/
def behindOp : Op → Bool
  | .send o => !o.verdict
  | .store s => s == .established || s == .draining || s == .closing
  | .load | .loadCaps | .storeRemote _ | .work _ | .callEstablished | .putCloseAck
  | .cleanupIncoming => true
  | _ => false

theorem Decided.behind {p : M (Option Err)} (h : p.Only behindOp) (hg : Decided g)
    (hstate : g.state ≠ .authRejected) : p.Always (authMonitor cfg) Judges g := by
  refine h.always (fun g => Decided g ∧ g.state ≠ .authRejected) (fun g o hI ho => ?_)
    (fun g e hI => hI.1.judges e) ⟨hg, hstate⟩
  obtain ⟨hg, hstate⟩ := hI
  cases o with
  | send out =>
    have hno : out.verdict = false := by simpa [behindOp] using ho
    exact ⟨by simp [hno], fun r _ => by simpa [hno] using ⟨hg, hstate⟩⟩
  | store s =>
    refine ⟨fun h => absurd h hstate, fun _ _ => ⟨⟨hg.verdicts_le, fun _ => .inr ?_⟩, ?_⟩⟩
    · cases s <;> first | rfl | cases ho
    · rintro rfl
      cases ho
  | load | loadCaps | storeRemote | work | callEstablished | putCloseAck | cleanupIncoming =>
    exact ⟨trivial, fun _ _ => ⟨hg, hstate⟩⟩
  | _ => cases ho

theorem behind_dispatch (hclose : f.header.frameType ≠ .close)
    (herror : f.header.frameType ≠ .error) : (dispatch cfg codec f).Only behindOp := by
  unfold dispatch
  split <;> rename_i ht
  · unfold handleHello
    split <;> simp [acceptRemoteHello, sendHelloAck, established, behindOp, Out.verdict]
  · unfold handleHelloAck
    split <;> simp [acceptRemoteHello, established, behindOp]
  · simp [behindOp, Out.verdict]
  · trivial
  · exact absurd ht herror
  · unfold handleGoAway
    split <;> simp [requireDrain, unsupported, sendError, behindOp, Out.verdict]
  · exact absurd ht hclose
  · unfold handleCloseAck
    split <;> simp [behindOp]
  · simp [sendError, behindOp, Out.verdict]
  · simp [behindOp]

theorem judges_dispatch (hclose : f.header.frameType ≠ .close) (hg : Decided g)
    (hstate : g.state ≠ .authRejected) :
    (dispatch cfg codec f).Always (authMonitor cfg) Judges g := by
  by_cases herror : f.header.frameType = .error
  · -- the frame has an error itself where it makes the state failed
    simp only [dispatch, herror, handleError]
    split
    · exact hg.judges _
    · refine always_ite.mpr ⟨fun _ => ?_, fun _ => hg.judges _⟩
      exact ⟨fun h => absurd h hstate, fun _ _ => ⟨hg.verdicts_le, fun h => by cases h⟩⟩
  · exact hg.behind (behind_dispatch hclose herror) hstate

theorem judges_handleFrame
    (hf : f.header.frameType = .auth ∨ f.header.frameType ≠ .close ∧ Trusted g.state)
    (hg : Decided g) : (handleFrame cfg codec f).Always (authMonitor cfg) Judges g := by
  have hjudges {p : M (Option Err)} (h : Decides cfg g p) : p.Always (authMonitor cfg) Judges g :=
    h.imp fun _ e hg => hg.judges e
  have herr {code : ℕ} {e : Err} : (do sendError cfg code f e; return some e : M _).Always
      (authMonitor cfg) Judges g := hjudges (decides_sendError hg)
  rw [handleFrame, always_ifErr, always_checkRateLimit]
  refine ⟨trivial, fun r _ => ⟨fun _ => ?_, fun e _ => herr⟩⟩
  split
  · exact herr
  rcases hf with hf | ⟨hclose, htrusted⟩
  · rw [hf]
    exact hjudges (decides_authFrame hg)
  have hstate : g.state ≠ .authRejected := fun h => by simp [h, Trusted] at htrusted
  have hgate : (stateGate cfg codec f).Always (authMonitor cfg) Judges g := by
    simp only [stateGate, perform_bind, always_op]
    refine ⟨trivial, fun state _ => ?_⟩
    split
    · exact herr
    · have hdispatch : (dispatch cfg codec f).Always (authMonitor cfg) Judges g :=
        judges_dispatch hclose hg hstate
      have hnext (e : Option Err) :
          (e = none → (dispatch cfg codec f).Always (authMonitor cfg) Judges g) ∧
            ∀ e', e = some e' → (unsupported cfg f e').Always (authMonitor cfg) Judges g :=
        ⟨fun _ => hdispatch, fun _ _ => herr⟩
      rw [capabilityGate, always_ifErr, requireCapOf, always_ite]
      refine ⟨fun _ => hnext _,
        fun _ => (always_requireCap cfg).mpr ⟨fun _ => hnext _, fun _ => ?_⟩⟩
      exact ⟨trivial, fun _ _ => hnext _⟩
  have hanswer {name : String} {p : M (Option Err)} : (authAnswer cfg name p).Always
      (authMonitor cfg) Judges g := by
    simp only [authAnswer, always_ite, perform_bind, always_op]
    refine ⟨fun _ => hg.judges _, fun _ => ⟨trivial, ?_⟩⟩
    rintro state rfl
    refine ⟨fun _ => hg.judges _, fun h => ?_⟩
    simp [not_not.mp h, Trusted] at htrusted
  split
  · exact hjudges (decides_authFrame hg)
  · exact hanswer
  · exact hanswer
  · refine always_ifErr.mpr ((always_ensureAuthenticated cfg).mpr ⟨fun _ => ?_, fun _ _ => ?_⟩)
    · exact ⟨fun _ => hgate, fun _ h => by cases h⟩
    · refine ⟨trivial, ?_⟩
      rintro state rfl
      refine ⟨fun _ => hgate, fun e he => ?_⟩
      have hpass : ensureAuthenticatedFor true g.state f.header.frameType = .ok () :=
        ensureAuthenticatedFor_of_trusted htrusted _
      have hnone : errOf (ensureAuthenticatedFor true g.state f.header.frameType) = some e := he
      rw [hpass] at hnone
      cases hnone

/-- The end of `Run` after an error: nothing can be sent any more. -/
theorem decides_handlingFailed {e : Err} (hle : g.verdicts ≤ 1) :
    Decides cfg g (handlingFailed cfg e) := by
  -- once the writer and the transport are closed, one of them was what sends
  have hlast {s : SessionState} {shut : Bool} (hs : cfg.sendQueue = true → shut = true) :
      Decided ⟨s, g.verdicts, shut || !cfg.sendQueue⟩ := by
    refine ⟨hle, fun _ => .inl ?_⟩
    cases hqueue : cfg.sendQueue with
    | true => simp [hs hqueue]
    | false => simp
  have hrest {shut : Bool} (hs : cfg.sendQueue = true → shut = true) : Decides cfg
      ⟨g.state, g.verdicts, shut⟩ (do
        if (← act .load) ≠ .authRejected then act (.store .failed)
        let _ ← closeTransport
        return Outcome.returned (some e)) := by
    refine ⟨trivial, ?_⟩
    rintro state rfl
    refine always_ite.mpr ⟨fun h => ⟨fun h' => absurd h' h, fun _ _ => ?_⟩, fun _ => ?_⟩
    · exact ⟨trivial, fun _ _ => hlast hs⟩
    · exact ⟨trivial, fun _ _ => hlast hs⟩
  refine ⟨trivial, fun _ _ => ⟨trivial, fun _ _ => ?_⟩⟩
  show Decides cfg g (closeWriter cfg >>= fun _ => _)
  refine always_bind.mpr ((always_closeWriter cfg).mpr ⟨fun h => ⟨trivial, fun _ => ?_⟩,
    fun h => ?_⟩)
  · exact hrest fun _ => by simp [h]
  · exact hrest fun h' => absurd (h.symm.trans h') (by simp)

theorem decides_goOn (hg : Decided g) : Decides cfg g goOn := by
  refine ⟨trivial, ?_⟩
  rintro state rfl
  exact always_ite.mpr ⟨fun _ => hg, fun _ => ⟨trivial, fun _ _ => hg⟩⟩

theorem decides_runFrame
    (hf : f.header.frameType = .auth ∨ f.header.frameType ≠ .close ∧ Trusted g.state)
    (hg : Decided g) : Decides cfg g (runFrame cfg codec f) := by
  refine ⟨trivial, ?_⟩
  rintro state rfl
  refine always_ite.mpr ⟨fun _ => hg, fun _ => always_ifErr.mpr ?_⟩
  exact (judges_handleFrame hf hg).imp fun g r hg =>
    ⟨fun hr => decides_goOn (hg.2 hr), fun e _ => decides_handlingFailed hg.1⟩

/-- The timer fires in a state without a verdict, or has nothing to do. -/
theorem decides_authTimeout (hg : Decided g) : Decides cfg g (authTimeout cfg) := by
  rw [Decides, authTimeout, always_ite, perform_bind]
  refine ⟨fun _ => hg, fun _ => ⟨trivial, ?_⟩⟩
  rintro state rfl
  have hreject (hopen : g.Open) : Decides cfg g (act (.store .authRejected) >>= fun _ =>
      rejectAuthAndClose cfg authRejectTimeout authRejectTimeout "auth timeout") :=
    ⟨fun _ => rfl, fun _ _ => decides_rejectAuthAndClose hopen hg.verdicts_le⟩
  dsimp only
  split
  case h_8 =>
    refine hreject (hg.open ?_)
    cases hstate : g.state <;> first | rfl | simp_all
  all_goals exact hg

end Programs

/-! ## Runs -/

/-- What can be sent is not shut. -/
theorem shut_of_admits {m : Mem} {o : Out} (h : m.admits cfg o = true) :
    (m.authView cfg).shut = false := by
  simp only [Mem.admits, Mem.authView] at h ⊢
  split at h <;> simp_all

/-- The monitor knows what the operations do. -/
theorem authView_sem {o : Op} {m m' : Mem} {r : o.Res} (h : sem cfg o m r m')
    (hok : (authMonitor cfg).ok (m.authView cfg) o) :
    (authMonitor cfg).may (m.authView cfg) o r ∧
      (authMonitor cfg).next (m.authView cfg) o r = m'.authView cfg := by
  cases o with
  | load | lookAuth =>
    obtain ⟨rfl, rfl⟩ := h
    exact ⟨rfl, rfl⟩
  | store s =>
    cases h
    exact ⟨trivial, rfl⟩
  | send out =>
    rcases h with ⟨rfl, hadmits, rfl⟩ | ⟨hne, rfl⟩
    · refine ⟨fun _ => shut_of_admits hadmits, ?_⟩
      cases hverdict : out.verdict <;>
        simp [Mem.authView, Mem.verdicts, hverdict, List.countP_append]
    · exact ⟨fun h => absurd h hne, by simp [hne]⟩
  | closeWriter =>
    cases h
    refine ⟨trivial, ?_⟩
    cases hqueue : cfg.sendQueue <;> simp [Mem.authView, Mem.verdicts, hqueue]
  | closeTransport =>
    cases h
    refine ⟨trivial, ?_⟩
    cases hqueue : cfg.sendQueue <;> simp [Mem.authView, Mem.verdicts, hqueue]
  | loadCaps =>
    obtain ⟨rfl, rfl⟩ := h
    exact ⟨trivial, rfl⟩
  | work f =>
    obtain ⟨_, _, _, _, rfl, -⟩ := h
    exact ⟨trivial, rfl⟩
  | rate | callAuth | flush | cleanupIncoming | failOutgoing | again | storeRemote
  | callEstablished | putCloseAck =>
    cases h
    exact ⟨trivial, rfl⟩
  | _ => exact hok.elim

/-- What the monitor allows: the first verdict, and no change of a rejection. -/
theorem verdicts_of_allowed {o : Op} {m m' : Mem} {r : o.Res} (h : sem cfg o m r m')
    (hok : (authMonitor cfg).ok (m.authView cfg) o) (hle : m.verdicts ≤ 1) :
    m'.verdicts ≤ 1 ∧ (m.state = .authRejected → m'.state = .authRejected) := by
  obtain ⟨-, hnext⟩ := authView_sem h hok
  have hverdicts : ((authMonitor cfg).next (m.authView cfg) o r).verdicts = m'.verdicts := by
    rw [hnext]
    rfl
  have hstate : ((authMonitor cfg).next (m.authView cfg) o r).state = m'.state := by
    rw [hnext]
    rfl
  rw [← hverdicts, ← hstate]
  cases o with
  | send out =>
    refine ⟨?_, fun h => h⟩
    simp only [authMonitor_next]
    split
    · rename_i hsent
      have hadmits : m.admits cfg out = true := by
        rcases h with ⟨-, hadmits, -⟩ | ⟨hne, -⟩
        · exact hadmits
        · exact absurd hsent.1 hne
      have hzero : (m.authView cfg).verdicts = 0 := hok hsent.2 (shut_of_admits hadmits)
      omega
    · exact hle
  | store s => exact ⟨hle, hok⟩
  | _ => exact ⟨hle, fun h => h⟩

/-- One verdict at most, and threads one at a time. -/
structure Once (c : (authLang cfg codec).Conf) : Prop where
  serial : Lang.Serial (authMonitor cfg) Decided (Mem.authView cfg) c
  verdicts_le : c.mem.verdicts ≤ 1

theorem Once.step {c c' : (authLang cfg codec).Conf} (h : Once c)
    (hstep : Lang.StepIf Apart c c') :
    Once c' ∧ (c.mem.state = .authRejected → c'.mem.state = .authRejected) := by
  obtain ⟨e, hstep, hproper, happart⟩ := hstep
  obtain ⟨hserial, hok⟩ := h.serial.step hstep (fun _ _ _ _ => authView_sem) (fun _ => rfl)
    fun q hq => by
      subst hq
      refine ⟨happart q rfl, fun hdecided => ?_⟩
      cases q with
      | frame f => exact decides_runFrame hproper.1 hdecided
      | timeout => exact always_map.mpr (decides_authTimeout hdecided)
  rcases hstep.memory with ⟨p, o, k, r, rfl, -, hsem⟩ | ⟨q, -, hmem⟩
  · obtain ⟨hle, hfinal⟩ := verdicts_of_allowed hsem (hok p o r rfl) h.verdicts_le
    exact ⟨⟨hserial, hle⟩, hfinal⟩
  · exact ⟨⟨hserial, hmem ▸ h.verdicts_le⟩, fun hstate => hmem ▸ hstate⟩

/-- A server that requires authentication. -/
def authServer : Config := { authRequired := true }

/-- A `FrameAuth` with an empty credential. -/
def authRequest : Frame := plainFrame .auth (.replicate 12 0)

/-- The timer looks at the state while the handler is called, and rejects the peer between the
    acceptance that was sent and its state. -/
def collision : List ((authLang authServer wireCodec).Move Env) :=
  [.call (.frame authRequest), .run 0 {}, .run 0 {}, .run 0 {}, .run 0 {}, .run 0 {},
    .call .timeout, .run 1 {}, .run 0 {}, .run 1 {}]

end Etp.Session
