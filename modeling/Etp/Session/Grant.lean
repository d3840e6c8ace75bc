import Etp.Session.Inventory

/-!
# Before the authentication

A server session that requires authentication, as long as its handler has accepted
nobody. A frame gets past `EnsureAuthenticatedFor` in a trusted state only, or by its
type. Such a type is `FrameClose`, and a close that asks for a drain makes the session
draining, which is a trusted state: over a transport that has negotiated graceful close,
any peer gets through this way (`drain_admits_text`).

* `gateMonitor`: what a thread may do that has not seen the session trusted;
* `guarded_run`: the reader is such a thread, if it reads no close that would be taken for a drain;
* `auth_gate`: in every run in which this is so of all frames read before the
  authentication, the application is not called and the session is neither established
  nor draining before the handler has accepted the peer.
-/

namespace Etp.Session

open Threads Relation Prog

variable {cfg : Config} {codec : Codec} {caps : ℕ} {α : Type}

variable (cfg codec) in
/-- A frame that is not taken for a drain, where `caps` are the capabilities negotiated. -/
def Undraining (caps : ℕ) (f : Frame) : Prop :=
  f.header.frameType = .close → ∀ m, codec.close f.payload = .ok m → drains m.flags = true →
    requireCapability cfg.capabilities caps capabilityGracefulClose "graceful close" ≠ .ok ()

/-- The operations that do not take a session past its authentication. -/
def guardedOp : Op → Bool
  | .store s | .beginLocalClose s | .beginPeerClose s => !decide (Trusted s)
  | .storeRemote _ | .work _ => false
  | _ => true

variable (cfg codec) in
/-- Watches a thread: until it has found the session trusted, or the handler has accepted
    the peer, it must not take the session further. -/
@[simps] def gateMonitor (caps : ℕ) : Monitor Op Op.Res Bool where
  ok g o := g = true ∨ guardedOp o = true
  may _ o r :=
    match o, r with
    | .loadCaps, r => r = caps
    | .read, r => ∀ f, r = .ok f → Undraining cfg codec caps f
    | _, _ => True
  next g o r :=
    g || match o, r with
      | .lookAuth, s => decide (Trusted s)
      | .callAuth _, v => Verdict.accepts v
      | _, _ => false

variable (cfg codec) in
/-- The thread does not take the session past its authentication, unless it finds that it
    has taken place. -/
def Guarded (caps : ℕ) (p : M α) : Prop :=
  p.Always (gateMonitor cfg codec caps) (fun _ _ => True) false

variable {o : Op}

section Frames

variable {f : Frame}

/-- Behind the authentication everything goes. -/
theorem always_passed (p : M α) :
    p.Always (gateMonitor cfg codec caps) (fun _ _ => True) true := by
  induction p with
  | ret a => trivial
  | op o k ih => exact ⟨.inl rfl, fun r _ => ih r⟩

theorem guarded_of_only {p : M α} (h : p.Only guardedOp) : Guarded cfg codec caps p :=
  h.always (fun _ => True) (fun _ _ _ ho => ⟨.inr ho, fun _ _ => trivial⟩)
    (fun _ _ _ => trivial) trivial

theorem Guarded.bind {β : Type} {p : M α} {k : α → M β} (hp : Guarded cfg codec caps p)
    (hk : ∀ a, Guarded cfg codec caps (k a)) : Guarded cfg codec caps (p >>= k) := by
  refine always_bind.mpr (Prog.Always.imp hp fun g a _ => ?_)
  cases g with
  | false => exact hk a
  | true => exact always_passed _

theorem Guarded.ifErr {p : M (Option Err)} {h : Err → M α} {k : M α}
    (hp : Guarded cfg codec caps p) (hh : ∀ e, Guarded cfg codec caps (h e))
    (hk : Guarded cfg codec caps k) : Guarded cfg codec caps (ifErr p h k) := by
  refine hp.bind fun e => ?_
  cases e with
  | none => exact hk
  | some e => exact hh e

theorem guarded_act (ho : guardedOp o = true) : Guarded cfg codec caps (act o) :=
  guarded_of_only (only_act ho)

theorem guarded_sendError {code : ℕ} {e : Err} :
    Guarded cfg codec caps (do sendError cfg code f e; return some e : M (Option Err)) :=
  guarded_of_only ((only_sendError fun _ => rfl).bind fun _ => trivial)

/-- `HandleAuth`: the peer is accepted by the handler, or not at all. -/
theorem guarded_handleAuth (hrequired : cfg.authRequired = true) :
    Guarded cfg codec caps (handleAuth cfg codec f) := by
  have hreject {a b : ℕ} {s : String} : (rejectAuthAndClose cfg a b s).Only guardedOp :=
    only_rejectAuthAndClose (fun _ => rfl) rfl rfl rfl rfl
  rw [Guarded, handleAuth, always_ite]
  refine ⟨fun _ => guarded_of_only hreject, fun _ => ?_⟩
  split
  · exact guarded_of_only (hreject.bind fun _ => trivial)
  · rw [always_ite, if_pos hrequired]
    refine ⟨fun _ => guarded_of_only hreject, fun _ => ⟨.inr rfl, fun verdict _ => ?_⟩⟩
    cases verdict with
    -- from here on the handler has accepted the peer
    | accepted userID => exact always_passed _
    | rejected => exact guarded_of_only hreject
    | failed => exact guarded_of_only (hreject.bind fun _ => trivial)
    | timeout => exact guarded_of_only (hreject.bind fun _ => trivial)

theorem guarded_authFrame (hrequired : cfg.authRequired = true) :
    Guarded cfg codec caps (authFrame cfg codec f) := by
  have hauth : Guarded cfg codec caps
      (act (.store .authPending) >>= fun _ => handleAuth cfg codec f) :=
    (guarded_act rfl).bind fun _ => guarded_handleAuth hrequired
  rw [Guarded, authFrame, always_ite]
  refine ⟨fun _ => trivial, fun _ => ⟨.inr rfl, fun state _ => ?_⟩⟩
  refine always_ite.mpr ⟨fun _ => ⟨.inr rfl, fun state _ => ?_⟩, fun _ => hauth⟩
  exact always_ite.mpr ⟨fun _ => trivial, fun _ => hauth⟩

/-- Where graceful close was not negotiated, a drain is refused. -/
theorem refused_requireDrain {Q : Bool → Option Err → Prop}
    (hcap : requireCapability cfg.capabilities caps capabilityGracefulClose "graceful close" ≠
      .ok ()) (hQ : ∀ g e, Q g (some e)) :
    (requireDrain cfg f).Always (gateMonitor cfg codec caps) Q false := by
  have hrefuse {g : Bool} {e : Err} :
      (unsupported cfg f e).Always (gateMonitor cfg codec caps) Q g := by
    refine always_bind.mpr ((only_sendError (S := guardedOp) fun _ => rfl).always
      (fun _ => True) (fun _ _ _ ho => ⟨.inr ho, fun _ _ => trivial⟩) (fun _ _ _ => hQ _ e) trivial)
  rw [requireDrain, always_ifErr, requireCap, always_ite]
  refine ⟨fun _ => ⟨by simp, fun e _ => hrefuse⟩, fun _ => ⟨.inr rfl, ?_⟩⟩
  rintro r rfl
  cases hcaps : requireCapability cfg.capabilities r capabilityGracefulClose "graceful close" with
  | ok u => exact absurd hcaps hcap
  | error e =>
    simp only [Prog.bind, hcaps]
    exact ⟨by simp, fun e _ => hrefuse⟩

/-- `handleIncomingClose` on a close that is not taken for a drain. -/
theorem guarded_handleClose (hf : Undraining cfg codec caps f) (ht : f.header.frameType = .close) :
    Guarded cfg codec caps (handleClose cfg codec f) := by
  rw [Guarded, handleClose]
  split
  · trivial
  · rename_i m hm
    refine always_ite.mpr ⟨fun hdrains => ?_, fun _ => ?_⟩
    · rw [always_check]
      exact refused_requireDrain (hf ht m hm hdrains) fun _ _ => ⟨by simp, fun _ _ => trivial⟩
    · refine guarded_of_only (only_then rfl fun first => only_ite.mpr ⟨fun _ => ?_, ?_⟩)
      · exact only_then rfl fun _ => only_then rfl fun _ => only_then rfl fun _ =>
          only_then rfl fun _ => trivial
      · exact fun _ => trivial

/-- The gates behind the authentication, on a close. -/
theorem guarded_stateGate (hf : Undraining cfg codec caps f) (ht : f.header.frameType = .close) :
    Guarded cfg codec caps (stateGate cfg codec f) := by
  refine (guarded_act rfl).bind fun state => ?_
  split
  · exact guarded_sendError
  · refine (guarded_of_only (only_requireCapOf rfl)).ifErr (fun _ => guarded_sendError) ?_
    rw [dispatch, ht]
    exact guarded_handleClose hf ht

theorem guarded_authGate (hrequired : cfg.authRequired = true)
    (hf : Undraining cfg codec caps f) (hauth : f.header.frameType ≠ .auth)
    (haccept : f.header.frameType ≠ .authAccept) (hreject : f.header.frameType ≠ .authReject) :
    Guarded cfg codec caps (authGate cfg codec f) := by
  rw [Guarded, authGate, always_ifErr]
  cases ht : gated f.header.frameType with
  | false =>
    have hclose : f.header.frameType = .close := by
      cases htype : f.header.frameType <;>
        first | rfl | contradiction | (rw [htype] at ht; cases ht)
    rw [ensureAuthenticated_exempt ht]
    exact ⟨fun _ => guarded_stateGate hf hclose, by simp⟩
  | true =>
    rw [ensureAuthenticated_gated hrequired ht]
    refine ⟨.inr rfl, fun state _ => ?_⟩
    dsimp only
    cases hstate : decide (Trusted state) with
    | true =>
      rw [ensureAuthenticatedFor_of_trusted (of_decide_eq_true hstate)]
      simp only [gateMonitor_next, hstate, Bool.or_true]
      exact ⟨fun _ => always_passed _, by simp⟩
    | false =>
      simp only [gateMonitor_next, hstate, Bool.or_false]
      cases hok : ensureAuthenticatedFor true state f.header.frameType with
      | ok u =>
        rcases of_ensureAuthenticatedFor_ok hok with htrusted | htype | htype | htype | htype
        · exact absurd htrusted (of_decide_eq_false hstate)
        all_goals
          rw [htype] at ht
          cases ht
      | error e =>
        refine ⟨by simp, fun e _ => guarded_of_only ?_⟩
        exact (only_rejectAuth (fun _ => rfl) rfl).bind fun _ => trivial

theorem guarded_handleFrame (hrole : cfg.role = .server) (hrequired : cfg.authRequired = true)
    (hf : Undraining cfg codec caps f) : Guarded cfg codec caps (handleFrame cfg codec f) := by
  refine (guarded_act rfl).ifErr (fun _ => guarded_sendError) ?_
  split
  · exact guarded_sendError
  · split
    · exact guarded_authFrame hrequired
    · simp [authAnswer, hrole, Guarded]
    · simp [authAnswer, hrole, Guarded]
    · exact guarded_authGate hrequired hf ‹_› ‹_› ‹_›

end Frames

theorem guardedOp_of_turnOp (h : turnOp o = true) : guardedOp o = true := by
  cases o with
  | store s => cases s <;> first | rfl | cases h
  | _ => first | rfl | cases h

theorem guardedOp_of_finishOp (h : finishOp o = true) : guardedOp o = true := by
  cases o with
  | store s => cases s <;> first | rfl | cases h
  | _ => first | rfl | cases h

theorem guardedOp_of_bystanderOp (h : bystanderOp o = true) : guardedOp o = true := by
  cases o with
  | store s => cases s <;> first | rfl | cases h
  | _ => first | rfl | cases h

/-- The calls by which this side itself takes the session further, or ends it. -/
def Proc.advances : Proc → Bool
  | .acceptAuth _ | .sendHelloAck | .sendGoAway _ _ | .closeWith _ => true
  | _ => false

/-! ## Runs -/

variable (cfg codec) in
/-- The condition on a step: before the handler has accepted the peer, no frame is read
    that would be taken for a drain; and nothing is called by which this side itself takes
    the session further. -/
structure Outside (c : (lang cfg codec).Conf) (e : (lang cfg codec).Event)
    (c' : (lang cfg codec).Conf) : Prop where
  frames : c.mem.granted = false → ∀ p f, e = .run p .read (.ok f) →
    Undraining cfg codec c.mem.remoteCaps f
  calls : ∀ p, e = .call p → Proc.advances p = false

variable (cfg codec) in
/-- A session before its authentication. -/
structure Ungranted (c : (lang cfg codec).Conf) : Prop where
  state : ¬Trusted c.mem.state
  calls : c.mem.calls = []
  threads : ∀ t ∈ c.threads, Guarded cfg codec c.mem.remoteCaps t.2

theorem untrusted_after {s : SessionState} (ho : guardedOp o = true) (hs : ¬Trusted s) :
    ¬Trusted (o.after s) := by
  cases o with
  | store t => simpa [guardedOp, Op.after] using ho
  | beginLocalClose t =>
    rcases beginLocalClose_cases t s with ⟨-, heq⟩ | ⟨-, heq⟩ <;> rw [Op.after, heq]
    · exact hs
    · simpa [guardedOp] using ho
  | beginPeerClose t =>
    rcases beginPeerClose_cases t s with ⟨-, heq⟩ | ⟨-, heq⟩ | ⟨-, heq⟩ | ⟨-, -, -, heq⟩ <;>
      rw [Op.after, heq]
    · exact hs
    · simpa [guardedOp] using ho
    · exact hs
    · simpa [guardedOp] using ho
  | _ => exact hs

/-- A thread that has not found the session trusted does not find it so now. -/
theorem Guarded.step {c c' : (lang cfg codec).Conf} {p : Proc} {k : o.Res → M Outcome} {r : o.Res}
    (hk : Guarded cfg codec c.mem.remoteCaps (.op o k))
    (hcond : Outside cfg codec c (.run p o r) c') (hstate : ¬Trusted c.mem.state)
    (hgranted : c.mem.granted = false) (hgranted' : c'.mem.granted = false)
    (hsem : sem cfg o c.mem r c'.mem) : Guarded cfg codec c.mem.remoteCaps (k r) := by
  have hmay : (gateMonitor cfg codec c.mem.remoteCaps).may false o r := by
    cases o with
    | loadCaps => exact hsem.1
    | read =>
      rintro f rfl
      exact hcond.frames hgranted p f rfl
    | _ => trivial
  have hnext : (gateMonitor cfg codec c.mem.remoteCaps).next false o r = false := by
    cases o with
    | lookAuth =>
      obtain ⟨rfl, -⟩ := hsem
      simpa using hstate
    | callAuth =>
      rw [show c'.mem = _ from hsem, hgranted] at hgranted'
      exact hgranted'
    | _ => rfl
  have hkr := hk.2 r hmay
  rwa [hnext] at hkr

section Server

variable (hrole : cfg.role = .server) (hrequired : cfg.authRequired = true)
include hrole hrequired

theorem guarded_run : Guarded cfg codec caps (run cfg codec) := by
  have hturn {p : M Outcome} (hp : p.Only turnOp) : Guarded cfg codec caps p :=
    guarded_of_only (hp.mono fun _ => guardedOp_of_turnOp)
  refine (always_run cfg codec).mpr ⟨.inr rfl, fun e _ => hturn only_connectionLost, fun f hf => ?_⟩
  refine (guarded_act rfl).bind fun state => always_ite.mpr ⟨fun _ => trivial, fun _ => ?_⟩
  exact (guarded_handleFrame hrole hrequired (hf f rfl)).ifErr (fun _ => hturn only_handlingFailed)
    (hturn only_goOn)

theorem guarded_code {p : Proc} (hp : p.advances = false) :
    Guarded cfg codec caps (code cfg codec p) := by
  cases p with
  | run => exact guarded_run hrole hrequired
  | finishPeerClose =>
    exact guarded_of_only ((only_finishPeerClose.map _).mono fun _ => guardedOp_of_finishOp)
  | finishPeerDrain =>
    exact guarded_of_only ((only_finishPeerDrain.map _).mono fun _ => guardedOp_of_finishOp)
  -- a server does not send a hello
  | sendHello => simp [code, sendHello, hrole, Guarded]
  | acceptAuth => cases hp
  | sendHelloAck => cases hp
  | sendGoAway => cases hp
  | closeWith => cases hp
  | _ => exact guarded_of_only ((only_bystander rfl).mono fun _ => guardedOp_of_bystanderOp)

theorem Ungranted.step {c c' : (lang cfg codec).Conf} {e : (lang cfg codec).Event}
    (h : Ungranted cfg codec c)
    (hstep : Lang.Step c e c') (hcond : Outside cfg codec c e c')
    (hgranted : c.mem.granted = false) (hgranted' : c'.mem.granted = false) :
    Ungranted cfg codec c' := by
  have hfork : ∀ {o q}, fork o = some q → Proc.advances q = false := by
    intro o q hq
    cases o <;> cases hq <;> rfl
  have hcaps : c'.mem.remoteCaps = c.mem.remoteCaps := by
    rcases hstep.memory with ⟨p, o, k, r, -, hthread, hsem⟩ | ⟨q, -, hmem⟩
    · refine sem_remoteCaps hsem fun hello ho => ?_
      subst ho
      rcases (h.threads _ hthread).1 with hfalse | hfalse <;> cases hfalse
    · rw [hmem]
  have hthreads : ∀ t ∈ c'.threads, Guarded cfg codec c.mem.remoteCaps t.2 := by
    intro t ht
    rcases hstep.threads ht with ht | ⟨p, o, k, r, rfl, hthread, hsem, rfl⟩ |
      ⟨p, o, k, r, q, -, -, -, hq, rfl⟩ | ⟨q, rfl, -, -, rfl⟩
    · exact h.threads t ht
    · exact (h.threads _ hthread).step hcond h.state hgranted hgranted' hsem
    · exact guarded_code hrole hrequired (hfork hq)
    · exact guarded_code hrole hrequired (hcond.calls q rfl)
  rw [← hcaps] at hthreads
  rcases hstep.memory with ⟨p, o, k, r, -, hthread, hsem⟩ | ⟨q, -, hmem⟩
  · have ho : guardedOp o = true := (h.threads _ hthread).1.resolve_left (by simp)
    refine ⟨?_, ?_, hthreads⟩
    · rw [sem_state hsem]
      exact untrusted_after ho h.state
    · rw [sem_calls hsem (by rintro f rfl; cases ho)]
      exact h.calls
  · refine ⟨?_, ?_, hthreads⟩ <;> rw [hmem]
    · exact h.state
    · exact h.calls

theorem ungranted_running (negotiated : Option ℕ) :
    Ungranted cfg codec (running cfg codec (newSession cfg negotiated)) := by
  have hnew : (newSession cfg negotiated).state = .new ∧
      (newSession cfg negotiated).calls = [] := by
    cases negotiated <;> simp [newSession, hrequired]
  refine ⟨?_, hnew.2, List.forall_mem_singleton.mpr (guarded_run hrole hrequired)⟩
  rw [running, hnew.1]
  exact id

end Server

/-- In every run whose steps meet the condition, as long as the handler has not accepted
    the peer, the application has not been called, and the session is neither established
    nor draining. -/
theorem auth_gate (hrole : cfg.role = .server) (hrequired : cfg.authRequired = true)
    {negotiated : Option ℕ} {c : (lang cfg codec).Conf}
    (hrun : ReflTransGen (Lang.StepIf (Outside cfg codec))
      (running cfg codec (newSession cfg negotiated)) c) (hgranted : c.mem.granted = false) :
    c.mem.calls = [] ∧ c.mem.state ≠ .established ∧ c.mem.state ≠ .draining := by
  have hinv : c.mem.granted = false → Ungranted cfg codec c := by
    refine Run.invariant (fun c => c.mem.granted = false → Ungranted cfg codec c)
      (fun _ => ungranted_running hrole hrequired negotiated) ?_ hrun
    rintro c c' h ⟨e, hstep, hcond⟩ hgranted'
    have hgranted : c.mem.granted = false := by
      rcases hstep.memory with ⟨p, o, k, r, -, -, hsem⟩ | ⟨q, -, hmem⟩
      · exact sem_granted hsem hgranted'
      · rwa [hmem] at hgranted'
    exact Ungranted.step hrole hrequired (h hgranted) hstep hcond hgranted hgranted'
  obtain ⟨hstate, hcalls, -⟩ := hinv hgranted
  refine ⟨hcalls, fun heq => ?_, fun heq => ?_⟩
  · rw [heq] at hstate
    exact hstate trivial
  · rw [heq] at hstate
    exact hstate trivial

/-! ## A drain before the authentication -/

/-- A server that requires authentication. -/
def guardedConfig : Config := { authRequired := true }

/-- The session over a transport that has negotiated everything. -/
def guardedSession : (lang guardedConfig wireCodec).Conf :=
  running guardedConfig wireCodec (newSession guardedConfig (some allCapabilities))

/-- The payload of a close that asks for a drain. -/
def drainRequest : Bytes := [0, 0, 0, 0, 0, 2, 0, 0, 0, 0, 0, 0]

/-- The peer sends a close that asks for a drain, and a text. -/
def drainThenText : List (Lang.Move (lang guardedConfig wireCodec) Env) :=
  .run 0 { frame := .ok (plainFrame .close drainRequest) } :: List.replicate 9 (.run 0 {}) ++
    .run 2 { frame := .ok (plainFrame .data) } :: List.replicate 5 (.run 2 {})

/-- A step other than a call. -/
def uncalled (_ : (lang guardedConfig wireCodec).Conf) (e : (lang guardedConfig wireCodec).Event)
    (_ : (lang guardedConfig wireCodec).Conf) : Bool :=
  match e with
  | .call _ => false
  | _ => true

theorem drain_admits_text : ∃ c : (lang guardedConfig wireCodec).Conf,
    ReflTransGen (Lang.StepIf fun _ e _ => ∀ q, e ≠ .call q) guardedSession c ∧
      c.mem.granted = false ∧ c.mem.state = .draining ∧ c.mem.calls = [.text] := by
  have hplay : ∃ c,
      Lang.play (answer guardedConfig) uncalled drainThenText guardedSession = some c ∧
      c.mem.granted = false ∧ c.mem.state = .draining ∧ c.mem.calls = [.text] :=
    ⟨_, rfl, rfl, rfl, rfl⟩
  obtain ⟨c, hc, hrest⟩ := hplay
  refine ⟨c, Lang.play_run answer_sem (fun _ e _ he q hq => ?_) hc, hrest⟩
  subst hq
  cases he

/-- The frame that was read is not a close. -/
def notClose : Except Err Frame → Bool
  | .ok f => f.header.frameType != .close
  | .error _ => true

/-- A step that is no call and reads no close. -/
def openly (_ : (lang guardedConfig wireCodec).Conf) (e : (lang guardedConfig wireCodec).Event)
    (_ : (lang guardedConfig wireCodec).Conf) : Bool :=
  match e with
  | .call _ => false
  | .run _ .read r => notClose r
  | _ => true

theorem outside_of_openly {c c' : (lang guardedConfig wireCodec).Conf}
    {e : (lang guardedConfig wireCodec).Event} (h : openly c e c' = true) :
    Outside guardedConfig wireCodec c e c' := by
  refine ⟨?_, ?_⟩
  · rintro - p f rfl hclose
    have hne : f.header.frameType ≠ .close := by simpa [openly, notClose] using h
    exact absurd hclose hne
  · rintro p rfl
    cases h

theorem auth_gate_text : ∃ c : (lang guardedConfig wireCodec).Conf,
    ReflTransGen (Lang.StepIf (Outside guardedConfig wireCodec)) guardedSession c ∧
      c.mem.granted = false ∧ c.mem.state = .authRejected ∧
      c.mem.calls = [] ∧ c.mem.state ≠ .established ∧ c.mem.state ≠ .draining := by
  have hplay : ∃ c, Lang.play (answer guardedConfig) openly
      (.run 0 { frame := .ok (plainFrame .data) } :: List.replicate 5 (.run 0 {})) guardedSession =
        some c ∧ c.mem.granted = false ∧ c.mem.state = .authRejected := ⟨_, rfl, rfl, rfl⟩
  obtain ⟨c, hc, hgranted, hstate⟩ := hplay
  have hrun := Lang.play_run answer_sem (fun _ _ _ => outside_of_openly) hc
  exact ⟨c, hrun, hgranted, hstate, auth_gate rfl rfl hrun hgranted⟩

end Etp.Session
