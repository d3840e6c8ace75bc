import Etp.Session.Programs

/-!
# The operations of the procedures

What `HandleFrame` performs, whatever the frame and whatever the results of its
operations (`only_handleFrame`), and what the procedures perform that callers and
timers start (`only_code`): in particular none of them stores the closed state. What
closes a session follows (`only_closeWith`, `only_finishPeerClose`,
`only_finishPeerDrain`, `only_sendGoAway`). The lemmas on the way are stated for any
set of operations that contains those of the function in question.
-/

namespace Etp.Session

open Threads

variable {cfg : Config} {codec : Codec} {S : Op → Bool}

/-- The operations of the gates of `HandleFrame` and of the authentication. -/
def gateOp : Op → Bool
  | .load | .lookAuth | .loadCaps | .send _ | .rate _ | .callAuth _ | .closeWriter | .flush
  | .closeTransport => true
  | .store s => s == .authPending || s == .authAccepted || s == .authRejected
  | _ => false

/-- The operations of `HandleFrame` on frames other than `FrameGoAway` and `FrameClose`. -/
def plainOp (o : Op) : Bool :=
  gateOp o || match o with
    | .storeRemote _ | .work _ | .callEstablished | .putCloseAck => true
    | .store s => s == .established || s == .failed
    | _ => false

/-- The operations of `HandleFrame`. -/
def frameOp (o : Op) : Bool :=
  plainOp o || match o with
    | .casPeerCloseSeen | .cleanupIncoming | .failOutgoing | .goFinishPeerClose _ _
    | .goFinishPeerDrain _ _ => true
    | .store s | .beginPeerClose s => s == .draining || s == .closing
    | _ => false

/-! ## Frames -/

theorem only_requireCapOf {h : Header} (hS : S .loadCaps = true) : (requireCapOf cfg h).Only S := by
  simp [requireCapOf, hS]

theorem only_sendError {code : ℕ} {f : Frame} {e : Err} (h : ∀ o, S (.send o) = true) :
    (sendError cfg code f e).Only S := by
  simp [sendError, h]

variable {message : String}

theorem only_rejectAuth {status reason : ℕ} (h : ∀ o, S (.send o) = true)
    (hs : S (.store .authRejected) = true) : (rejectAuth cfg status reason message).Only S := by
  simp [rejectAuth, h, hs]

theorem only_rejectAuthAndClose {status reason : ℕ} (h : ∀ o, S (.send o) = true)
    (hs : S (.store .authRejected) = true) (h1 : S .flush = true) (h2 : S .closeWriter = true)
    (h3 : S .closeTransport = true) : (rejectAuthAndClose cfg status reason message).Only S := by
  simp [rejectAuthAndClose, rejectAuth, h, hs, h1, h2, h3]

theorem only_ensureAuthenticated {t : FrameType} (h : S .lookAuth = true) :
    (ensureAuthenticated cfg t).Only S := by simp [h]

theorem only_handleAuth (f : Frame) : (handleAuth cfg codec f).Only gateOp := by
  have hreject {status reason : ℕ} {message : String} :
      (rejectAuthAndClose cfg status reason message).Only gateOp :=
    only_rejectAuthAndClose (fun _ => rfl) rfl rfl rfl rfl
  unfold handleAuth
  refine Prog.only_ite.mpr ⟨fun _ => hreject, fun _ => ?_⟩
  cases codec.auth f.payload with
  | error e => exact hreject.bind fun _ => trivial
  | ok request =>
    refine Prog.only_ite.mpr ⟨fun _ => ?_, fun _ => Prog.only_then rfl fun r => ?_⟩
    · simp [rejectAuthAndClose, rejectAuth, acceptAuth, gateOp]
    · cases r with
      | rejected code reason => exact hreject
      | accepted userID => simp [acceptAuth, gateOp]
      | _ => exact hreject.bind fun _ => trivial

theorem only_authFrame (f : Frame) : (authFrame cfg codec f).Only gateOp := by
  simp [authFrame, only_handleAuth f, gateOp]

theorem only_authAnswer {name : String} {p : M (Option Err)} (h : p.Only gateOp) :
    (authAnswer cfg name p).Only gateOp := by
  simp [authAnswer, h, gateOp]

theorem only_handleAuthAccept (f : Frame) : (handleAuthAccept codec f).Only gateOp := by
  unfold handleAuthAccept
  split <;> simp [gateOp]

theorem only_handleAuthReject (f : Frame) : (handleAuthReject codec f).Only gateOp := by
  unfold handleAuthReject
  split <;> simp [gateOp]

/-- A monitor that the gates and the authentication leave in its state allows
    `HandleFrame` if it allows the dispatch. -/
theorem always_handleFrame {G : Type} {W : Monitor Op Op.Res G} {g : G}
    {Q : G → Option Err → Prop} {f : Frame}
    (hfix : ∀ o, gateOp o = true → W.ok g o ∧ ∀ r, W.may g o r → W.next g o r = g)
    (hQ : ∀ e, Q g e) (hdispatch : (dispatch cfg codec f).Always W Q g) :
    (handleFrame cfg codec f).Always W Q g := by
  have hgate {α : Type} {p : M α} {R : G → α → Prop} (hp : p.Only gateOp) (hR : ∀ a, R g a) :
      p.Always W R g := hp.always_fixed hfix hR
  have herr {code : ℕ} {e : Err} :
      (do sendError cfg code f e; return some e : M (Option Err)).Always W Q g :=
    hgate ((only_sendError fun _ => rfl).bind fun _ => trivial) hQ
  have hcap : (capabilityGate cfg codec f).Always W Q g := by
    rw [capabilityGate, always_ifErr]
    exact hgate (only_requireCapOf rfl) fun e => ⟨fun _ => hdispatch, fun _ _ => herr⟩
  have hstate : (stateGate cfg codec f).Always W Q g := by
    rw [stateGate, Prog.always_bind]
    refine hgate (only_act rfl) fun state => ?_
    split
    · exact herr
    · exact hcap
  have hauth : (authGate cfg codec f).Always W Q g := by
    rw [authGate, always_ifErr]
    refine hgate (only_ensureAuthenticated rfl) fun e => ⟨fun _ => hstate, fun _ _ => ?_⟩
    exact hgate ((only_rejectAuth (fun _ => rfl) rfl).bind fun _ => trivial) hQ
  rw [handleFrame, always_ifErr]
  refine hgate (only_act rfl) fun e => ⟨fun _ => ?_, fun _ _ => herr⟩
  split
  · exact herr
  · split
    · exact hgate (only_authFrame f) hQ
    · exact hgate (only_authAnswer (only_handleAuthAccept f)) hQ
    · exact hgate (only_authAnswer (only_handleAuthReject f)) hQ
    · exact hauth

/-- What the dispatch performs on frames that do not close the session. -/
theorem only_dispatch_plain {f : Frame} (hgo : f.header.frameType ≠ .goAway)
    (hclose : f.header.frameType ≠ .close) : (dispatch cfg codec f).Only plainOp := by
  unfold dispatch
  split
  · unfold handleHello
    split <;> simp [acceptRemoteHello, sendHelloAck, established, plainOp, gateOp]
  · unfold handleHelloAck
    split <;> simp [acceptRemoteHello, established, plainOp, gateOp]
  · simp [plainOp, gateOp]
  · trivial
  · unfold handleError
    split <;> simp [plainOp, gateOp]
  · exact absurd ‹_› hgo
  · exact absurd ‹_› hclose
  · unfold handleCloseAck
    split <;> simp [plainOp, gateOp]
  · exact (only_sendError fun _ => rfl).bind fun _ => trivial
  · simp [plainOp, gateOp]

theorem only_handleGoAway (f : Frame) : (handleGoAway cfg codec f).Only frameOp := by
  unfold handleGoAway
  split <;> simp [requireDrain, unsupported, sendError, frameOp, plainOp, gateOp]

theorem only_handleClose (f : Frame) : (handleClose cfg codec f).Only frameOp := by
  unfold handleClose
  split <;> simp [requireDrain, unsupported, sendError, frameOp, plainOp, gateOp]

theorem only_dispatch (f : Frame) : (dispatch cfg codec f).Only frameOp := by
  by_cases hgo : f.header.frameType = .goAway
  · simpa only [dispatch, hgo] using only_handleGoAway f
  by_cases hclose : f.header.frameType = .close
  · simpa only [dispatch, hclose] using only_handleClose f
  exact (only_dispatch_plain hgo hclose).mono fun o ho => by simp [frameOp, ho]

theorem only_handleFrame (f : Frame) : (handleFrame cfg codec f).Only frameOp :=
  always_handleFrame (fun o ho => ⟨by simp [frameOp, plainOp, ho], fun _ _ => rfl⟩)
    (fun _ => trivial) (only_dispatch f)

/-! ## Calls and timers -/

/-- The procedures that callers and timers start and that do not close the session. -/
def Proc.plain : Proc → Bool
  | .closeWith _ | .sendGoAway _ _ => false
  | p => p.callable

/-- The operations of these procedures. -/
def callOp : Op → Bool
  | .load | .lookAuth | .loadCaps | .send _ | .callEstablished | .transfers | .quiet | .heard
  | .failOutgoing | .closeWriter | .flush | .closeTransport => true
  | .store s => s != .closed && s != .closing && s != .draining
  | _ => false

/-- The operations of `SendGoAway`. -/
def goAwayOp : Op → Bool
  | .loadCaps | .sendAndWait _ => true
  | .store s => s == .closing || s == .draining || s == .failed
  | _ => false

theorem only_sendGoAway {flags : ℕ} : (sendGoAway cfg flags message).Only goAwayOp := by
  simp [sendGoAway, sendGoAway.announce, sendGoAway.announceFailed, goAwayOp]

/-- The timers, the sends of the application, and what is called besides that does not
    take the session further. -/
def Proc.bystander : Proc → Bool
  | .authenticate _ | .rejectAuth _ _ _ | .sendApp _ | .transfers | .heartbeat | .authTimeout
  | .writerFailure _ => true
  | _ => false

/-- The operations of these. -/
def bystanderOp : Op → Bool
  | .load | .lookAuth | .loadCaps | .send _ | .transfers | .quiet | .heard | .failOutgoing
  | .closeWriter | .flush | .closeTransport => true
  | .store s => s == .failed || s == .authRejected || s == .authPending
  | _ => false

theorem only_bystander {p : Proc} (hp : p.bystander = true) :
    (code cfg codec p).Only bystanderOp := by
  cases p with
  | authenticate => simp [code, authenticate, bystanderOp]
  | rejectAuth => exact (only_rejectAuth (fun _ => rfl) rfl).map _
  | sendApp => simp [code, sendApp, requireCapOf, bystanderOp]
  | transfers => simp [code, bystanderOp]
  | heartbeat => simp [code, heartbeat, heartbeat.heartbeatFails, bystanderOp]
  | authTimeout =>
    refine Prog.Only.map (p := authTimeout cfg) ?_ _
    refine Prog.only_ite.mpr ⟨fun _ => trivial, fun _ => Prog.only_then rfl fun st => ?_⟩
    cases st <;> simp [rejectAuthAndClose, rejectAuth, bystanderOp]
  | writerFailure =>
    refine Prog.Only.map (Prog.only_then rfl fun st => ?_) _
    cases st <;> simp [bystanderOp]
  | _ => cases hp

theorem callOp_of_bystanderOp {o : Op} (h : bystanderOp o = true) : callOp o = true := by
  cases o with
  | store s => cases s <;> first | rfl | cases h
  | _ => first | rfl | cases h

/-- A procedure that is called, other than `CloseWith` and `SendGoAway`, does not store
    a closing or closed state. -/
theorem only_code {p : Proc} (hp : p.plain = true) : (code cfg codec p).Only callOp := by
  cases p with
  | run | finishPeerClose | finishPeerDrain | closeWith | sendGoAway => cases hp
  | acceptAuth => simp [code, acceptAuth, callOp]
  | sendHello => simp [code, sendHello, callOp]
  | sendHelloAck => simp [code, sendHelloAck, established, callOp]
  | _ => exact (only_bystander rfl).mono fun _ => callOp_of_bystanderOp

/-! ## Closing procedures -/

/-- The operations of `finishPeerClose` and `finishPeerDrain`. -/
def finishOp : Op → Bool
  | .sendAndWait _ | .cleanupIncoming | .failOutgoing | .awaitDrained | .putPeerCloseDone _
  | .closeWriter | .closeTransport => true
  | .store s => s == .closed || s == .failed
  | _ => false

/-- The operations of `CloseWith`, `finishPeerClose` and `finishPeerDrain`. -/
def closeOp : Op → Bool
  | .loadCaps | .sendAndWait _ | .lockClose | .unlockClose | .beginLocalClose _
  | .cleanupIncoming | .failOutgoing | .beginClosing | .awaitCloseAck | .awaitDrained
  | .loadPeerCloseSeen | .awaitPeerCloseDone | .putPeerCloseDone _ | .closeWriter
  | .closeTransport => true
  | .store s => s == .closed || s == .closing || s == .failed
  | _ => false

variable {m : CloseMessage}

theorem only_closeWith : (closeWith cfg m).Only closeOp := by
  simp [closeWith, closeLocked, closeDraining, closeImmediate, closeAcked,
    closeAcked.peerFailed, closeAcked.transportFailed, closeUnsent, closeUnsent.failed,
    waitPeerCloseDone, closeOp]

theorem only_finishPeerClose {collision : Bool} :
    (finishPeerClose cfg m collision).Only finishOp := by
  simp [finishPeerClose, finishFailed, finishOp]

theorem only_finishPeerDrain {collision : Bool} :
    (finishPeerDrain cfg m collision).Only finishOp := by
  simp [finishPeerDrain, finishFailed, finishOp]

theorem closeOp_of_finishOp {o : Op} (h : finishOp o = true) : closeOp o = true := by
  cases o with
  | store s => cases s <;> first | rfl | cases h
  | _ => first | rfl | cases h

/-- The operations of a turn of `Run` outside `HandleFrame`. -/
def turnOp : Op → Bool
  | .load | .cleanupIncoming | .failOutgoing | .closeWriter | .closeTransport | .again => true
  | .store s => s == .failed
  | _ => false

theorem only_handlingFailed {e : Err} : (handlingFailed cfg e).Only turnOp := by
  simp [handlingFailed, turnOp]

theorem only_connectionLost {e : Err} : (connectionLost cfg e).Only turnOp := by
  simp [connectionLost, turnOp]

theorem only_goOn : goOn.Only turnOp := by
  simp [goOn, turnOp]

/-- The operations of all procedures but `Run`. -/
def asideOp (o : Op) : Bool := callOp o || goAwayOp o || closeOp o

/-- What the procedures other than `Run` perform. -/
theorem only_aside {p : Proc} (hp : p ≠ .run) : (code cfg codec p).Only asideOp := by
  cases p with
  | run => exact absurd rfl hp
  | closeWith => exact (only_closeWith.map _).mono fun o ho => by simp [asideOp, ho]
  | finishPeerClose =>
    exact (only_finishPeerClose.map _).mono fun o ho => by simp [asideOp, closeOp_of_finishOp ho]
  | finishPeerDrain =>
    exact (only_finishPeerDrain.map _).mono fun o ho => by simp [asideOp, closeOp_of_finishOp ho]
  | sendGoAway => exact (only_sendGoAway.map _).mono fun o ho => by simp [asideOp, ho]
  | _ => exact (only_code rfl).mono fun o ho => by simp [asideOp, ho]

end Etp.Session
