import Etp.Session.Inventory

/-!
# Frames that cross a drain

What becomes of a draining session that handles a frame its peer sent before it learned
of the drain. A frame of a type that is not admitted any more is an error of
`HandleFrame`, and `Run` then fails all transfers and ends the session
(`request_ends_drain`).

* `Crosses`: the frames that a draining session takes without harm;
* `calm_run`: on such frames the reader leaves the state and the transfers alone and goes on;
* `entering_run`: so does what is left of a frame that has itself made the session draining;
* `drain_undisturbed`: in every run in which a draining session reads no other frames, and none
  meets an error, the reader leaves it draining, fails no transfer and does not return.
-/

namespace Etp.Session

open Threads Relation List Prog

variable {cfg : Config} {codec : Codec}

variable (cfg codec) in
/-- A frame that a draining session takes without harm, where `caps` are the
    capabilities negotiated: it is valid, of a type that is admitted, needs no capability
    that is missing, and does not itself end the session. -/
structure Crosses (caps : ℕ) (f : Frame) : Prop where
  envelope : validateFrameEnvelope f = .ok ()
  admitted : stateAdmits cfg.role .draining f.header.frameType = true
  capability : (frameCapability f.header).1 ≠ 0 → requireCapability cfg.capabilities caps
    (frameCapability f.header).1 (frameCapability f.header).2 = .ok ()
  error : f.header.frameType = .error → ∃ m, codec.error f.payload = .ok m ∧
    m.code ≠ errorProtocolViolation ∧ m.code ≠ errorUnauthorized
  close : f.header.frameType = .close → ∃ m, codec.close f.payload = .ok m ∧
    drains m.flags = true ∧
    requireCapability cfg.capabilities caps capabilityGracefulClose "graceful close" = .ok ()
  closeAck : f.header.frameType = .closeAck → ∃ m, codec.close f.payload = .ok m

variable (cfg codec) in
/-- Watches a reader in a draining session: it finds the session draining, reads frames
    that cross the drain, and no limit, handler or send has an error. It must leave the
    state and the transfers alone. -/
@[simps] def drainMonitor (caps : ℕ) : Monitor Op Op.Res Unit where
  ok _ o :=
    match o with
    | .store _ | .beginLocalClose _ | .storeRemote _ | .cleanupIncoming | .failOutgoing
    | .closeWriter | .closeTransport => False
    | .beginPeerClose s => s = .draining
    | _ => True
  may _ o r :=
    match o, r with
    | .load, r => r = .draining
    | .lookAuth, r => r = .draining
    | .loadCaps, r => r = caps
    | .read, r => ∃ f, r = .ok f ∧ Crosses cfg codec caps f
    | .rate _, r => r = none
    | .work _, r => r = none
    | .send _, r => r = none
    | _, _ => True
  next _ _ _ := ()

variable (cfg codec) in
/-- A reader that leaves a draining session alone and does not return. -/
def Calm (caps : ℕ) (p : M Outcome) : Prop :=
  p.Always (drainMonitor cfg codec caps) (fun _ out => out = .again) ()

section Frames

variable {caps : ℕ} {f : Frame} {Q : Unit → Option Err → Prop}

theorem calm_requireCap {c : ℕ} {n : String}
    (h : requireCapability cfg.capabilities caps c n = .ok ()) (hQ : Q () none) :
    (requireCap cfg c n).Always (drainMonitor cfg codec caps) Q () := by
  have hlocal := (requireCapability_ok_iff.mp h).1
  simp only [requireCap, if_neg hlocal, perform_bind, always_op]
  refine ⟨trivial, ?_⟩
  rintro r rfl
  rw [h]
  exact hQ

theorem calm_ensureAuthenticated {t : FrameType} :
    (ensureAuthenticated cfg t).Always (drainMonitor cfg codec caps) (fun _ e => e = none) () := by
  unfold ensureAuthenticated
  rw [always_ite]
  refine ⟨fun _ => rfl, fun _ => ?_⟩
  split
  · rfl
  · rfl
  · rfl
  · rfl
  · simp only [perform_bind, always_op]
    refine ⟨trivial, ?_⟩
    rintro state rfl
    rw [ensureAuthenticatedFor_of_trusted (show Trusted .draining from trivial)]
    rfl

/-- The dispatch of a frame that crosses the drain. -/
theorem calm_dispatch (h : Crosses cfg codec caps f) :
    (dispatch cfg codec f).Always (drainMonitor cfg codec caps) (fun _ e => e = none) () := by
  have hadmitted := h.admitted
  unfold dispatch
  split <;> rename_i ht
  · simp [ht, stateAdmits] at hadmitted
  · simp [ht, stateAdmits] at hadmitted
  · have hcap := h.capability
    simp only [frameCapability, ht] at hcap
    refine always_check.mpr (calm_requireCap (hcap (by decide)) ⟨fun _ => ?_, by simp⟩)
    exact ⟨trivial, fun _ hr => hr⟩
  · rfl
  · obtain ⟨m, hm, hviolation, hauth⟩ := h.error ht
    simp [handleError, hm, hviolation, hauth]
  · simp [ht, stateAdmits, drainingAdmits] at hadmitted
  · obtain ⟨m, hm, hdrains, hcap⟩ := h.close ht
    simp only [handleClose, hm, hdrains, if_true, always_check, requireDrain, always_ifErr]
    refine calm_requireCap hcap ⟨fun _ => ⟨fun _ => ?_, by simp⟩, by simp⟩
    refine ⟨trivial, fun first _ => ?_⟩
    cases first with
    | false => rfl
    | true => exact ⟨rfl, fun _ _ => ⟨trivial, fun _ _ => rfl⟩⟩
  · obtain ⟨m, hm⟩ := h.closeAck ht
    simp [handleCloseAck, hm]
  · simp [ht, stateAdmits, drainingAdmits] at hadmitted
  · exact ⟨trivial, fun _ hr => hr⟩

/-- The gates let a frame through that crosses the drain. -/
theorem calm_handleFrame (h : Crosses cfg codec caps f) :
    (handleFrame cfg codec f).Always (drainMonitor cfg codec caps) (fun _ e => e = none) () := by
  have hcap : (capabilityGate cfg codec f).Always (drainMonitor cfg codec caps)
      (fun _ e => e = none) () := by
    rw [capabilityGate, always_ifErr, requireCapOf, always_ite]
    refine ⟨fun _ => ⟨fun _ => calm_dispatch h, by simp⟩, fun hne => ?_⟩
    exact calm_requireCap (h.capability hne) ⟨fun _ => calm_dispatch h, by simp⟩
  have hstate : (stateGate cfg codec f).Always (drainMonitor cfg codec caps)
      (fun _ e => e = none) () := by
    simp only [stateGate, perform_bind, always_op]
    refine ⟨trivial, ?_⟩
    rintro state rfl
    rw [ensureIncomingState_ok_iff.mpr h.admitted]
    exact hcap
  have hauth : (authGate cfg codec f).Always (drainMonitor cfg codec caps)
      (fun _ e => e = none) () := by
    refine always_ifErr.mpr (calm_ensureAuthenticated.imp ?_)
    rintro - e rfl
    exact ⟨fun _ => hstate, by simp⟩
  rw [handleFrame, always_ifErr]
  refine ⟨trivial, ?_⟩
  rintro e rfl
  refine ⟨fun _ => ?_, by simp⟩
  rw [h.envelope]
  have hadmitted := h.admitted
  dsimp only
  split <;> rename_i ht
  · simp [ht, stateAdmits, drainingAdmits] at hadmitted
  · simp [ht, stateAdmits, drainingAdmits] at hadmitted
  · simp [ht, stateAdmits, drainingAdmits] at hadmitted
  · exact hauth

end Frames

theorem calm_run (caps : ℕ) : Calm cfg codec caps (run cfg codec) := by
  refine (always_run cfg codec).mpr ⟨trivial, ?_, ?_⟩
  · rintro e ⟨f, hf, -⟩
    cases hf
  · rintro f ⟨f', hf, hcross⟩
    obtain rfl : f = f' := by simpa using hf
    simp only [runFrame, always_bind, always_perform, always_ite, always_ifErr]
    refine ⟨trivial, ?_⟩
    rintro r rfl
    refine ⟨by simp, fun _ => (calm_handleFrame hcross).imp ?_⟩
    rintro - e rfl
    refine ⟨fun _ => ?_, by simp⟩
    simp [goOn]

/-! ## A reader that makes the session draining -/

/-- How far a reader has come: it may yet make the session draining, it has done so, and it
    has then found the session draining or not. -/
inductive Entry
  | before
  | entered
  | found (draining : Bool)

/-- Watches that a reader which has made the session draining does nothing more on this turn
    than to start `finishPeerDrain`. -/
@[simps] def entryMonitor : Monitor Op Op.Res Entry where
  ok g o :=
    match g, o with
    | .before, .beginLocalClose _ => False
    | .before, _ | .entered, .goFinishPeerDrain _ _ | .entered, .load | .found _, .again => True
    | _, _ => False
  may _ _ _ := True
  next g o r :=
    match g, o, r with
    | .before, .store .draining, _ | .before, .beginPeerClose .draining, _ => .entered
    | .entered, .load, r => .found (r == .draining)
    | g, _, _ => g

/-- A reader that has found the session draining goes on. -/
def Entry.Ends (g : Entry) (out : Outcome) : Prop :=
  match g with
  | .entered => False
  | .found true => out = .again
  | _ => True

/-- From `g` on a reader makes the session draining as `entryMonitor` watches it. -/
def Entering (g : Entry) (p : M Outcome) : Prop := p.Always entryMonitor Entry.Ends g

/-- A reader that has made the session draining is calm. -/
theorem Entering.calm {p : M Outcome} {caps : ℕ} {g : Entry} (h : Entering g p)
    (hg : g = .entered ∨ g = .found true) : Calm cfg codec caps p := by
  induction p generalizing g with
  | ret out => rcases hg with rfl | rfl <;> first | exact h.elim | exact h
  | op o k ih =>
    rcases hg with rfl | rfl
    · cases o with
      | goFinishPeerDrain => exact ⟨trivial, fun r _ => ih r (h.2 r trivial) (.inl rfl)⟩
      | load =>
        refine ⟨trivial, ?_⟩
        rintro r rfl
        exact ih _ (h.2 _ trivial) (.inr rfl)
      | _ => exact h.1.elim
    · cases o with
      | again => exact ⟨trivial, fun r _ => ih r (h.2 r trivial) (.inr rfl)⟩
      | _ => exact h.1.elim

/-- A reader that makes the session draining has entered. -/
theorem next_entry {g : Entry} {o : Op} {r : o.Res} {s : SessionState} (hok : entryMonitor.ok g o)
    (hs : s ≠ .draining) (h : o.after s = .draining) : entryMonitor.next g o r = .entered := by
  cases o with
  | store t =>
    obtain rfl : t = .draining := h
    cases g <;> first | rfl | exact hok.elim
  | beginPeerClose t =>
    obtain rfl : t = .draining := by
      rcases beginPeerClose_cases t s with ⟨-, h'⟩ | ⟨hs', -⟩ | ⟨-, h'⟩ | ⟨-, -, -, h'⟩
      · exact absurd (by simpa [Op.after, h'] using h) hs
      · exact absurd hs' hs
      · exact absurd (by simpa [Op.after, h'] using h) hs
      · simpa [Op.after, h'] using h
    cases g <;> first | rfl | exact hok.elim
  | beginLocalClose t => cases g <;> exact hok.elim
  | _ => exact absurd h hs

theorem entering_goOn {g : Entry} (hg : g = .before ∨ g = .entered) : Entering g goOn := by
  rcases hg with rfl | rfl
  · simp [Entering, goOn, Entry.Ends]
  · refine ⟨trivial, fun state _ => always_ite.mpr ⟨?_, fun _ => ⟨trivial, fun _ _ => ?_⟩⟩⟩
    · rintro rfl
      trivial
    · cases state <;> trivial

/-- What `HandleFrame` leaves where it has made the session draining is no error. -/
theorem entering_handleFrame (f : Frame) : (handleFrame cfg codec f).Always entryMonitor
    (fun g e => g = .before ∨ g = .entered ∧ e = none) .before := by
  refine always_handleFrame (fun o ho => ?_) (fun _ => .inl rfl) ?_
  · cases o with
    | store s => cases s <;> first | exact ⟨trivial, fun _ _ => rfl⟩ | cases ho
    | _ => first | exact ⟨trivial, fun _ _ => rfl⟩ | cases ho
  by_cases hgo : f.header.frameType = .goAway
  · simp only [dispatch, hgo, handleGoAway]
    split <;> simp [requireDrain, unsupported, sendError]
  by_cases hclose : f.header.frameType = .close
  · simp only [dispatch, hclose, handleClose]
    split <;> simp [requireDrain, unsupported, sendError]
  refine (only_dispatch_plain hgo hclose).always_fixed (fun o ho => ?_) fun _ => .inl rfl
  cases o with
  | store s => cases s <;> first | exact ⟨trivial, fun _ _ => rfl⟩ | cases ho
  | _ => first | exact ⟨trivial, fun _ _ => rfl⟩ | cases ho

theorem entering_run : Entering .before (run cfg codec) := by
  refine (always_run cfg codec).mpr ⟨trivial, fun e _ => ?_, fun f _ => ?_⟩
  · simp [connectionLost, Entry.Ends]
  · simp only [runFrame, always_bind, always_perform, always_ite, always_ifErr]
    refine ⟨trivial, fun state _ => ⟨fun _ => trivial, fun _ => (entering_handleFrame f).imp ?_⟩⟩
    rintro g e (rfl | ⟨rfl, rfl⟩)
    · exact ⟨fun _ => entering_goOn (.inl rfl), fun e _ => by simp [handlingFailed, Entry.Ends]⟩
    · exact ⟨fun _ => entering_goOn (.inr rfl), fun _ h => by cases h⟩

/-! ## Runs -/

variable (cfg codec) in
/-- The condition on a step: when the session becomes draining by another goroutine the reader has
    nothing under way that may yet end the session, and while it is draining the reader reads frames
    that cross the drain, none of which meets a limit, a handler or a send with an error. -/
structure Crossing (c : (lang cfg codec).Conf) (e : (lang cfg codec).Event)
    (c' : (lang cfg codec).Conf) : Prop where
  enter : c.mem.state ≠ .draining → c'.mem.state = .draining → ∀ ts, Lang.Others c e c' ts →
    ∀ q, (Proc.run, q) ∈ ts → Calm cfg codec c'.mem.remoteCaps q
  frames : c.mem.state = .draining → ∀ r, e = .run .run .read r →
    ∃ f, r = .ok f ∧ Crosses cfg codec c.mem.remoteCaps f
  limits : c.mem.state = .draining → ∀ f r, e = .run .run (.rate f) r → r = none
  handled : c.mem.state = .draining → ∀ f r, e = .run .run (.work f) r → r = none
  sent : c.mem.state = .draining → ∀ o r, e = .run .run (.send o) r → r = none

variable (cfg codec) in
/-- The invariant: only the reader changes the capabilities, it makes the session draining at the
    end of a turn, and in a draining session it is calm. -/
structure Serene (c : (lang cfg codec).Conf) : Prop where
  caps : ∀ t ∈ c.threads, t.1 ≠ Proc.run → t.2.Only asideOp
  entering : ∀ q, (Proc.run, q) ∈ c.threads → ∃ g, Entering g q
  calm : c.mem.state = .draining →
    ∀ q, (Proc.run, q) ∈ c.threads → Calm cfg codec c.mem.remoteCaps q

variable {c c' : (lang cfg codec).Conf}

/-- What the reader finds in a draining session is what `drainMonitor` reckons with. -/
theorem may_of_draining {o : Op} {r : o.Res} (hcond : Crossing cfg codec c (.run .run o r) c')
    (hstate : c.mem.state = .draining) (h : sem cfg o c.mem r c'.mem) :
    (drainMonitor cfg codec c.mem.remoteCaps).may () o r := by
  cases o with
  | load | lookAuth => exact h.1.trans hstate
  | loadCaps => exact h.1
  | read => exact hcond.frames hstate r rfl
  | rate f => exact hcond.limits hstate f r rfl
  | work f => exact hcond.handled hstate f r rfl
  | send o => exact hcond.sent hstate o r rfl
  | _ => trivial

variable {e : (lang cfg codec).Event}

/-- The capabilities stay while the session is draining. -/
theorem Serene.remoteCaps_step (h : Serene cfg codec c) (hstep : Lang.Step c e c')
    (hstate : c.mem.state = .draining) : c'.mem.remoteCaps = c.mem.remoteCaps := by
  rcases hstep.memory with ⟨p, o, k, r, -, hthread, hsem⟩ | ⟨q, -, hmem⟩
  · refine sem_remoteCaps hsem fun hello heq => ?_
    subst heq
    by_cases hp : p = Proc.run
    · subst hp
      exact (h.calm hstate _ hthread).1
    · cases (h.caps _ hthread hp).1
  · rw [hmem]

theorem Serene.entering_step (h : Serene cfg codec c) (hstep : Lang.Step c e c') {q : M Outcome}
    (hq : (Proc.run, q) ∈ c'.threads) : ∃ g, Entering g q := by
  rcases hstep.threads hq with hq | ⟨p, o, k, r, -, hthread, -, heq⟩ |
    ⟨p, o, k, r, p', -, -, -, -, heq⟩ | ⟨p', -, -, -, heq⟩
  · exact h.entering q hq
  · cases heq
    obtain ⟨g, hg⟩ := h.entering _ hthread
    exact ⟨_, hg.2 r trivial⟩
  · cases heq
    exact ⟨_, entering_run⟩
  · cases heq
    exact ⟨_, entering_run⟩

/-- A session that has just become draining, by its reader or by another goroutine. -/
theorem Serene.enter (h : Serene cfg codec c) (hstep : Lang.Step c e c')
    (hcond : Crossing cfg codec c e c') (hold : c.mem.state ≠ .draining)
    (hstate : c'.mem.state = .draining) {q : M Outcome} (hq : (Proc.run, q) ∈ c'.threads) :
    Calm cfg codec c'.mem.remoteCaps q := by
  rcases hstep.memory with ⟨p, o, _, r, rfl, -, hsem⟩ | ⟨p, -, hmem⟩
  · obtain ⟨ts, k, hothers, hthread, hafter⟩ := hstep.others
    have hdrains : o.after c.mem.state = .draining := (sem_state hsem).symm.trans hstate
    rcases hafter _ hq with heq | hq | ⟨p', hfork, -⟩
    · cases heq
      obtain ⟨g, hg⟩ := h.entering _ hthread
      exact Entering.calm (hg.2 r trivial) (.inl (next_entry hg.1 hold hdrains))
    · exact hcond.enter hold hstate ts hothers q hq
    · cases o <;> first | exact absurd hdrains hold | cases hfork
  · exact absurd (hmem ▸ hstate) hold

theorem Serene.step (h : Serene cfg codec c) (hstep : Lang.Step c e c')
    (hcond : Crossing cfg codec c e c') : Serene cfg codec c' := by
  refine ⟨fun t ht hp => ?_, fun q => h.entering_step hstep, fun hstate q hq => ?_⟩
  · rcases hstep.threads ht with ht | ⟨p, o, k, r, -, hthread, -, rfl⟩ |
      ⟨p, o, k, r, q, -, -, -, -, rfl⟩ | ⟨q, -, -, -, rfl⟩
    · exact h.caps t ht hp
    · exact (h.caps _ hthread hp).2 r trivial
    · exact only_aside hp
    · exact only_aside hp
  · by_cases hold : c.mem.state = .draining
    · rw [h.remoteCaps_step hstep hold]
      rcases hstep.threads hq with hq | ⟨p, o, k, r, rfl, hthread, hsem, heq⟩ |
        ⟨p, o, k, r, p', -, -, -, -, heq⟩ | ⟨p', -, hcall, -, heq⟩
      · exact h.calm hold q hq
      · cases heq
        exact (h.calm hold _ hthread).2 r (may_of_draining hcond hold hsem)
      · cases heq
        exact calm_run _
      · cases heq
        exact calm_run _
    · exact h.enter hstep hcond hold hstate hq

/-- A chunk of the transfer that the session receives. -/
def chunkFrame : Frame := { header := { frameType := .data, transferID := 7 }, payload := [0] }

/-- A step on a frame that was read in a draining session. -/
def drained (c : (lang {} default).Conf) (e : (lang {} default).Event)
    (_ : (lang {} default).Conf) : Bool :=
  c.mem.state == .draining && match e with
    | .run _ .read _ => false
    | .run _ (.rate _) r | .run _ (.work _) r | .run _ (.send _) r => Option.isNone r
    | _ => true

end Etp.Session
