import Etp.Lib.Simulation
import Etp.Session.Programs

/-!
# The authentication, once granted

Two sessions that differ in `Auth.Required` alone, from memories that differ in the
record of the authentication at most. The one that requires it looks at the state for
every frame and every local send (`Op.lookAuth`), where the other does not. As long as
these looks find a trusted state, the two show the same runs: the same calls and
frames, the same operations with the same results, the same states and the same frames
sent (`auth_transparent`).

Outside the trusted states they part. `Closing` is not one: the session that has
accepted its peer and closes rejects the acknowledgement of its close
(`closeAck_rejected`).
-/

namespace Etp.Session

open Threads

/-- The configuration with `Auth.Required` set or not. -/
def Config.requiring (cfg : Config) (required : Bool) : Config :=
  { cfg with authRequired := required }

/-- What is seen of a session: the calls and operations with their results, and the state
    after each. -/
abbrev Observation := Seen Proc Op Op.Res SessionState

/-- The looks of the authentication. -/
def Op.looks : Op → Bool
  | .lookAuth => true
  | _ => false

/-- All but the looks of the authentication is seen. -/
def observe (cfg : Config) (codec : Codec) :
    (lang cfg codec).Event → (lang cfg codec).Conf → Option Observation :=
  Lang.see Op.looks Mem.state

/-- The states in which a look of the authentication leads to nothing. -/
def quietLook : Proc → SessionState → Prop
  | .authTimeout, s => s ≠ .new ∧ s ≠ .authPending ∧ s ≠ .failed
  | _, s => Trusted s

/-- The results with which an operation leads a procedure nowhere else, if it is a look. -/
def quietOp (p : Proc) : (o : Op) → o.Res → Prop
  | .lookAuth, s => quietLook p s
  | _, _ => True

/-- The procedure that begins with a look. -/
def opensWithLook : Proc → Bool
  | .authTimeout => true
  | _ => false

/-- What comes right before a look: the rate limit and the envelope of a frame are in order, a local
    send has checked the state and the capabilities, or `SendHello` the state. -/
def promptsLook : Proc → (o : Op) → o.Res → Bool
  | .run, .rate f, e => e.isNone && (validateFrameEnvelope f).isOk && gated f.header.frameType
  | .sendApp _, .load, s => s == .established
  | .sendApp _, .loadCaps, _ => true
  | .sendHello _, .load, s => s == .new || s == .authAccepted
  | _, _, _ => false

/-- The same memories but for the frames sent before and the verdict on the peer. -/
def Alike (before before' : List Out) (m m' : Mem) : Prop :=
  m' = { m with sent := m'.sent, granted := m'.granted } ∧
    ∃ sent, m.sent = before ++ sent ∧ m'.sent = before' ++ sent

section

variable {cfg : Config} {codec : Codec} {before before' : List Out}

/-- What an operation does with another record of frames sent and of the verdict. -/
theorem sem_record {m m₁ : Mem} {o : Op} {r : o.Res} (h : sem cfg o m r m₁) (g : Bool) :
    ∃ sent g₁, m₁.sent = m.sent ++ sent ∧ ∀ before,
      sem cfg o { m with sent := before, granted := g } r
        { m₁ with sent := before ++ sent, granted := g₁ } := by
  cases o with
  | send o =>
    rcases h with ⟨rfl, hadmits, rfl⟩ | ⟨hr, rfl⟩
    · exact ⟨[o], g, rfl, fun _ => .inl ⟨rfl, hadmits, rfl⟩⟩
    · exact ⟨[], g, by simp, fun _ => .inr ⟨hr, by simp⟩⟩
  | sendAndWait o =>
    rcases h with ⟨hadmits, rfl⟩ | ⟨hr, rfl⟩
    · exact ⟨[o], g, rfl, fun _ => .inl ⟨hadmits, rfl⟩⟩
    · exact ⟨[], g, by simp, fun _ => .inr ⟨hr, by simp⟩⟩
  | callAuth request =>
    obtain rfl := h
    exact ⟨[], g || Verdict.accepts r, by simp, fun _ => by simp [sem]⟩
  | work f =>
    obtain ⟨incoming, opening, outgoing, calls, rfl, hcalls⟩ := h
    exact ⟨[], g, by simp, fun _ => ⟨incoming, opening, outgoing, calls, by simp, hcalls⟩⟩
  | transfers =>
    obtain ⟨incoming, opening, outgoing, rfl⟩ := h
    exact ⟨[], g, by simp, fun _ => ⟨incoming, opening, outgoing, by simp⟩⟩
  | _ =>
    refine ⟨[], g, ?_, fun before => ?_⟩ <;> simp only [sem] at h ⊢ <;> grind

theorem Alike.sem_right {m m' m₁ : Mem} {o : Op} {r : o.Res} (h : Alike before before' m m')
    (hsem : sem cfg o m r m₁) : ∃ m₁', sem cfg o m' r m₁' ∧ Alike before before' m₁ m₁' := by
  obtain ⟨heq, sent, hsent, hsent'⟩ := h
  obtain ⟨more, g, hmore, hsem'⟩ := sem_record hsem m'.granted
  have hsem' := hsem' m'.sent
  rw [← heq] at hsem'
  exact ⟨_, hsem', rfl, sent ++ more, by simp [hmore, hsent], by simp [hsent']⟩

theorem Alike.symm {m m' : Mem} (h : Alike before before' m m') : Alike before' before m' m := by
  obtain ⟨heq, sent, hsent, hsent'⟩ := h
  refine ⟨?_, sent, hsent', hsent⟩
  rw [heq]

/-- The looks of the authentication as silent operations. -/
def looks (cfg : Config) (codec : Codec) (before before' : List Out) :
    Lang.Silence (lang cfg codec) SessionState where
  hidden := Op.looks
  quiet := quietOp
  prompts := promptsLook
  opens := opensWithLook
  view := Mem.state
  alike := Alike before before'
  view_eq h := by rw [h.1]
  sem_right h hsem := h.sem_right hsem
  sem_left h hsem := by
    obtain ⟨m₁, hsem', halike⟩ := h.symm.sem_right hsem
    exact ⟨m₁, hsem', halike.symm⟩
  keeps {o} _ _ _ ho hsem := by
    cases o with
    | lookAuth => exact hsem.2
    | _ => cases ho
  starts {o} ho := by
    cases o with
    | lookAuth => rfl
    | _ => cases ho

/-! ## The programs of the two sessions -/

/-- The relation between the programs of the two sessions. -/
abbrev SimLook (p : Proc) {α : Type} : Bool → M α → M α → Prop :=
  Prog.Sim Op.looks (quietOp p) (promptsLook p)

variable {p : Proc} {g : Bool} {α : Type}

/-- A look that is due finds a trusted state. -/
theorem sim_ensureAuthenticated {t : FrameType} (hp : p ≠ .authTimeout)
    (hg : gated t = true → g = true) :
    SimLook p g (ensureAuthenticated (cfg.requiring true) t)
      (ensureAuthenticated (cfg.requiring false) t) := by
  have hquiet : ∀ s, quietLook p s → Trusted s := by
    intro s hs
    cases p with
    | authTimeout => exact absurd rfl hp
    | _ => exact hs
  cases ht : gated t with
  | false =>
    rw [ensureAuthenticated_exempt ht, ensureAuthenticated_exempt ht]
    exact .ret none
  | true =>
    obtain rfl := hg ht
    rw [ensureAuthenticated_gated rfl ht]
    refine .skip rfl fun s hs => ?_
    rw [ensureAuthenticatedFor_of_trusted (hquiet s hs)]
    exact .ret none

theorem Sim.ifErr {p' q' : M (Option Err)} {h h' : Err → M α} {k k' : M α}
    (hp : SimLook p g p' q') (hh : ∀ e, SimLook p false (h e) (h' e))
    (hk : SimLook p false k k') : SimLook p g (ifErr p' h k) (ifErr q' h' k') := by
  refine Prog.Sim.bind hp fun a => ?_
  cases a with
  | none => exact hk
  | some e => exact hh e

theorem Sim.ite {c : Prop} [Decidable c] {a a' b b' : M α} (ha : c → SimLook p g a a')
    (hb : ¬c → SimLook p g b b') :
    SimLook p g (if c then a else b) (if c then a' else b') := by
  by_cases hc : c
  · rw [if_pos hc, if_pos hc]
    exact ha hc
  · rw [if_neg hc, if_neg hc]
    exact hb hc

theorem sim_authGate {f : Frame} (hg : gated f.header.frameType = true → g = true) :
    SimLook .run g (authGate (cfg.requiring true) codec f)
      (authGate (cfg.requiring false) codec f) :=
  Sim.ifErr (sim_ensureAuthenticated (by simp) hg) (fun _ => .refl _) (.refl _)

theorem handleAuth_requiring (hhandler : cfg.authHandler = true) (required : Bool) (f : Frame) :
    handleAuth (cfg.requiring required) codec f = handleAuth cfg codec f := by
  simp only [handleAuth, Config.requiring, hhandler]
  rfl

theorem sim_checkRateLimit {f : Frame} {h h' : Err → M α} {k k' : M α}
    (hh : ∀ e, SimLook p false (h e) (h' e))
    (hk : SimLook p (promptsLook p (.rate f) none) k k') :
    SimLook p g (ifErr (checkRateLimit f) h k) (ifErr (checkRateLimit f) h' k') := by
  refine .op fun r => ?_
  cases r with
  | none => exact hk
  | some e => exact (hh e).prompted

theorem sim_authFrame (hhandler : cfg.authHandler = true) (f : Frame) :
    SimLook .run g (authFrame (cfg.requiring true) codec f)
      (authFrame (cfg.requiring false) codec f) := by
  rw [authFrame, authFrame, handleAuth_requiring hhandler, handleAuth_requiring hhandler]
  exact .refl _

theorem sim_handleFrame (hhandler : cfg.authHandler = true) (f : Frame) :
    SimLook .run g (handleFrame (cfg.requiring true) codec f)
      (handleFrame (cfg.requiring false) codec f) := by
  refine sim_checkRateLimit (fun _ => .refl _) ?_
  split
  · exact .refl _
  · rename_i hvalid
    split
    · exact sim_authFrame hhandler f
    · exact .refl _
    · exact .refl _
    · refine sim_authGate fun hg => ?_
      simp [promptsLook, hvalid, hg, Except.isOk, Except.toBool]

theorem sim_run (hhandler : cfg.authHandler = true) :
    SimLook .run g (run (cfg.requiring true) codec) (run (cfg.requiring false) codec) := by
  refine .op fun r => ?_
  cases r with
  | error e => exact .refl _
  | ok f =>
    refine .op fun state => Sim.ite (fun _ => .refl _) fun _ => ?_
    exact Sim.ifErr (sim_handleFrame hhandler f) (fun _ => .refl _) (.refl _)

/-- The check of a capability prompts the look that follows it. -/
theorem sim_requireCap {capability : ℕ} {name : String} {k k' : M (Option Err)}
    (hprompts : ∀ {caps}, promptsLook p .loadCaps caps = true) (hk : SimLook p true k k') :
    SimLook p g (check (requireCap (cfg.requiring true) capability name) k)
      (check (requireCap (cfg.requiring false) capability name) k') := by
  by_cases hlocal : cfg.capabilities &&& capability = 0
  · simp only [requireCap, Config.requiring, hlocal, if_true]
    exact .ret _
  · simp only [requireCap, Config.requiring, hlocal, if_false]
    refine .op fun caps => ?_
    rw [hprompts]
    cases hcaps : requireCapability cfg.capabilities caps capability name with
    | ok _ =>
      simp only [Prog.bind, hcaps]
      exact hk
    | error e =>
      simp only [Prog.bind, hcaps]
      exact .ret _

theorem sim_sendApp (t : FrameType) :
    SimLook (.sendApp t) g (sendApp (cfg.requiring true) t) (sendApp (cfg.requiring false) t) := by
  have hsend : SimLook (.sendApp t) true
      (check (ensureAuthenticated (cfg.requiring true) t) (send (.app t)))
      (check (ensureAuthenticated (cfg.requiring false) t) (send (.app t))) :=
    Sim.ifErr (sim_ensureAuthenticated (by simp) fun _ => rfl) (fun _ => .refl _) (.refl _)
  refine .op fun s => Sim.ite (fun _ => .refl _) fun hs => ?_
  obtain rfl : s = .established := not_not.mp hs
  by_cases hcap : (frameCapability { frameType := t }).1 = 0
  · simp only [requireCapOf, hcap]
    exact hsend
  · simp only [requireCapOf, hcap, if_false]
    exact sim_requireCap rfl hsend

theorem sim_sendHello (role : String) :
    SimLook (.sendHello role) g (sendHello (cfg.requiring true) role)
      (sendHello (cfg.requiring false) role) := by
  have hsend : SimLook (.sendHello role) true
      (do
        if role ≠ "" ∧ role ≠ Role.client.name then return some ("invalid hello role: " ++ role)
        check (ensureAuthenticated (cfg.requiring true) .hello) do
          check (send .hello) do
            act (.store .helloSent)
            return none)
      (do
        if role ≠ "" ∧ role ≠ Role.client.name then return some ("invalid hello role: " ++ role)
        check (ensureAuthenticated (cfg.requiring false) .hello) do
          check (send .hello) do
            act (.store .helloSent)
            return none) := by
    refine Sim.ite (fun _ => .refl _) fun _ => ?_
    exact Sim.ifErr (sim_ensureAuthenticated (by simp) fun _ => rfl) (fun _ => .refl _) (.refl _)
  refine Sim.ite (fun _ => .refl _) fun _ => .op fun s => Sim.ite (fun _ => ?_) fun hs => ?_
  · refine .op fun s => Sim.ite (fun _ => .refl _) fun hs => ?_
    obtain rfl : s = .authAccepted := not_not.mp hs
    exact hsend
  · obtain rfl : s = .new := not_not.mp hs
    exact hsend

theorem sim_authTimeout :
    SimLook .authTimeout true (authTimeout (cfg.requiring true))
      (authTimeout (cfg.requiring false)) := by
  refine .skip rfl fun s hs => ?_
  cases s <;> first | exact .ret none | exact absurd rfl hs.1 | exact absurd rfl hs.2.1 |
    exact absurd rfl hs.2.2

/-- The procedures of the two sessions. -/
theorem sim_code (hhandler : cfg.authHandler = true) (p : Proc) :
    SimLook p (opensWithLook p) (code (cfg.requiring true) codec p)
      (code (cfg.requiring false) codec p) := by
  cases p with
  | run => exact sim_run hhandler
  | sendApp t => exact (sim_sendApp t).map _
  | sendHello role => exact (sim_sendHello role).map _
  | authTimeout => exact sim_authTimeout.map _
  | _ => exact .refl _

/-! ## The same runs -/

/-- The looks of the authentication find states in which they lead to nothing. -/
def LooksTrusted (cfg : Config) (codec : Codec) (_ : (lang cfg codec).Conf)
    (e : (lang cfg codec).Event) (_ : (lang cfg codec).Conf) : Prop :=
  ∀ p s, e = .run p .lookAuth s → quietLook p s

/-- Where the authentication would look next, it would find such a state. -/
def WouldTrust (cfg : Config) (codec : Codec) (_ : (lang cfg codec).Conf)
    (e : (lang cfg codec).Event) (c' : (lang cfg codec).Conf) : Prop :=
  match e with
  | .run p o r => promptsLook p o r = true → quietLook p c'.mem.state
  | .call p => opensWithLook p = true → quietLook p c'.mem.state

theorem looksTrusted_quiet {c c' : (lang cfg codec).Conf} {e : (lang cfg codec).Event}
    (h : LooksTrusted cfg codec c e c') : (looks cfg codec before before').Quiet c e c' := by
  rintro p o r he ho
  cases o with
  | lookAuth => exact h p r he
  | _ => cases ho

theorem looks_calm {p : Proc} {m : Mem} (h : quietLook p m.state) :
    (looks cfg codec before before').Calm p m := by
  intro o ho
  cases o with
  | lookAuth => exact ⟨m.state, ⟨rfl, rfl⟩, h⟩
  | _ => cases ho

theorem wouldTrust_ready {c c' : (lang (cfg.requiring false) codec).Conf}
    {e : (lang (cfg.requiring false) codec).Event} (h : WouldTrust _ _ c e c') :
    @Lang.Silence.Ready (lang (cfg.requiring true) codec) _ (code (cfg.requiring false) codec)
      (looks _ _ before before') c e c' := by
  cases e with
  | call p => exact fun hopens => looks_calm (h hopens)
  | run p o r =>
    refine ⟨fun hprompts => looks_calm (h hprompts), fun q hq hopens => ?_⟩
    -- no thread that is started begins with a look
    cases o <;> cases hq <;> cases hopens

/-- The two sessions in `Run`. -/
theorem paired_running {R : Proc → M Outcome → M Outcome → Prop} {m m' : Mem}
    (hm : Alike before before' m m')
    (hR : R .run (run (cfg.requiring true) codec) (run (cfg.requiring false) codec)) :
    @Lang.Paired (lang (cfg.requiring true) codec) _ (code (cfg.requiring false) codec)
      (looks _ _ before before') R (running _ _ m) (running (cfg.requiring false) codec m') :=
  ⟨hm, [(.run, _, _)], rfl, rfl, List.forall_mem_singleton.mpr hR⟩

theorem auth_transparent (hhandler : cfg.authHandler = true) {m m' : Mem}
    (hm : m' = { m with sent := m'.sent, granted := m'.granted }) :
    (∀ vs c, Lang.Traced (LooksTrusted _ _) (observe _ _)
        (running (cfg.requiring true) codec m) vs c →
      ∃ c', Lang.Traced Lang.free (observe _ _) (running (cfg.requiring false) codec m') vs c' ∧
        Alike m.sent m'.sent c.mem c'.mem) ∧
    ∀ vs c', Lang.Traced (WouldTrust _ _) (observe _ _)
        (running (cfg.requiring false) codec m') vs c' →
      ∃ c, Lang.Traced Lang.free (observe _ _) (running (cfg.requiring true) codec m) vs c ∧
        Alike m.sent m'.sent c.mem c'.mem := by
  have halike : Alike m.sent m'.sent m m' := ⟨hm, [], by simp, by simp⟩
  let S := looks (cfg.requiring true) codec m.sent m'.sent
  have hcode : ∀ p, S.Sim p (S.opens p) (code (cfg.requiring true) codec p)
      (code (cfg.requiring false) codec p) := sim_code hhandler
  have hrun : S.Sim .run false (run (cfg.requiring true) codec) (run (cfg.requiring false) codec) :=
    sim_run hhandler
  constructor
  · intro vs c htraced
    have hpaired := paired_running (R := S.Behind) halike ⟨false, hrun⟩
    obtain ⟨c', htraced', halike', -⟩ :=
      hpaired.forward hcode (htraced.mono fun _ _ _ => looksTrusted_quiet)
    exact ⟨c', htraced', halike'⟩
  · intro vs c' htraced'
    have hpaired := paired_running (R := S.Sync) halike hrun.sync
    obtain ⟨c, htraced, halike', -⟩ :=
      hpaired.backward hcode (htraced'.mono fun _ _ _ => wouldTrust_ready)
    exact ⟨c, htraced, halike'⟩

end

/-! ## An acknowledgement of the close -/

/-- A server session that has accepted its client and has answered its hello, and one that
    has answered the hello. -/
def grantedSession : Mem :=
  { state := .established, remoteCaps := allCapabilities, sent := [.authAccept, .helloAck],
    granted := true }

@[inherit_doc grantedSession]
def openSession : Mem := { grantedSession with sent := [.helloAck], granted := false }

/-- The acknowledgement of an immediate close. -/
def ackFrame : Frame := plainFrame .closeAck [0, 0, 0, 0, 0, 1, 0, 0, 0, 0, 0, 0]

/-- `CloseWith` until it waits for the acknowledgement, and `Run` on the acknowledgement up
    to its envelope. -/
def closeAndRead (required : Bool) :
    List (Lang.Move (lang (Config.requiring {} required) wireCodec) Env) :=
  .call (.closeWith {}) :: List.replicate 6 (.run 1 {}) ++
    [.run 0 { frame := .ok ackFrame }, .run 0 {}, .run 0 {}]

/-- A run from a list of moves, with what is seen of it. -/
def replay (required : Bool)
    (xs : List (Lang.Move (lang (Config.requiring {} required) wireCodec) Env))
    (c : (lang (Config.requiring {} required) wireCodec).Conf) :
    Option (List Observation × (lang (Config.requiring {} required) wireCodec).Conf) :=
  Lang.record (answer (Config.requiring {} required)) (fun _ _ _ => true) (observe _ _) xs c

theorem replay_traced {required : Bool}
    {xs : List (Lang.Move (lang (Config.requiring {} required) wireCodec) Env)}
    {c c' : (lang (Config.requiring {} required) wireCodec).Conf} {vs : List Observation}
    (h : replay required xs c = some (vs, c')) :
    Lang.Traced Lang.free (observe _ _) c vs c' :=
  Lang.record_traced (P := fun _ _ _ => true) answer_sem (fun _ _ _ _ => trivial) h

theorem closeAck_rejected : ∃ vs c c',
    Lang.Traced Lang.free (observe _ _)
      (running (Config.requiring {} true) wireCodec grantedSession) vs c ∧
    Lang.Traced Lang.free (observe _ _)
      (running (Config.requiring {} false) wireCodec openSession) vs c' ∧
    vs.getLast? = some (.run .run (.rate ackFrame) none .closing) ∧
    (∃ ws c₁, Lang.Traced Lang.free (observe _ _) c ws c₁ ∧ c₁.mem.state = .authRejected ∧
      c₁.mem.closeAck = false ∧ c₁.mem.sent = [.authAccept, .helloAck, .close { flags := 1 },
        .authReject authRejectUnauthorized authRejectUnauthorized "auth required"] ∧
      ∃ e, (Proc.run, .ret (.returned (some e))) ∈ c₁.threads) ∧
    ∃ ws c₁', Lang.Traced Lang.free (observe _ _) c' ws c₁' ∧ c₁'.mem.state = .closing ∧
      c₁'.mem.closeAck = true ∧ c₁'.mem.sent = [.helloAck, .close { flags := 1 }] ∧
      (Proc.run, .ret .again) ∈ c₁'.threads := by
  have hplay : ∃ vs c c',
      replay true (closeAndRead true) (running _ _ grantedSession) = some (vs, c) ∧
      replay false (closeAndRead false) (running _ _ openSession) = some (vs, c') ∧
      vs.getLast? = some (.run .run (.rate ackFrame) none .closing) ∧
      (∃ ws c₁, replay true (List.replicate 8 (.run 0 {})) c = some (ws, c₁) ∧
        c₁.mem.state = .authRejected ∧ c₁.mem.closeAck = false ∧
        c₁.mem.sent = [.authAccept, .helloAck, .close { flags := 1 },
          .authReject authRejectUnauthorized authRejectUnauthorized "auth required"] ∧
        ∃ e, (Proc.run, .ret (.returned (some e))) ∈ c₁.threads) ∧
      ∃ ws c₁', replay false (List.replicate 4 (.run 0 {})) c' = some (ws, c₁') ∧
        c₁'.mem.state = .closing ∧ c₁'.mem.closeAck = true ∧
        c₁'.mem.sent = [.helloAck, .close { flags := 1 }] ∧
        (Proc.run, .ret .again) ∈ c₁'.threads := by
    refine ⟨_, _, _, rfl, rfl, rfl, ⟨_, _, rfl, rfl, rfl, rfl, ?_⟩, _, _, rfl, rfl, rfl, rfl, ?_⟩
    · exact ⟨_, List.mem_cons_self⟩
    · exact List.mem_cons_self
  obtain ⟨vs, c, c', hc, hc', hlast, ⟨ws, c₁, hc₁, hrejected⟩, ws', c₁', hc₁', haccepted⟩ := hplay
  exact ⟨vs, c, c', replay_traced hc, replay_traced hc', hlast,
    ⟨ws, c₁, replay_traced hc₁, hrejected⟩, ws', c₁', replay_traced hc₁', haccepted⟩

/-- A look of `Run` in an established session, if it is one. -/
def establishedLook (_ : (lang (Config.requiring {} true) wireCodec).Conf)
    (e : (lang (Config.requiring {} true) wireCodec).Event)
    (_ : (lang (Config.requiring {} true) wireCodec).Conf) : Bool :=
  match e with
  | .run .run .lookAuth SessionState.established => true
  | .run _ .lookAuth _ => false
  | _ => true

theorem looksTrusted_of_established {c c' : (lang (Config.requiring {} true) wireCodec).Conf}
    {e : (lang (Config.requiring {} true) wireCodec).Event}
    (h : establishedLook c e c' = true) : LooksTrusted _ _ c e c' := by
  rintro p s rfl
  cases p with
  | run =>
    cases s with
    | established => trivial
    | _ => cases h
  | _ => cases h

theorem auth_transparent_ping : ∃ vs c c',
    Lang.Traced (LooksTrusted _ _) (observe _ _)
      (running (Config.requiring {} true) wireCodec grantedSession) vs c ∧
    c.mem.sent = [.authAccept, .helloAck, .pong] ∧
    Lang.Traced Lang.free (observe _ _)
      (running (Config.requiring {} false) wireCodec openSession) vs c' ∧
    c'.mem.sent = [.helloAck, .pong] := by
  have hplay : ∃ vs c,
      Lang.record (answer (Config.requiring {} true)) establishedLook (observe _ _)
        (.run 0 { frame := .ok (plainFrame .ping) } :: List.replicate 7 (.run 0 {}))
        (running (Config.requiring {} true) wireCodec grantedSession) = some (vs, c) ∧
      c.mem.sent = [.authAccept, .helloAck, .pong] := ⟨_, _, rfl, rfl⟩
  obtain ⟨vs, c, hc, hsent⟩ := hplay
  have hrun := Lang.record_traced answer_sem (fun _ _ _ => looksTrusted_of_established) hc
  obtain ⟨c', hrun', -, sent, heq, heq'⟩ :=
    (@auth_transparent {} wireCodec rfl grantedSession openSession rfl).1 vs c hrun
  have hpong : sent = [.pong] := by simpa [hsent, grantedSession] using heq.symm
  exact ⟨vs, c, c', hrun, hsent, hrun', by rw [heq', hpong]; rfl⟩

end Etp.Session
