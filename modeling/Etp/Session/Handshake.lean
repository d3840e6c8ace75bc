import Etp.Session.Gate
import Etp.Lib.Run

/-!
# The client's side of the handshake

A client asks twice: `Authenticate` enqueues `FrameAuth` and then sets
`AuthPending`, `SendHello` checks the state, enqueues `FrameHello` and then
sets `HelloSent`. The replies, `FrameAuthAccept` and `FrameHelloAck`, are
handled by another goroutine, the reader, which judges them against the state
of the session: the reply is only admitted in the state the caller sets *after*
the enqueueing.

The two goroutines interleave freely once the request is out
(`Handshake.Step`). A reply that is judged before the caller's store is refused
and ends the session; judged after it, it is accepted, and nothing moves the
state back (`granted_iff_stored`).
-/

namespace Etp.Handshake

open Relation

/-- The two exchanges a client begins. -/
inductive Exchange
  | hello
  | auth
  deriving DecidableEq, Repr

/-- The state the caller sets once its request is enqueued. -/
def Exchange.pending : Exchange → SessionState
  | .hello => .helloSent
  | .auth => .authPending

/-- The state the reply puts the session in. -/
def Exchange.granted : Exchange → SessionState
  | .hello => .established
  | .auth => .authAccepted

/-- The check of the state at the start of the call: `SendHello` needs a new or authenticated
    session and passes `EnsureAuthenticatedFor`; `Authenticate` does not look at the state. -/
def Exchange.mayBegin (required : Bool) (state : SessionState) : Exchange → Bool
  | .hello => (state = .new || state = .authAccepted) &&
      (ensureAuthenticatedFor required state .hello).toBool
  | .auth => true

/-- Whether the reply passes `EnsureAuthenticatedFor`; `HandleFrame` dispatches
    the frames of the authentication before that check. -/
def Exchange.authenticated (required : Bool) (state : SessionState) : Exchange → Bool
  | .hello => (ensureAuthenticatedFor required state .helloAck).toBool
  | .auth => true

/-- Whether the state admits the reply: `ensureIncomingState` for
    `FrameHelloAck`, the comparison in `HandleFrame` for `FrameAuthAccept`. -/
def Exchange.admits (state : SessionState) : Exchange → Bool
  | .hello => stateAdmits .client state .helloAck
  | .auth => state = .authPending

/-- Where the caller is in `SendHello` or `Authenticate`. -/
inductive Caller
  | check
  | enqueue
  | store
  | returned (ok : Bool)
  deriving DecidableEq, Repr

/-- Where the reader is with the reply: waiting for it, inside `HandleFrame`
    (received, past `EnsureAuthenticatedFor`, past the state check), or done:
    accepted, refused with an error, and stopped by the error path of `Run`. -/
inductive Reader
  | waiting
  | received
  | checked
  | admitted
  | accepted
  | refused
  | stopped
  deriving DecidableEq, Repr

/-- A client during an exchange. `judged` records whether the caller had stored
    the pending state when the reply was judged. -/
structure Client where
  state : SessionState
  caller : Caller := .check
  sent : Bool := false
  reader : Reader := .waiting
  judged : Option Bool := none
  deriving DecidableEq, Repr

/-- The call has stored the pending state. -/
def Client.stored (c : Client) : Bool := c.caller = .returned true

/-- One step of the caller or of the reader. A valid reply is there once the
    request was sent: the server needs nothing else to answer it. -/
inductive Step (e : Exchange) (required : Bool) : Client → Client → Prop
  | begin (c : Client) : c.caller = .check → e.mayBegin required c.state = true →
      Step e required c { c with caller := .enqueue }
  | reject (c : Client) : c.caller = .check → e.mayBegin required c.state = false →
      Step e required c { c with caller := .returned false }
  | enqueue (c : Client) : c.caller = .enqueue →
      Step e required c { c with caller := .store, sent := true }
  | enqueueFails (c : Client) : c.caller = .enqueue →
      Step e required c { c with caller := .returned false }
  | store (c : Client) : c.caller = .store →
      Step e required c { c with caller := .returned true, state := e.pending }
  | receive (c : Client) : c.reader = .waiting → c.sent = true →
      Step e required c { c with reader := .received }
  | authenticated (c : Client) : c.reader = .received → e.authenticated required c.state = true →
      Step e required c { c with reader := .checked }
  | unauthenticated (c : Client) : c.reader = .received →
      e.authenticated required c.state = false →
      Step e required c
        { c with reader := .refused, judged := some c.stored, state := .authRejected }
  | pass (c : Client) : c.reader = .checked → e.admits c.state = true →
      Step e required c { c with reader := .admitted, judged := some c.stored }
  | refuse (c : Client) : c.reader = .checked → e.admits c.state = false →
      Step e required c { c with reader := .refused, judged := some c.stored }
  | grant (c : Client) : c.reader = .admitted →
      Step e required c { c with reader := .accepted, state := e.granted }
  | stop (c : Client) : c.reader = .refused →
      Step e required c
        { c with reader := .stopped,
                 state := if c.state = .authRejected then c.state else .failed }

/-- Both goroutines have finished: the call returned without an error, and the
    reply was accepted or has ended the session. -/
def Client.Finished (c : Client) : Prop :=
  c.caller = .returned true ∧ (c.reader = .accepted ∨ c.reader = .stopped)

instance (c : Client) : Decidable c.Finished := by unfold Client.Finished; infer_instance

/-! ## The invariant -/

/-- The reply has not been judged yet. -/
def Reader.Unjudged (r : Reader) : Prop := r = .waiting ∨ r = .received ∨ r = .checked

/-- Before the store, the reply is either not judged yet, in the state the call began in, or was
    judged too early. After it, it is not judged yet, in the pending state; or it was judged after
    the store, and is being or has been accepted; or it was judged too early. -/
structure Inv (e : Exchange) (st₀ : SessionState) (c : Client) : Prop where
  unsent : c.sent = false → c.reader = .waiting
  early : c.caller = .check ∨ c.caller = .enqueue ∨ c.caller = .returned false → c.sent = false
  fresh : c.stored = false → c.reader.Unjudged → c.state = st₀
  before : c.caller = .store → c.reader.Unjudged ∨ c.judged = some false
  after : c.stored = true →
    (c.reader.Unjudged ∧ c.state = e.pending) ∨
    (c.reader = .admitted ∧ c.judged = some true) ∨
    (c.reader = .accepted ∧ c.judged = some true ∧ c.state = e.granted) ∨
    c.judged = some false
  unjudged : c.reader.Unjudged → c.judged = none

theorem inv_init (e : Exchange) (st₀ : SessionState) : Inv e st₀ { state := st₀ } := by
  constructor <;> simp [Client.stored, Reader.Unjudged]

/-- A state that does not wait for the reply does not admit it. -/
theorem not_admits {e : Exchange} {state : SessionState} (h : state ≠ e.pending) :
    e.admits state = false := by
  cases e <;> cases state <;> simp_all [Exchange.admits, Exchange.pending, stateAdmits]

theorem admits_pending (e : Exchange) : e.admits e.pending = true := by
  cases e <;> rfl

theorem authenticated_pending (e : Exchange) (required : Bool) :
    e.authenticated required e.pending = true := by
  cases e <;> cases required <;> rfl

variable {e : Exchange} {required : Bool} {st₀ : SessionState} {c c' : Client}

section Inv

variable (hi : Inv e st₀ c)
include hi

theorem sent_of_reader (h : c.reader ≠ .waiting) : c.sent = true := by
  by_contra hs
  exact h (hi.unsent (by simpa using hs))

/-- A reply judged in another state than the pending one is judged before the store. -/
theorem not_stored_of_state (hr : c.reader.Unjudged) (hs : c.state ≠ e.pending) :
    c.stored = false := by
  by_contra hstored
  have hj := hi.unjudged hr
  rcases hi.after (by simpa using hstored) with ⟨-, h⟩ | ⟨-, h⟩ | ⟨-, h, -⟩ | h
  · exact hs h
  all_goals simp [hj] at h

/-- The store moves the call from its second to its third row of the invariant. -/
theorem inv_store (hc : c.caller = .store) :
    Inv e st₀ { c with caller := .returned true, state := e.pending } := by
  refine ⟨hi.unsent, by simp, by simp [Client.stored], by simp, fun _ => ?_, hi.unjudged⟩
  rcases hi.before hc with hu | hj
  · exact .inl ⟨hu, rfl⟩
  · exact .inr (.inr (.inr hj))

/-- A refused reply was judged before the store. -/
theorem inv_refuse {state : SessionState} (hs : c.stored = false) (hsent : c.sent = true) :
    Inv e st₀ { c with reader := .refused, judged := some c.stored, state } := by
  refine ⟨fun h => absurd (h.symm.trans hsent) Bool.false_ne_true, hi.early, ?_,
    fun _ => .inr (by rw [hs]), fun h => absurd h (by simpa [Client.stored] using hs), ?_⟩
  all_goals simp [Reader.Unjudged]

/-- The reply is admitted, before or after the store. -/
theorem inv_pass (hsent : c.sent = true) :
    Inv e st₀ { c with reader := .admitted, judged := some c.stored } := by
  refine ⟨fun h => absurd (h.symm.trans hsent) Bool.false_ne_true, hi.early, ?_,
    fun h => .inr ?_, fun h => .inr (.inl ⟨rfl, congrArg some h⟩), ?_⟩
  · simp [Reader.Unjudged]
  · simp [Client.stored, show c.caller = .store from h]
  · simp [Reader.Unjudged]

theorem inv_step (h : Step e required c c') : Inv e st₀ c' := by
  cases h with
  | store hc => exact inv_store hi hc
  | unauthenticated hr ha =>
    refine inv_refuse hi (not_stored_of_state hi (.inr (.inl hr)) fun hp => ?_)
      (sent_of_reader hi (by simp [hr]))
    -- The pending state is trusted.
    rw [hp, authenticated_pending] at ha
    exact Bool.false_ne_true ha.symm
  | refuse hr ha =>
    refine inv_refuse hi (not_stored_of_state hi (.inr (.inr hr)) fun hp => ?_)
      (sent_of_reader hi (by simp [hr]))
    rw [hp, admits_pending] at ha
    exact Bool.false_ne_true ha.symm
  | pass hr ha => exact inv_pass hi (sent_of_reader hi (by simp [hr]))
  | grant hr | stop hr =>
    -- A reply that is judged keeps its row.
    have hsent := sent_of_reader hi (by simp [hr])
    refine ⟨fun h => absurd (h.symm.trans hsent) Bool.false_ne_true, hi.early,
      by simp [Reader.Unjudged], fun h => ?_, fun h => ?_, by simp [Reader.Unjudged]⟩
    · have := hi.before h
      simp_all [Reader.Unjudged]
    · have := hi.after h
      simp_all [Reader.Unjudged]
  | begin hc | reject hc | enqueue hc | enqueueFails hc =>
    -- The caller moves, before the store.
    obtain ⟨h1, h2, h3, h4, h5, h6⟩ := hi
    constructor <;> simp_all [Client.stored, Reader.Unjudged]
  | receive hr hs | authenticated hr hs =>
    -- The reply stays unjudged.
    obtain ⟨h1, h2, h3, h4, h5, h6⟩ := hi
    constructor <;> simp_all [Client.stored, Reader.Unjudged]

end Inv

/-- A call that does not begin in the pending state has a reply that is judged too early refused. -/
theorem refused_step (hst : st₀ ≠ e.pending) (hi : Inv e st₀ c)
    (hr : c.judged = some false → c.reader = .refused ∨ c.reader = .stopped)
    (h : Step e required c c') :
    c'.judged = some false → c'.reader = .refused ∨ c'.reader = .stopped := by
  cases h with
  | pass hc ha =>
    intro hj
    have hs : c.stored = false := Option.some.inj hj
    rw [hi.fresh hs (.inr (.inr hc)), not_admits hst] at ha
    exact absurd ha Bool.false_ne_true
  | unauthenticated | refuse => exact fun _ => .inl rfl
  | stop => exact fun _ => .inr rfl
  | grant hc | receive hc | authenticated hc =>
    intro hj
    have := hr hj
    simp [hc] at this
  | begin | reject | enqueue | enqueueFails | store => exact hr

/-! ## The outcome -/

theorem inv_run (h : ReflTransGen (Step e required) { state := st₀ } c) : Inv e st₀ c :=
  Run.invariant _ (inv_init e st₀) (fun _ _ hi hs => inv_step hi hs) h

theorem refused_run (hst : st₀ ≠ e.pending)
    (h : ReflTransGen (Step e required) { state := st₀ } c) :
    c.judged = some false → c.reader = .refused ∨ c.reader = .stopped :=
  (Run.invariant
    (fun c => Inv e st₀ c ∧ (c.judged = some false → c.reader = .refused ∨ c.reader = .stopped))
    ⟨inv_init e st₀, by simp⟩
    (fun _ _ hi hs => ⟨inv_step hi.1 hs, refused_step hst hi.1 hi.2 hs⟩) h).2

/-- A reply judged after the store, once accepted, has put the session in the state it grants. -/
theorem granted_of_judged (hi : Inv e st₀ c) (hj : c.judged = some true)
    (hr : c.reader = .accepted) : c.state = e.granted := by
  cases hc : c.caller with
  | check => simp_all [hi.unsent (hi.early (.inl hc))]
  | enqueue => simp_all [hi.unsent (hi.early (.inr (.inl hc)))]
  | store =>
    have := hi.before hc
    simp [hr, hj, Reader.Unjudged] at this
  | returned ok =>
    cases ok with
    | false => simp_all [hi.unsent (hi.early (.inr (.inr hc)))]
    | true =>
      have := hi.after (by simp [Client.stored, hc])
      simp_all [Reader.Unjudged]

/-- In every interleaving, once both goroutines have finished, the reply was
    accepted and the session is in the state it grants if the reply was judged
    after the caller's store, and, for a call that did not begin in the pending
    state, only then. A reply so accepted is final. -/
theorem granted_iff_stored (e : Exchange) (required : Bool) {st₀ : SessionState} {c : Client}
    (h : ReflTransGen (Step e required) { state := st₀ } c) :
    (c.Finished → c.judged = some true → c.reader = .accepted ∧ c.state = e.granted) ∧
      (st₀ ≠ e.pending → c.Finished →
        c.reader = .accepted ∧ c.state = e.granted → c.judged = some true) ∧
      (c.judged = some true → c.reader = .accepted →
        ∀ d, ReflTransGen (Step e required) c d → d.reader = .accepted ∧ d.state = e.granted) := by
  refine ⟨fun ⟨hc, hr⟩ hj => ?_, fun hst ⟨hc, _⟩ ⟨hr, _⟩ => ?_, fun hj hr d hd => ?_⟩
  · rcases (inv_run h).after (by simp [Client.stored, hc]) with ⟨hu, -⟩ | ⟨ha, -⟩ | ⟨ha, -, hs⟩ | hf
    · rcases hr with hr | hr <;> simp [hr, Reader.Unjudged] at hu
    · rcases hr with hr | hr <;> simp [hr] at ha
    · exact ⟨ha, hs⟩
    · simp [hj] at hf
  · rcases (inv_run h).after (by simp [Client.stored, hc]) with ⟨hu, -⟩ | ⟨-, hj⟩ | ⟨-, hj, -⟩ | hf
    · simp [hr, Reader.Unjudged] at hu
    · exact hj
    · exact hj
    · have := refused_run hst h hf
      simp [hr] at this
  · -- `accepted` is the last position of the reader, so the invariant pins the state.
    have hd' : d.reader = .accepted ∧ d.judged = some true := by
      refine Run.invariant (fun d => d.reader = .accepted ∧ d.judged = some true) ⟨hr, hj⟩
        (fun x y hx hxy => ?_) hd
      cases hxy <;> simp_all
    exact ⟨hd'.1, granted_of_judged (inv_run (h.trans hd)) hd'.2 hd'.1⟩

/-- The reply to a hello is accepted when it is handled after the store. -/
theorem helloAck_after_store_granted :
    ∃ c : Client, ReflTransGen (Step .hello false) { state := .new } c ∧ c.Finished ∧
      c.judged = some true ∧ c.reader = .accepted ∧ c.state = .established := by
  have run : ReflTransGen (Step .hello false) { state := .new }
      { state := .established, caller := .returned true, sent := true, reader := .accepted,
        judged := some true } :=
    .head (.begin _ rfl rfl) <| .head (.enqueue _ rfl) <| .head (.store _ rfl) <|
      .head (.receive _ rfl rfl) <| .head (.authenticated _ rfl rfl) <|
      .head (.pass _ rfl rfl) <| .single (.grant _ rfl)
  obtain ⟨hr, hs⟩ := (granted_iff_stored .hello false run).1 (by decide) rfl
  exact ⟨_, run, by decide, rfl, hr, hs⟩

/-- The reply may outrun the store. -/
theorem outrun (x : Exchange) : ReflTransGen (Step x false) { state := .new }
    { state := x.pending, caller := .returned true, sent := true, reader := .stopped,
      judged := some false } := by
  cases x <;> exact
    .head (.begin _ rfl rfl) <| .head (.enqueue _ rfl) <| .head (.receive _ rfl rfl) <|
      .head (.authenticated _ rfl rfl) <| .head (.refuse _ rfl rfl) <|
      .head (.stop _ rfl) <| .single (.store _ rfl)

/-- The server's valid answer is then refused, the session ends, and the caller's store leaves it
    in the pending state. -/
theorem reply_before_store_refused :
    (¬∀ c, ReflTransGen (Step .hello false) { state := .new } c → c.Finished →
        c.reader = .accepted ∧ c.state = Exchange.hello.granted) ∧
      ¬∀ c, ReflTransGen (Step .auth false) { state := .new } c → c.Finished →
        c.reader = .accepted ∧ c.state = Exchange.auth.granted := by
  constructor <;> intro h
  · exact absurd (h _ (outrun .hello) (by decide)).1 (by decide)
  · exact absurd (h _ (outrun .auth) (by decide)).1 (by decide)

end Etp.Handshake
