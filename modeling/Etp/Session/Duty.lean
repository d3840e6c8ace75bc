import Etp.Session.Inventory

/-!
# The duties of a close

Who is to finish a close that has begun. The state of a session becomes closing or
draining through `CloseWith`, which then goes on to a final state itself, or through a
`FrameClose`, for which the reader starts `finishPeerClose` or `finishPeerDrain`. A
`Duty` is the place of a goroutine in this; `Duty.monitor` says which operations go
with it.

* `duty_code`: every procedure but `SendGoAway` does its duty, as long as `Run` reads no
  `FrameGoAway`: a `CloseWith` returns without an error only if it has closed the
  session and its transport or found the session closing.

`SendGoAway` and a received `FrameGoAway` move the state as well, but leave nobody with
the duty to finish.
-/

namespace Etp.Session

open Threads

variable {cfg : Config} {codec : Codec}

/-- The goroutines that answer the close of a peer. -/
def Proc.finisher : Proc → Bool
  | .finishPeerClose _ _ | .finishPeerDrain _ _ => true
  | _ => false

/-- The calls of `CloseWith`. -/
def Proc.closer : Proc → Bool
  | .closeWith _ => true
  | _ => false

/-! ## Duties -/

/-- Where a goroutine is in a closing procedure. A `CloseWith` under the mutex has not
    moved the state or has failed (`locked`), has moved it (`own`), has stored the closed
    state (`shut`), has closed the transport as well (`done`), or has found the session
    closing (`joined`); it returns from the last two (`kept`, `told`). The reader has moved
    the state and is to start a goroutine (`answering`), which is to store a final state
    (`finishing`) and to close the transport then (`finished`, `failing`). -/
inductive Duty
  | free
  | locked
  | own
  | shut
  | done
  | joined
  | kept
  | told
  | answering
  | finishing
  | finished
  | failing
  deriving DecidableEq, Repr

namespace Duty

/-- The operations of a goroutine in the procedure `p`, by its duty. -/
def allows (p : Proc) : Duty → Op → Bool
  | .free => fun
    | .lockClose => p.closer
    | .beginLocalClose _ | .unlockClose => false
    | .beginPeerClose s => s == .closing || s == .draining
    | .store s => s != .closed && s != .closing && s != .draining
    | .goFinishPeerClose _ collision | .goFinishPeerDrain _ collision => collision
    | _ => true
  | .locked => fun
    | .beginLocalClose s => s == .closing || s == .draining
    | .unlockClose => p.closer
    | .loadCaps | .closeTransport | .failOutgoing => true
    | _ => false
  | .own => fun
    | .store s => s == .closed || s == .failed || s == .closing
    | .cleanupIncoming | .failOutgoing | .beginClosing | .sendAndWait _ | .awaitCloseAck
    | .awaitDrained | .awaitPeerCloseDone | .loadPeerCloseSeen | .closeWriter => true
    | _ => false
  | .shut => fun
    | .closeTransport => true
    | _ => false
  | .done => fun
    | .unlockClose => p.closer
    | .store s => s == .failed
    | _ => false
  | .joined => fun
    | .unlockClose => p.closer
    | _ => false
  | .kept | .told => fun _ => false
  | .answering => fun
    | .cleanupIncoming | .failOutgoing => true
    | .goFinishPeerClose _ collision | .goFinishPeerDrain _ collision => !collision
    | _ => false
  | .finishing => fun
    | .store s => (s == .closed || s == .failed) && p.finisher
    | .sendAndWait _ | .putPeerCloseDone _ | .awaitDrained | .closeWriter | .cleanupIncoming
    | .failOutgoing => p.finisher
    | _ => false
  | .finished | .failing => fun
    | .closeTransport => p.finisher
    | _ => false

/-- The duty after an operation. -/
def next (g : Duty) (o : Op) (r : o.Res) : Duty :=
  match o, r with
  | .lockClose, _ => .locked
  | .beginPeerClose _, collision => if collision then g else .answering
  | .beginLocalClose _, moved => if moved then .own else .joined
  | .unlockClose, _ =>
    match g with
    | .done => .kept
    | .joined => .told
    | _ => .free
  | .store s, _ =>
    match g with
    | .own => if s = .closed then .shut else if s = .failed then .locked else .own
    | .done => .locked
    | .finishing => if s = .closed then .finished else .failing
    | g => g
  | .closeTransport, _ =>
    match g with
    | .shut => .done
    | .finished | .failing => .free
    | g => g
  | .goFinishPeerClose _ _, _ | .goFinishPeerDrain _ _, _ => .free
  | _, _ => g

/-- Watches the duties of a goroutine that handles no `FrameGoAway`. -/
@[simps] def monitor (p : Proc) : Monitor Op Op.Res Duty where
  ok g o := g.allows p o = true
  may _ o r :=
    match o, r with
    | .read, r => ∀ f, r = .ok f → f.header.frameType ≠ .goAway
    | _, _ => True
  next g o r := g.next o r

/-- How a goroutine ends: a `CloseWith` without an error has closed the session itself
    or found it closing. -/
def Ends (p : Proc) (g : Duty) (out : Outcome) : Prop :=
  (g = .free ∧ (p.closer = true → out ≠ .returned none)) ∨ g = .kept ∨
    (g = .told ∧ out = .returned none)

/-- The duty at the start of a procedure. -/
def start : Proc → Duty
  | .finishPeerClose _ false | .finishPeerDrain _ false => .finishing
  | _ => .free

/-- Whether a goroutine holds the mutex of `CloseWith`. -/
def holds : Duty → Bool
  | .locked | .own | .shut | .done | .joined => true
  | _ => false

end Duty

/-- A goroutine without a duty may perform what does not close the session. -/
theorem free_of_plain {p : Proc} {o : Op} (h : plainOp o = true ∨ callOp o = true) :
    (Duty.monitor p).ok .free o ∧
      ∀ r, (Duty.monitor p).may .free o r → (Duty.monitor p).next .free o r = .free := by
  cases o with
  | store s => cases s <;> first | exact ⟨rfl, fun _ _ => rfl⟩ | rcases h with h | h <;> cases h
  | lockClose | unlockClose | beginLocalClose | beginPeerClose | goFinishPeerClose
  | goFinishPeerDrain => rcases h with h | h <;> cases h
  | _ => exact ⟨rfl, fun _ _ => rfl⟩

/-- The dispatch of a frame other than `FrameGoAway` ends without a duty: the close of
    the peer is answered by a goroutine. -/
theorem duty_dispatch {p : Proc} {f : Frame} (hgo : f.header.frameType ≠ .goAway) :
    (dispatch cfg codec f).Always (Duty.monitor p) (fun g _ => g = .free) .free := by
  by_cases hclose : f.header.frameType = .close
  · simp only [dispatch, hclose, handleClose]
    split
    · rfl
    · simp [requireDrain, unsupported, sendError, Duty.allows, Duty.next]
  · exact (only_dispatch_plain hgo hclose).always_fixed (fun _ ho => free_of_plain (.inl ho))
      fun _ => rfl

/-- The reader ends its turns without a duty. -/
theorem duty_run : (run cfg codec).Always (Duty.monitor .run) (Duty.Ends .run) .free := by
  have hend (out : Outcome) : Duty.Ends .run .free out := .inl ⟨rfl, fun h => nomatch h⟩
  have hgoOn : goOn.Always (Duty.monitor .run) (Duty.Ends .run) .free := by
    simp [goOn, Duty.allows, Duty.next, Duty.Ends, Proc.closer]
  have hfailed (e : Err) :
      (handlingFailed cfg e).Always (Duty.monitor .run) (Duty.Ends .run) .free := by
    simp [handlingFailed, Duty.allows, Duty.next, Duty.Ends, Proc.closer]
  refine (always_run cfg codec).mpr ⟨rfl, fun e _ => ?_, fun f hr => ?_⟩
  · simp [connectionLost, Duty.allows, Duty.next, Duty.Ends, Proc.closer]
  · have hturn (e : Option Err) :
        (e = none → goOn.Always (Duty.monitor .run) (Duty.Ends .run) .free) ∧
        ∀ e', e = some e' →
          (handlingFailed cfg e').Always (Duty.monitor .run) (Duty.Ends .run) .free :=
      ⟨fun _ => hgoOn, fun e' _ => hfailed e'⟩
    simp only [runFrame, Prog.always_bind, Prog.always_perform, Prog.always_ite, always_ifErr]
    refine ⟨rfl, fun st _ => ⟨fun _ => hend _, fun _ => ?_⟩⟩
    refine always_handleFrame (fun o ho => free_of_plain (.inl (by simp [plainOp, ho]))) hturn
      ((duty_dispatch (hr f rfl)).imp ?_)
    rintro g e rfl
    exact hturn e

theorem duty_code {p : Proc} (hp : ∀ flags message, p ≠ .sendGoAway flags message) :
    (code cfg codec p).Always (Duty.monitor p) (Duty.Ends p) (Duty.start p) := by
  cases p with
  | sendGoAway flags message => exact absurd rfl (hp flags message)
  | run => exact duty_run
  | finishPeerClose m collision =>
    cases collision <;>
      simp [code, finishPeerClose, finishFailed, Duty.start, Duty.allows, Duty.next, Duty.Ends,
        Proc.finisher, Proc.closer]
  | finishPeerDrain m collision =>
    cases collision <;>
      simp [code, finishPeerDrain, finishFailed, Duty.start, Duty.allows, Duty.next, Duty.Ends,
        Proc.finisher, Proc.closer]
  | closeWith m =>
    simp [code, closeWith, closeLocked, closeDraining, closeImmediate, closeAcked,
      closeAcked.peerFailed, closeAcked.transportFailed, closeUnsent, closeUnsent.failed,
      waitPeerCloseDone, Duty.start, Duty.allows, Duty.next, Duty.Ends, Proc.closer]
  | _ =>
    exact (only_code rfl).always_fixed (fun _ ho => free_of_plain (.inr ho)) fun _ =>
      .inl ⟨rfl, by simp [Proc.closer]⟩

end Etp.Session
