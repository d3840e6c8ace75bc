import Etp.Session.Duty
import Etp.Session.Terminal

/-!
# What a nil of CloseWith means

`CloseWith` returns nil at once if it finds the session closing, draining or closed.
That is right as long as whoever moved the state goes on to close the transport, and
wrong after a goaway (`closeWith_untruthful`).

* `Kept`: what the duties of the goroutines say of the memory, and `Kept.turn`: every
  step keeps it;
* `closeWith_truthful`: in every run without goaways, in which a closed session stays closed and
  the answer to the peer does not fail under a `CloseWith` that returns, a nil of `CloseWith` means
  that the session is closed with its transport or that a goroutine is active that will close it.
-/

namespace Etp.Session

open Threads Relation List Duty

variable {cfg : Config} {codec : Codec}

/-! ## What the duties say of the memory -/

/-- What the duties are about: the state, whether the transport is closed, and whether
    the mutex of `CloseWith` is taken. -/
structure View where
  state : SessionState
  tClosed : Bool
  closeMu : Bool

/-- The view of a memory. -/
def Mem.view (m : Mem) : View := ⟨m.state, m.tClosed, m.closeMu⟩

/-- What an operation that a duty allows does to the view and to the duty, and the
    duties of the threads it starts. -/
inductive Turn : View → Duty → View → Duty → List Duty → Prop
  | stay (v : View) (d : Duty) (tClosed : Bool) (new : List Duty) :
      (v.tClosed = true → tClosed = true) → (∀ d ∈ new, d = .free) →
      Turn v d { v with tClosed := tClosed } d new
  | store (v : View) (s : SessionState) : s ≠ .closed → s ≠ .closing → s ≠ .draining →
      Turn v .free { v with state := s } .free []
  | lock (v : View) : v.closeMu = false → Turn v .free { v with closeMu := true } .locked []
  | answer (v : View) (s : SessionState) : v.state ≠ .closing → v.state ≠ .draining →
      (v.state = .closed ↔ s = .closed) → Turn v .free { v with state := s } .answering []
  | collide (v : View) (s : SessionState) : (v.state = .closing ∨ v.state = .draining) →
      (s = .closing ∨ s = .draining) → Turn v .free { v with state := s } .free []
  | move (v : View) (s : SessionState) : (s = .closing ∨ s = .draining) →
      Turn v .locked { v with state := s } .own []
  | join (v : View) : (v.state = .closing ∨ v.state = .draining ∨ v.state = .closed) →
      Turn v .locked v .joined []
  | unlock (v : View) : Turn v .locked { v with closeMu := false } .free []
  | shut (v : View) : Turn v .own { v with state := .closed } .shut []
  | fail (v : View) : Turn v .own { v with state := .failed } .locked []
  | close (v : View) : Turn v .own { v with state := .closing } .own []
  | closeTransport (v : View) : Turn v .shut { v with tClosed := true } .done []
  | keep (v : View) : Turn v .done { v with closeMu := false } .kept []
  | giveUp (v : View) : Turn v .done { v with state := .failed } .locked []
  | tell (v : View) : Turn v .joined { v with closeMu := false } .told []
  | start (v : View) : Turn v .answering v .free [.finishing]
  | finish (v : View) : Turn v .finishing { v with state := .closed } .finished []
  | finishFailed (v : View) : Turn v .finishing { v with state := .failed } .failing []
  | finishTransport (v : View) : Turn v .finished { v with tClosed := true } .free []
  | failTransport (v : View) : Turn v .failing { v with tClosed := true } .free []

variable {p : Proc} {d : Duty}

/-- A state is stored. -/
theorem turn_of_store {s : SessionState} {r : Unit} (v : View)
    (hallows : d.allows p (.store s) = true) :
    Turn v d { v with state := s } (d.next (.store s) r) [] := by
  cases d with
  | free =>
    have hs : (s ≠ .closed ∧ s ≠ .closing) ∧ s ≠ .draining := by simpa [allows] using hallows
    exact .store v s hs.1.1 hs.1.2 hs.2
  | own =>
    have hs : (s = .closed ∨ s = .failed) ∨ s = .closing := by simpa [allows] using hallows
    rcases hs with (rfl | rfl) | rfl
    · exact .shut v
    · exact .fail v
    · exact .close v
  | done =>
    obtain rfl : s = .failed := by simpa [allows] using hallows
    exact .giveUp v
  | finishing =>
    have hs : (s = .closed ∨ s = .failed) ∧ p.finisher = true := by simpa [allows] using hallows
    rcases hs.1 with rfl | rfl
    · exact .finish v
    · exact .finishFailed v
  | _ => cases hallows

/-- A close or drain of the peer is noted. -/
theorem turn_of_peerClose {s : SessionState} (v : View)
    (hallows : d.allows p (.beginPeerClose s) = true) :
    Turn v d { v with state := (beginPeerClose s v.state).1 }
      (d.next (.beginPeerClose s) (beginPeerClose s v.state).2) [] := by
  cases d with
  | free =>
    have hs : s = .closing ∨ s = .draining := by simpa [allows] using hallows
    rcases beginPeerClose_cases s v.state with
      ⟨hold, heq⟩ | ⟨hold, heq⟩ | ⟨hold, heq⟩ | ⟨hclosing, hdraining, hclosed, heq⟩ <;> rw [heq]
    · exact .collide v _ (.inl hold) (.inl hold)
    · exact .collide v s (.inr hold) hs
    · exact .answer v _ (by simp [hold]) (by simp [hold]) Iff.rfl
    · have hs' : s ≠ .closed := by rcases hs with rfl | rfl <;> decide
      exact .answer v s hclosing hdraining (iff_of_false hclosed hs')
  | _ => cases hallows

theorem turn_of_sem {o : Op} {m m' : Mem} {r : o.Res} (hallows : d.allows p o = true)
    (h : sem cfg o m r m') : Turn m.view d m'.view (d.next o r) ((fork o).toList.map start) := by
  have hstay (hview : m'.view = m.view) (hnext : d.next o r = d)
      (hnew : ∀ d ∈ (fork o).toList.map start, d = .free) :
      Turn m.view d m'.view (d.next o r) ((fork o).toList.map start) := by
    rw [hview, hnext]
    exact .stay m.view d m.tClosed _ id hnew
  cases o with
  | store s =>
    cases h
    exact turn_of_store m.view hallows
  | lockClose =>
    obtain ⟨hmu, rfl⟩ := h
    cases d with
    | free => exact .lock m.view hmu
    | _ => cases hallows
  | unlockClose =>
    cases h
    cases d with
    | locked => exact .unlock m.view
    | done => exact .keep m.view
    | joined => exact .tell m.view
    | _ => cases hallows
  | closeTransport =>
    cases h
    cases d with
    | shut => exact .closeTransport m.view
    | finished => exact .finishTransport m.view
    | failing => exact .failTransport m.view
    | free | locked => exact .stay m.view _ true _ (fun _ => rfl) fun _ h => by cases h
    | _ => cases hallows
  | beginLocalClose s =>
    obtain ⟨rfl, rfl⟩ := h
    cases d with
    | locked =>
      have hs : s = .closing ∨ s = .draining := by simpa [allows] using hallows
      rcases beginLocalClose_cases s m.state with ⟨hold, heq⟩ | ⟨-, heq⟩ <;> rw [heq]
      · exact .join m.view hold
      · exact .move m.view s hs
    | _ => cases hallows
  | beginPeerClose s =>
    obtain ⟨rfl, rfl⟩ := h
    exact turn_of_peerClose m.view hallows
  | goFinishPeerClose msg collision | goFinishPeerDrain msg collision =>
    cases h
    cases d with
    | free =>
      obtain rfl : collision = true := hallows
      exact hstay rfl rfl (by simp [fork, start])
    | answering =>
      obtain rfl : collision = false := by simpa [allows] using hallows
      exact .start m.view
    | _ => cases hallows
  | again =>
    cases h
    exact hstay rfl rfl (by simp [fork, start])
  | _ =>
    refine hstay ?_ rfl (by simp [fork])
    simp only [sem] at h
    grind [Mem.view]

/-- The invariant of the duties: a session that is closing has someone to finish it, a
    closed one has someone to close its transport, the mutex of `CloseWith` is held by
    at most one, and what those who return have done or found is so. -/
structure Kept (v : View) (ds : List Duty) : Prop where
  closing : v.state = .closing ∨ v.state = .draining →
    .own ∈ ds ∨ .answering ∈ ds ∨ .finishing ∈ ds
  closed : v.state = .closed → v.tClosed = true ∨ .shut ∈ ds ∨ .finished ∈ ds
  mutex : ds.countP holds = v.closeMu.toNat
  shut : .shut ∈ ds ∨ .finished ∈ ds → v.state = .closed
  done : .done ∈ ds → v.state = .closed ∧ v.tClosed = true
  joined : .joined ∈ ds → (v.state = .closed ∧ v.tClosed = true) ∨
    .answering ∈ ds ∨ .finishing ∈ ds ∨ .finished ∈ ds

theorem Kept.perm {v : View} {ds ds' : List Duty} (h : Kept v ds) (hp : ds.Perm ds') :
    Kept v ds' := by
  obtain ⟨h1, h2, h3, h4, h5, h6⟩ := h
  simp only [hp.mem_iff] at h1 h2 h4 h5 h6
  exact ⟨h1, h2, hp.countP_eq _ ▸ h3, h4, h5, h6⟩

/-- Under the mutex nobody else holds it. -/
theorem Kept.alone {v : View} {ds : List Duty} (h : Kept v (d :: ds)) (hd : d.holds = true)
    {d' : Duty} (hd' : d'.holds = true) : d' ∉ ds := by
  intro hmem
  have hmutex := h.mutex
  rw [countP_cons_of_pos hd] at hmutex
  have hpos := countP_pos_iff.mpr ⟨d', hmem, hd'⟩
  have hle := Bool.toNat_le v.closeMu
  omega

/-- A thread without a duty may be added. -/
theorem Kept.free {v : View} {ds : List Duty} (h : Kept v ds) : Kept v (ds ++ [.free]) := by
  obtain ⟨h1, h2, h3, h4, h5, h6⟩ := h
  constructor
  case mutex => simpa [holds] using h3
  all_goals simpa

section Turn

variable {v v' : View} {d d' : Duty} {ds new : List Duty}

section Kept

variable (h : Kept v (d :: ds)) (hturn : Turn v d v' d' new)
include h hturn

theorem Kept.turn_closing (hstate : v'.state = .closing ∨ v'.state = .draining) :
    .own ∈ d' :: (ds ++ new) ∨ .answering ∈ d' :: (ds ++ new) ∨
      .finishing ∈ d' :: (ds ++ new) := by
  have hclosing := h.closing
  cases hturn <;> grind

theorem Kept.turn_closed (hstate : v'.state = .closed) :
    v'.tClosed = true ∨ .shut ∈ d' :: (ds ++ new) ∨ .finished ∈ d' :: (ds ++ new) := by
  have hclosed := h.closed
  cases hturn <;> grind

theorem Kept.turn_mutex : (d' :: (ds ++ new)).countP holds = v'.closeMu.toNat := by
  have hmutex := h.mutex
  cases hturn with
  | stay _ _ _ _ hnew =>
    have hcount : new.countP holds = 0 :=
      countP_eq_zero.mpr fun d hd => by simp [hnew d hd, holds]
    rw [countP_cons] at hmutex
    rw [countP_cons, countP_append, hcount]
    exact hmutex
  | lock hmu => simpa [countP_cons, holds, hmu] using hmutex
  | unlock | keep | tell =>
    have hle := Bool.toNat_le v.closeMu
    simp only [countP_cons, holds, if_true] at hmutex
    simp only [countP_cons, append_nil, holds, Bool.toNat_false]
    simp only [Bool.false_eq_true, if_false]
    omega
  | _ => simpa [countP_cons, holds] using hmutex

section Closed

variable (hclosed : v.state = .closed → v'.state = .closed)
include hclosed

theorem Kept.turn_shut (hmem : .shut ∈ d' :: (ds ++ new) ∨ .finished ∈ d' :: (ds ++ new)) :
    v'.state = .closed := by
  have hshut := h.shut
  cases hturn <;> grind

theorem Kept.turn_done (hmem : .done ∈ d' :: (ds ++ new)) :
    v'.state = .closed ∧ v'.tClosed = true := by
  have hdone := h.done
  have hshut := h.shut
  cases hturn <;> grind

/-- A `CloseWith` that is to return nil, having found the session closing, draining or
    closed: nobody else is under the mutex, so the state was moved by the peer's close. -/
theorem Kept.turn_joined (hfail : d = .finishing → d' = .failing → .joined ∉ ds)
    (hmem : .joined ∈ d' :: (ds ++ new)) :
    (v'.state = .closed ∧ v'.tClosed = true) ∨ .answering ∈ d' :: (ds ++ new) ∨
      .finishing ∈ d' :: (ds ++ new) ∨ .finished ∈ d' :: (ds ++ new) := by
  have halone (hd : d.holds = true) (d' : Duty) (hd' : d'.holds = true) : d' ∉ ds :=
    h.alone hd hd'
  have hjoined := h.joined
  cases hturn with
  | join hstate =>
    have hclosing := h.closing
    have hclosed := h.closed
    grind [holds]
  | finish | finishTransport =>
    have hshut := h.shut
    grind
  | _ => grind [holds]

theorem Kept.turn (hfail : d = .finishing → d' = .failing → .joined ∉ ds) :
    Kept v' (d' :: (ds ++ new)) where
  closing := h.turn_closing hturn
  closed := h.turn_closed hturn
  mutex := h.turn_mutex hturn
  shut := h.turn_shut hturn hclosed
  done := h.turn_done hturn hclosed
  joined := h.turn_joined hturn hclosed hfail

end Closed

end Kept

end Turn

/-! ## The truth of CloseWith -/

/-- Closes the transport. -/
def Op.closesTransport : Op → Bool
  | .closeTransport => true
  | _ => false

/-- Starts a goroutine that is to close the session. -/
def Op.startsFinisher : Op → Bool
  | .goFinishPeerClose _ collision | .goFinishPeerDrain _ collision => !collision
  | _ => false

/-- The session is closed with its transport, or a closing procedure is still active and
    will close the transport. -/
def Truthful (c : (lang cfg codec).Conf) : Prop :=
  (c.mem.state = .closed ∧ c.mem.tClosed = true) ∨
    ∃ t ∈ c.threads, (Proc.closer t.1 = true ∨ Proc.finisher t.1 = true) ∧
      t.2.Surely Op.closesTransport

/-- The thread is a `CloseWith` that is about to return nil: it has only to give the mutex back. -/
def ReturnsNil (t : (lang cfg codec).Thread) : Prop :=
  Proc.closer t.1 = true ∧
    ∃ k, t.2 = .op Op.unlockClose k ∧ k () = .ret (.returned none)

theorem returnsNil_of_joined {t : (lang cfg codec).Thread}
    (h : t.2.Always (monitor t.1) (Duty.Ends t.1) .joined) : ReturnsNil t := by
  obtain ⟨p, q⟩ := t
  cases q with
  | ret out => rcases h with ⟨h, -⟩ | h | ⟨h, -⟩ <;> cases h
  | op o k =>
    obtain ⟨hok, hrest⟩ := h
    cases o with
    | unlockClose =>
      have hend : (k ()).Always (monitor p) (Duty.Ends p) .told := hrest () trivial
      refine ⟨hok, k, rfl, ?_⟩
      generalize k () = q at hend
      cases q with
      | ret out =>
        rcases hend with ⟨h, -⟩ | h | ⟨-, rfl⟩
        · cases h
        · cases h
        · rfl
      | op => cases hend.1
    | _ => cases hok

variable {q : M Outcome}

/-- A goroutine that is to finish the close of the peer closes the transport. -/
theorem surely_of_finishing (hd : d = .finishing ∨ d = .finished)
    (h : q.Always (monitor p) (Duty.Ends p) d) : q.Surely Op.closesTransport := by
  refine h.surely (fun d => d = .finishing ∨ d = .finished ∨ d = .failing) ?_ ?_
    (hd.imp_right .inl)
  · intro d o hd hok
    cases o with
    | closeTransport => exact .inl rfl
    | store s =>
      rcases hd with rfl | rfl | rfl
      · refine .inr fun r => ⟨trivial, .inr ?_⟩
        cases s <;> first | exact .inl rfl | exact .inr rfl
      · cases hok
      · cases hok
    | sendAndWait | putPeerCloseDone | awaitDrained | closeWriter | cleanupIncoming
    | failOutgoing => exact .inr fun r => ⟨trivial, hd⟩
    | _ => rcases hd with rfl | rfl | rfl <;> cases hok
  · rintro d out (rfl | rfl | rfl) (⟨h, -⟩ | h | ⟨h, -⟩) <;> cases h

theorem finisher_of_finishing (hd : d = .finishing ∨ d = .finished)
    (h : q.Always (monitor p) (Duty.Ends p) d) : p.finisher = true := by
  cases q with
  | ret out => rcases hd with rfl | rfl <;> rcases h with ⟨h, -⟩ | h | ⟨h, -⟩ <;> cases h
  | op o k =>
    have hok : d.allows p o = true := h.1
    rcases hd with rfl | rfl
    · cases o with
      | store s =>
        have hs : (s = .closed ∨ s = .failed) ∧ p.finisher = true := by
          simpa [allows] using hok
        exact hs.2
      | sendAndWait | putPeerCloseDone | awaitDrained | closeWriter | cleanupIncoming
      | failOutgoing => exact hok
      | _ => cases hok
    · cases o with
      | closeTransport => exact hok
      | _ => cases hok

/-- The goroutine fails by storing the failed state. -/
theorem fails_of_next {o : Op} {r : o.Res} (hd : d = .finishing) (hd' : d.next o r = .failing)
    (hok : d.allows p o = true) : o = .store .failed ∧ p.finisher = true := by
  subst hd
  cases o with
  | store s =>
    have hs : (s = .closed ∨ s = .failed) ∧ p.finisher = true := by simpa [allows] using hok
    rcases hs.1 with rfl | rfl
    · cases hd'
    · exact ⟨rfl, hs.2⟩
  | sendAndWait | putPeerCloseDone | awaitDrained | closeWriter | cleanupIncoming
  | failOutgoing => cases hd'
  | _ => cases hok

/-- A reader that answers the close of the peer starts a goroutine. -/
theorem surely_of_answering (h : q.Always (monitor p) (Duty.Ends p) .answering) :
    q.Surely Op.startsFinisher := by
  refine h.surely (· = .answering) ?_ ?_ rfl
  · rintro d o rfl hok
    cases o with
    | goFinishPeerClose m collision => exact .inl hok
    | goFinishPeerDrain m collision => exact .inl hok
    | cleanupIncoming | failOutgoing => exact .inr fun r => ⟨trivial, rfl⟩
    | _ => cases hok
  · rintro d out rfl (⟨h, -⟩ | h | ⟨h, -⟩) <;> cases h

variable (cfg codec) in
/-- The condition on a step: a closed session stays closed (`Orderly`), no goaway is sent or
    handled, and while a `CloseWith` is about to return nil the goroutine that answers the peer does
    not fail, nor does it return before that goroutine is started. -/
structure Undisturbed (c : (lang cfg codec).Conf) (e : (lang cfg codec).Event)
    (c' : (lang cfg codec).Conf) : Prop where
  orderly : Orderly cfg codec c e c'
  unsent : ∀ flags message, e ≠ .call (.sendGoAway flags message)
  unread : ∀ p f, e = .run p .read (.ok f) → f.header.frameType ≠ .goAway
  answered : ∀ p, Proc.finisher p = true → e = .run p (.store .failed) () →
    ∀ t ∈ c.threads, ¬ReturnsNil t
  started : ∀ p, e = .run p .unlockClose () → (∃ t ∈ c.threads, ReturnsNil t) →
    ∀ t ∈ c.threads, ¬t.2.Surely Op.startsFinisher

variable (cfg codec) in
/-- The invariant of runs: every thread has a duty, and the duties are kept. -/
structure Dutiful (c : (lang cfg codec).Conf) : Prop where
  sealed : Sealed cfg codec c
  kept : ∃ ts, Lang.Watched (L := lang cfg codec) monitor Duty.Ends c ts ∧
    Kept c.mem.view (ts.map Prod.snd)

theorem Dutiful.step {c c' : (lang cfg codec).Conf} {e : (lang cfg codec).Event}
    (h : Dutiful cfg codec c) (hstep : Lang.Step c e c')
    (hcond : Undisturbed cfg codec c e c') : Dutiful cfg codec c' := by
  refine ⟨h.sealed.step hstep hcond.orderly, ?_⟩
  obtain ⟨ts, hwatched, hkept⟩ := h.kept
  have hfork (o : Op) (q : Proc) (hq : fork o = some q) :
      (code cfg codec q).Always (monitor q) (Duty.Ends q) (start q) := by
    refine duty_code fun flags message heq => ?_
    subst heq
    cases o <;> cases hq
  have hcall (q : Proc) (hq : e = .call q) :
      (code cfg codec q).Always (monitor q) (Duty.Ends q) (start q) := by
    refine duty_code fun flags message heq => ?_
    subst heq
    exact hcond.unsent flags message hq
  rcases hwatched.step hstep hfork hcall with
    ⟨p, o, k, d, r, pre, post, rfl, rfl, hsem, hok, hnext⟩ | ⟨q, rfl, hq, hmem, hnext⟩
  · have hmay : (monitor p).may d o r := by
      cases o with
      | read => exact fun f hf => hcond.unread p f (by rw [hf])
      | _ => trivial
    refine ⟨_, hnext hmay, ?_⟩
    have hturn := turn_of_sem hok hsem
    have hbefore : Kept c.mem.view (d :: (pre ++ post).map Prod.snd) :=
      hkept.perm (by simp)
    have hfail (hd : d = .finishing) (hd' : d.next o r = .failing) :
        .joined ∉ (pre ++ post).map Prod.snd := by
      intro hjoined
      obtain ⟨⟨t, g⟩, ht, rfl⟩ := mem_map.mp hjoined
      have hmem : (t, joined) ∈ pre ++ ((p, Prog.op o k), d) :: post := by
        rcases mem_append.mp ht with ht | ht <;> simp [ht]
      have hthread : t ∈ c.threads := by
        rw [← hwatched.threads]
        exact mem_map_of_mem hmem
      obtain ⟨rfl, hfin⟩ := fails_of_next hd hd' hok
      exact hcond.answered p hfin rfl t hthread (returnsNil_of_joined (hwatched.allowed _ hmem))
    refine (hbefore.turn hturn (h.sealed.closed_step hstep) hfail).perm ?_
    simp only [List.map_append, List.map_cons, List.map_map, Function.comp_def,
      append_assoc, cons_append]
    exact List.perm_middle.symm
  · refine ⟨_, hnext, ?_⟩
    rw [hmem, map_append]
    have hfree : start q = .free := by cases q <;> first | rfl | cases hq
    rw [map_singleton, hfree]
    exact hkept.free

theorem dutiful_running (negotiated : Option ℕ) :
    Dutiful cfg codec (running cfg codec (newSession cfg negotiated)) := by
  refine ⟨sealed_running negotiated, [(Lang.started (L := lang cfg codec) .run, .free)],
    ⟨rfl, forall_mem_singleton.mpr duty_run⟩, ?_⟩
  have hmem : (newSession cfg negotiated).closeMu = false := by
    cases negotiated <;> rfl
  rcases newSession_state cfg negotiated with hstate | hstate <;>
    constructor <;> simp [running, Mem.view, hstate, hmem, holds]

variable (cfg codec) in
/-- In the step from `c` to `c'` a `CloseWith` returns nil. -/
def Returns (m : CloseMessage) (c c' : (lang cfg codec).Conf) : Prop :=
  ∃ pre post k, c.threads = pre ++ (Proc.closeWith m, .op Op.unlockClose k) :: post ∧
    k () = .ret (.returned none) ∧
    c'.threads = pre ++ (Proc.closeWith m, .ret (.returned none)) :: post ∧
    sem cfg .unlockClose c.mem () c'.mem

/-- In a run of undisturbed steps `CloseWith` tells the truth: when it returns nil the
    session is closed with its transport, or a closing procedure is active that will
    close the transport. -/
theorem closeWith_truthful {negotiated : Option ℕ} {c c' : (lang cfg codec).Conf}
    {m : CloseMessage}
    (hrun : ReflTransGen (Lang.StepIf (Undisturbed cfg codec))
      (running cfg codec (newSession cfg negotiated)) c)
    (hreturns : Returns cfg codec m c c')
    (hcond : Undisturbed cfg codec c (.run (.closeWith m) .unlockClose ()) c') : Truthful c' := by
  have hinv : Dutiful cfg codec c :=
    Run.invariant _ (dutiful_running negotiated)
      (fun _ _ h ⟨_, hstep, hcond⟩ => h.step hstep hcond) hrun
  obtain ⟨ts, hwatched, hkept⟩ := hinv.kept
  obtain ⟨pre, post, k, hthreads, hnil, hthreads', hsem⟩ := hreturns
  have hmem : c'.mem = { c.mem with closeMu := false } := hsem
  -- a goroutine that is to finish the close is there after the step as well
  have hactive {d : Duty} (hd : d = .finishing ∨ d = .finished) (hmem : d ∈ ts.map Prod.snd) :
      Truthful c' := by
    obtain ⟨⟨t, g⟩, ht, rfl⟩ := mem_map.mp hmem
    have hfin : Proc.finisher t.1 = true := finisher_of_finishing hd (hwatched.allowed _ ht)
    have hthread : t ∈ c.threads := by
      rw [← hwatched.threads]
      exact mem_map_of_mem ht
    rw [hthreads] at hthread
    refine .inr ⟨t, ?_, .inr hfin, surely_of_finishing hd (hwatched.allowed _ ht)⟩
    rw [hthreads']
    rcases mem_append.mp hthread with hpre | hpost
    · exact mem_append_left _ hpre
    · rcases mem_cons.mp hpost with rfl | hpost
      · cases hfin
      · exact mem_append_right _ (mem_cons_of_mem _ hpost)
  have hclosed (h : c.mem.state = .closed ∧ c.mem.tClosed = true) : Truthful c' :=
    .inl (by rw [hmem]; exact h)
  -- the duty of the one that returns
  have hself : (Proc.closeWith m, Prog.op Op.unlockClose k) ∈ ts.map Prod.fst := by
    rw [hwatched.threads, hthreads]
    exact mem_append_right _ mem_cons_self
  obtain ⟨⟨t, d⟩, ht, heq⟩ := mem_map.mp hself
  obtain rfl : t = _ := heq
  obtain ⟨hok, hrest⟩ := hwatched.allowed _ ht
  have hend : Duty.Ends (.closeWith m) (d.next .unlockClose ()) (.returned none) := by
    have hlast := hrest () trivial
    rwa [hnil] at hlast
  have hd : d ∈ ts.map Prod.snd := mem_map_of_mem ht
  cases d with
  | locked =>
    rcases hend with ⟨-, h⟩ | h | ⟨h, -⟩
    · exact absurd rfl (h rfl)
    · cases h
    · cases h
  | done => exact hclosed (hkept.done hd)
  | joined =>
    rcases hkept.joined hd with h | h | h | h
    · exact hclosed h
    · obtain ⟨⟨t, g⟩, ht', rfl⟩ := mem_map.mp h
      have hthread {t : (lang cfg codec).Thread × Duty} (ht : t ∈ ts) : t.1 ∈ c.threads := by
        rw [← hwatched.threads]
        exact mem_map_of_mem ht
      refine absurd (surely_of_answering (hwatched.allowed _ ht')) ?_
      exact hcond.started _ rfl ⟨_, hthread ht, returnsNil_of_joined (hwatched.allowed _ ht)⟩ t
        (hthread ht')
    · exact hactive (.inl rfl) h
    · exact hactive (.inr rfl) h
  | _ => cases hok

/-- `SendGoAway`, and a `CloseWith` that finds the session closing. -/
def afterGoAway : List (Lang.Move (lang {} default) Env) :=
  [.call (.sendGoAway 0 ""), .run 1 {}, .run 1 {}, .call (.closeWith {}), .run 2 {}, .run 2 {}]

theorem closeWith_untruthful : ∃ c c' : (lang {} default).Conf,
    ReflTransGen (Lang.StepIf Lang.free) (running {} default (newSession {} none)) c ∧
      Returns {} default {} c c' ∧ ¬Truthful c' := by
  have hplay : ∃ c, Lang.play (answer {}) (fun _ _ _ => true) afterGoAway
      (running {} default (newSession {} none)) = some c ∧
      ∃ c', Returns {} default {} c c' ∧ ¬Truthful c' := by
    refine ⟨_, rfl, ⟨_, _⟩, ⟨[_, _], [], _, rfl, rfl, rfl, rfl⟩, ?_⟩
    rintro (⟨hstate, -⟩ | ⟨t, ht, hproc, hsure⟩)
    · cases hstate
    · rcases mem_cons.mp ht with rfl | ht
      · rcases hproc with h | h <;> cases h
      rcases mem_cons.mp ht with rfl | ht
      · rcases hproc with h | h <;> cases h
      obtain rfl := mem_singleton.mp ht
      exact hsure
  obtain ⟨c, hc, c', hret, hfalse⟩ := hplay
  exact ⟨c, c', Lang.play_run answer_sem (fun _ _ _ _ => trivial) hc, hret, hfalse⟩

/-- `Run` does not have to start anything. -/
theorem not_surely_run : ¬(run cfg codec).Surely Op.startsFinisher := by
  rintro (h | h)
  · cases h
  · rcases h (.error "EOF") with h | h
    · cases h
    · exact h SessionState.closed

/-- A second `CloseWith`, up to the moment before it returns. -/
def closeAgain : List (Lang.Move (lang {} default) Env) :=
  [.call (.closeWith {}), .run 2 {}, .run 2 {}]

/-- A step that no closing procedure depends on. -/
def aside (_ : (lang {} default).Conf) (e : (lang {} default).Event) (_ : (lang {} default).Conf) :
    Bool :=
  match e with
  | .run _ (.store s) _ => s != .closed && s != .failed
  | .run _ .closeTransport r => Option.isNone r
  | .run _ .read _ | .run _ .unlockClose _ | .call (.sendGoAway _ _) => false
  | _ => true

theorem undisturbed_of_aside {c c' : (lang {} default).Conf} {e : (lang {} default).Event}
    (h : aside c e c' = true) : Undisturbed {} default c e c' := by
  refine ⟨orderly_of_harmless ?_, fun flags message he => ?_, fun p f he => ?_,
    fun p _ he => ?_, fun p he => ?_⟩
  · cases e with
    | call q => cases q <;> first | rfl | cases h
    | run p o r =>
      cases o with
      | store s => exact (Bool.and_eq_true_iff.mp h).1
      | closeTransport => exact h
      | _ => rfl
  all_goals
    subst he
    cases h

theorem closeWith_truthful_timeout : ∃ c c' : (lang {} default).Conf,
    Returns {} default {} c c' ∧ c.mem.state = .closed ∧ Truthful c' := by
  have hplay : ∃ c, Lang.play (answer {}) aside closeMoves
        (running {} default (newSession {} none)) = some c ∧
      ∃ c₁, Lang.move (answer {}) c (.run 1 {}) =
          some (.run (.closeWith {}) (.store .closed) (), c₁) ∧
        (∃ q, c.threads = [(Proc.run, run {} default), q]) ∧
        ∃ c₂, Lang.play (answer {}) aside [.run 1 {}] c₁ = some c₂ ∧
          ∃ c₃, Lang.move (answer {}) c₂ (.run 1 {}) =
              some (.run (.closeWith {}) .unlockClose (), c₃) ∧
            (∀ t ∈ c₂.threads, ¬t.2.Surely Op.startsFinisher) ∧
            ∃ c₄, Lang.play (answer {}) aside closeAgain c₃ = some c₄ ∧
              (∀ t ∈ c₄.threads, ¬t.2.Surely Op.startsFinisher) ∧ c₄.mem.state = .closed ∧
              ∃ c₅, Returns {} default {} c₄ c₅ := by
    refine ⟨_, rfl, _, rfl, ⟨_, rfl⟩, _, rfl, _, rfl, ?_, _, rfl, ?_, rfl, ⟨_, _⟩, [_, _], [], _,
      rfl, rfl, rfl, rfl⟩
    · refine forall_mem_cons.mpr ⟨not_surely_run, forall_mem_singleton.mpr ?_⟩
      exact fun h => h.elim (fun h => nomatch h) fun h => h ()
    · refine forall_mem_cons.mpr
        ⟨not_surely_run, forall_mem_cons.mpr ⟨id, forall_mem_singleton.mpr ?_⟩⟩
      exact fun h => h.elim (fun h => nomatch h) fun h => h ()
  obtain ⟨c, hc, c₁, hc₁, ⟨_, hpair⟩, c₂, hc₂, c₃, hc₃, hno, c₄, hc₄, hno', hclosed, c₅, hret⟩ :=
    hplay
  have hunlock {c c' : (lang {} default).Conf}
      (h : ∀ t ∈ c.threads, ¬t.2.Surely Op.startsFinisher) :
      Undisturbed {} default c (.run (.closeWith {}) .unlockClose ()) c' :=
    ⟨orderly_of_harmless rfl, fun _ _ he => (nomatch he), fun _ _ he => (nomatch he),
      fun _ _ he => (nomatch he), fun _ _ _ => h⟩
  have hstore : Lang.StepIf (Undisturbed {} default) c c₁ :=
    ⟨_, Lang.move_step answer_sem hc₁, orderly_of_pair hpair, fun _ _ he => (nomatch he),
      fun _ _ he => (nomatch he), fun _ _ he => (nomatch he), fun _ he => (nomatch he)⟩
  have hplayed {c c' : (lang {} default).Conf} {xs : List (Lang.Move (lang {} default) Env)}
      (h : Lang.play (answer {}) aside xs c = some c') :
      ReflTransGen (Lang.StepIf (Undisturbed {} default)) c c' :=
    Lang.play_run answer_sem (fun _ _ _ => undisturbed_of_aside) h
  have hrun := ((((hplayed hc).tail hstore).trans (hplayed hc₂)).tail
    ⟨_, Lang.move_step answer_sem hc₃, hunlock hno⟩).trans (hplayed hc₄)
  exact ⟨c₄, c₅, hret, hclosed, closeWith_truthful hrun hret (hunlock hno')⟩

end Etp.Session
