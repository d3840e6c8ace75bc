import Etp.Lib.Run

/-!
# Threads over shared memory

Programs whose atomic operations act on a shared memory, and the interleavings of
any number of them.

A program (`Prog`) is a tree: it ends, or performs an operation and goes on with
the result. `Lang` gives the operations their meaning on the memory, says which
of them start a further thread, and what the procedures are that threads execute.
A configuration is a memory and a list of threads; `Lang.Step` lets one thread
perform its next operation, or starts a procedure that the environment calls.

A fact about all that a program may still do is what a `Monitor` says of it
(`Prog.Always`, with a rule for each way of composing programs). An invariant of a
system relates its memory to what is left of its threads in this way, and
`Lang.Step.memory` and `Lang.Step.threads` are the handles for such proofs; where the
states of monitors matter to one another, `Lang.Watched.step` is. Runs on concrete
inputs are computed by `Lang.play`.
-/

namespace Threads

open Relation List

/-- A program: it has ended with a result, or performs an operation next. -/
inductive Prog (Op : Type) (Res : Op → Type) (α : Type) : Type
  | ret (a : α)
  | op (o : Op) (k : Res o → Prog Op Res α)

namespace Prog

variable {Op : Type} {Res : Op → Type} {α β : Type}

/-- One program after another. -/
def bind : Prog Op Res α → (α → Prog Op Res β) → Prog Op Res β
  | .ret a, f => f a
  | .op o k, f => .op o fun r => (k r).bind f

instance : Monad (Prog Op Res) where
  pure := .ret
  bind := bind

/-- An operation as a program. -/
def perform (o : Op) : Prog Op Res (Res o) := .op o .ret

@[simp] theorem pure_eq (a : α) : (pure a : Prog Op Res α) = .ret a := rfl

@[simp] theorem ret_bind (a : α) (f : α → Prog Op Res β) : (Prog.ret a >>= f) = f a := rfl

@[simp] theorem op_bind (o : Op) (k : Res o → Prog Op Res α) (f : α → Prog Op Res β) :
    (Prog.op o k >>= f) = .op o fun r => k r >>= f := rfl

@[simp] theorem perform_bind (o : Op) (f : Res o → Prog Op Res β) :
    (perform o >>= f) = .op o f := rfl

end Prog

/-! ## What a program does -/

/-- A monitor watches the operations of a program, in states of its own: which of
    them it allows, with which results it reckons, and where it goes from there. -/
structure Monitor (Op : Type) (Res : Op → Type) (G : Type) where
  ok : G → Op → Prop
  may : G → (o : Op) → Res o → Prop
  next : G → (o : Op) → Res o → G

namespace Prog

variable {Op : Type} {Res : Op → Type} {G α β : Type}

/-- The monitor, from its state `g` on, allows all that the program performs, and
    the program ends with `Q`. -/
def Always (W : Monitor Op Res G) (Q : G → α → Prop) : G → Prog Op Res α → Prop
  | g, .ret a => Q g a
  | g, .op o k => W.ok g o ∧ ∀ r, W.may g o r → (k r).Always W Q (W.next g o r)

variable {W : Monitor Op Res G} {g : G} {Q Q' : G → α → Prop} {R : G → β → Prop}

@[simp] theorem always_ret {a : α} : (Prog.ret a : Prog Op Res α).Always W Q g ↔ Q g a := Iff.rfl

@[simp] theorem always_pure {a : α} : (pure a : Prog Op Res α).Always W Q g ↔ Q g a := Iff.rfl

variable {o : Op}

@[simp] theorem always_op {k : Res o → Prog Op Res α} :
    (Prog.op o k).Always W Q g ↔
      W.ok g o ∧ ∀ r, W.may g o r → (k r).Always W Q (W.next g o r) := Iff.rfl

@[simp] theorem always_perform {Q : G → Res o → Prop} :
    (perform o : Prog Op Res _).Always W Q g ↔
      W.ok g o ∧ ∀ r, W.may g o r → Q (W.next g o r) r := Iff.rfl

variable {p : Prog Op Res α} {f : α → Prog Op Res β}

@[simp] theorem always_bind :
    (p >>= f).Always W R g ↔ p.Always W (fun g a => (f a).Always W R g) g := by
  induction p generalizing g with
  | ret a => rfl
  | op o k ih =>
    rw [op_bind, always_op, always_op]
    exact and_congr Iff.rfl (forall₂_congr fun r _ => ih r)

/-- The form of `always_bind` for a monitor without states. -/
@[simp high] theorem always_bind_unit {W : Monitor Op Res Unit} {R : Unit → β → Prop} {g : Unit} :
    (p >>= f).Always W R g ↔ p.Always W (fun _ a => (f a).Always W R ()) () := always_bind

@[simp] theorem always_map {f : α → β} :
    (f <$> p).Always W R g ↔ p.Always W (fun g a => R g (f a)) g := by
  have hmap : f <$> p = p >>= fun a => .ret (f a) := rfl
  rw [hmap]
  exact always_bind

@[simp] theorem always_ite {c : Prop} [Decidable c] {p q : Prog Op Res α} :
    (if c then p else q).Always W Q g ↔ (c → p.Always W Q g) ∧ (¬c → q.Always W Q g) := by
  by_cases hc : c
  · simp [hc]
  · simp [hc]

theorem Always.imp (h : p.Always W Q g) (hQ : ∀ g a, Q g a → Q' g a) : p.Always W Q' g := by
  induction p generalizing g with
  | ret a => exact hQ g a h
  | op o k ih => exact ⟨h.1, fun r hr => ih r (h.2 r hr)⟩

/-- The monitor that allows the operations of `S`. -/
@[simps] def within (S : Op → Bool) : Monitor Op Res Unit where
  ok _ o := S o = true
  may _ _ _ := True
  next _ _ _ := ()

/-- The program performs no operations but those of `S`, whatever their results. -/
abbrev Only (S : Op → Bool) (p : Prog Op Res α) : Prop :=
  p.Always (within S) (fun _ _ => True) ()

section Only

variable {S : Op → Bool}

@[simp] theorem only_op {k : Res o → Prog Op Res α} :
    (Prog.op o k).Only S ↔ S o = true ∧ ∀ r, (k r).Only S := by
  simp [Only]

@[simp] theorem only_perform : (perform o : Prog Op Res _).Only S ↔ S o = true := by
  simp [Only]

@[simp] theorem only_ite {c : Prop} [Decidable c] {p q : Prog Op Res α} :
    (if c then p else q).Only S ↔ (c → p.Only S) ∧ (¬c → q.Only S) := always_ite

theorem Only.bind (hp : p.Only S) (hf : ∀ a, (f a).Only S) : (p >>= f).Only S := by
  induction p with
  | ret a => exact hf a
  | op o k ih => exact ⟨hp.1, fun r _ => ih r (hp.2 r trivial)⟩

theorem only_then {f : Res o → Prog Op Res α} (ho : S o = true) (hf : ∀ r, (f r).Only S) :
    (perform o >>= f).Only S :=
  only_op.mpr ⟨ho, hf⟩

theorem Only.map (hp : p.Only S) (f : α → β) : (f <$> p).Only S :=
  hp.bind fun _ => trivial

end Only

variable {S : Op → Bool}

/-- A monitor that stays in `I` over all operations of a program allows it. -/
theorem Only.always (h : p.Only S) (I : G → Prop)
    (hI : ∀ g o, I g → S o = true → W.ok g o ∧ ∀ r, W.may g o r → I (W.next g o r))
    (hQ : ∀ g a, I g → Q g a) (hg : I g) : p.Always W Q g := by
  induction p generalizing g with
  | ret a => exact hQ g a hg
  | op o k ih =>
    obtain ⟨ho, hnext⟩ := hI g o hg h.1
    exact ⟨ho, fun r hr => ih r (h.2 r trivial) (hnext r hr)⟩

/-- A monitor that stays in its state `g` over all operations of a program. -/
theorem Only.always_fixed (h : p.Only S)
    (hfix : ∀ o, S o = true → W.ok g o ∧ ∀ r, W.may g o r → W.next g o r = g) (hQ : ∀ a, Q g a) :
    p.Always W Q g := by
  refine h.always (· = g) (fun g' o hg ho => ?_) (fun g' a hg => ?_) rfl
  · subst hg
    exact hfix o ho
  · subst hg
    exact hQ a

theorem Only.mono {S T : Op → Bool} (h : p.Only S) (hST : ∀ o, S o = true → T o = true) :
    p.Only T :=
  h.always_fixed (fun o ho => ⟨hST o ho, fun _ _ => rfl⟩) fun _ => trivial

/-- Every way through the program performs an operation of `S`. -/
def Surely (S : Op → Bool) : Prog Op Res α → Prop
  | .ret _ => False
  | .op o k => S o = true ∨ ∀ r, (k r).Surely S

/-- A monitor that a program cannot end in as long as it stays in `I`, which only the
    operations of `S` make it leave. -/
theorem Always.surely (h : p.Always W Q g) (I : G → Prop)
    (hI : ∀ g o, I g → W.ok g o → S o = true ∨ ∀ r, W.may g o r ∧ I (W.next g o r))
    (hQ : ∀ g a, I g → ¬Q g a) (hg : I g) : p.Surely S := by
  induction p generalizing g with
  | ret a => exact hQ g a hg h
  | op o k ih =>
    refine (hI g o hg h.1).imp id fun hnext r => ?_
    exact ih r (h.2 r (hnext r).1) (hnext r).2

end Prog

/-- A language: operations on a memory, and procedures. -/
structure Lang where
  Op : Type
  Res : Op → Type
  Mem : Type
  Proc : Type
  Out : Type
  /-- What an operation may do to the memory, with which result. -/
  sem : (o : Op) → Mem → Res o → Mem → Prop
  /-- The procedure that an operation starts in a thread of its own. -/
  fork : Op → Option Proc
  /-- The text of a procedure. -/
  code : Proc → Prog Op Res Out
  /-- Whether the environment may call a procedure. -/
  callable : Proc → Bool

namespace Lang

variable {L : Lang}

/-- The programs of a language. -/
abbrev Program (L : Lang) := Prog L.Op L.Res L.Out

/-- A thread: the procedure it executes, and what is left of it. -/
abbrev Thread (L : Lang) := L.Proc × L.Program

/-- A configuration. -/
structure Conf (L : Lang) where
  mem : L.Mem
  threads : List L.Thread

/-- The thread that executes the procedure `p` from its beginning. -/
def started (p : L.Proc) : L.Thread := (p, L.code p)

/-- What happens in a step: a thread executing `p` performs an operation, or a
    procedure is called. -/
inductive Event (L : Lang)
  | run (p : L.Proc) (o : L.Op) (r : L.Res o)
  | call (p : L.Proc)

/-- One step of a configuration. -/
inductive Step : L.Conf → L.Event → L.Conf → Prop
  | run (m m' : L.Mem) (pre post : List L.Thread) (p : L.Proc) (o : L.Op)
      (k : L.Res o → L.Program) (r : L.Res o) : L.sem o m r m' →
      Step ⟨m, pre ++ (p, .op o k) :: post⟩ (.run p o r)
        ⟨m', pre ++ (p, k r) :: post ++ (L.fork o).toList.map started⟩
  | call (m : L.Mem) (ts : List L.Thread) (p : L.Proc) : L.callable p = true →
      Step ⟨m, ts⟩ (.call p) ⟨m, ts ++ [started p]⟩

/-- Some step, meeting the condition `G`. -/
def StepIf (G : L.Conf → L.Event → L.Conf → Prop) (c c' : L.Conf) : Prop :=
  ∃ e, Step c e c' ∧ G c e c'

/-- No condition. -/
def free (_ : L.Conf) (_ : L.Event) (_ : L.Conf) : Prop := True

variable {c c' : L.Conf} {e : L.Event}

/-- The memory after a step. -/
theorem Step.memory (h : Step c e c') :
    (∃ p o k r, e = .run p o r ∧ (p, Prog.op o k) ∈ c.threads ∧ L.sem o c.mem r c'.mem) ∨
      ∃ q, e = .call q ∧ c'.mem = c.mem := by
  cases h with
  | run m m' pre post p o k r hsem => exact .inl ⟨p, o, k, r, rfl, by simp, hsem⟩
  | call m ts p _ => exact .inr ⟨p, rfl, rfl⟩

/-- The threads after a step: those that did not move, the one that did, and those
    that were started. -/
theorem Step.threads (h : Step c e c') {t : L.Thread} (ht : t ∈ c'.threads) :
    t ∈ c.threads ∨
      (∃ p o k r, e = .run p o r ∧ (p, Prog.op o k) ∈ c.threads ∧ L.sem o c.mem r c'.mem ∧
        t = (p, k r)) ∨
      (∃ p o k r q, e = .run p o r ∧ (p, Prog.op o k) ∈ c.threads ∧ L.sem o c.mem r c'.mem ∧
        L.fork o = some q ∧ t = started q) ∨
      ∃ q, e = .call q ∧ L.callable q = true ∧ c'.mem = c.mem ∧ t = started q := by
  cases h with
  | run m m' pre post p o k r hsem =>
    have hmem : (p, Prog.op o k) ∈ pre ++ (p, Prog.op o k) :: post := by simp
    simp only [mem_append, mem_cons, mem_map, Option.mem_toList] at ht
    rcases ht with (ht | rfl | ht) | ⟨q, hq, rfl⟩
    · exact .inl (mem_append_left _ ht)
    · exact .inr (.inl ⟨p, o, k, r, rfl, hmem, hsem, rfl⟩)
    · exact .inl (mem_append_right _ (mem_cons_of_mem _ ht))
    · exact .inr (.inr (.inl ⟨p, o, k, r, q, rfl, hmem, hsem, hq, rfl⟩))
  | call m ts p hp =>
    rcases mem_append.mp ht with ht | ht
    · exact .inl ht
    · exact .inr (.inr (.inr ⟨p, rfl, hp, rfl, mem_singleton.mp ht⟩))

/-- The threads besides the one that performs an operation in the step. -/
def Others (c : L.Conf) (e : L.Event) (c' : L.Conf) (ts : List L.Thread) : Prop :=
  ∃ p o k r pre post, e = .run p o r ∧ c.threads = pre ++ (p, .op o k) :: post ∧
    c'.threads = pre ++ (p, k r) :: post ++ (L.fork o).toList.map started ∧ ts = pre ++ post

/-- A step of a thread leaves the others as they are. -/
theorem Step.others {p : L.Proc} {o : L.Op} {r : L.Res o} (h : Step c (.run p o r) c') :
    ∃ ts k, Others c (.run p o r) c' ts ∧
      (p, Prog.op o k) ∈ c.threads ∧
        ∀ t ∈ c'.threads, t = (p, k r) ∨ t ∈ ts ∨ ∃ q, L.fork o = some q ∧ t = started q := by
  cases h with
  | run m m' pre post p o k r hsem =>
    refine ⟨pre ++ post, k, ⟨p, o, k, r, pre, post, rfl, rfl, rfl, rfl⟩, by simp, fun t ht => ?_⟩
    simp only [mem_append, mem_cons, mem_map, Option.mem_toList] at ht
    rcases ht with (ht | rfl | ht) | ⟨q, hq, rfl⟩
    · exact .inr (.inl (mem_append_left _ ht))
    · exact .inl rfl
    · exact .inr (.inl (mem_append_right _ ht))
    · exact .inr (.inr ⟨q, hq, rfl⟩)

theorem Others.mem {ts : List L.Thread} (h : Others c e c' ts) {t : L.Thread} (ht : t ∈ ts) :
    t ∈ c'.threads := by
  obtain ⟨p, o, k, r, pre, post, -, -, hthreads, rfl⟩ := h
  rcases mem_append.mp ht with ht | ht <;> simp [hthreads, ht]

/-- Of two threads with different procedures the second moves. -/
theorem Others.of_pair {p : L.Proc} {o : L.Op} {r : L.Res o} {ts : List L.Thread} {a b : L.Thread}
    (h : Others c (.run p o r) c' ts) (hc : c.threads = [a, b]) (ha : a.1 ≠ p) : ts = [a] := by
  obtain ⟨_, _, k, _, pre, post, he, hthreads, -, rfl⟩ := h
  cases he
  rw [hc] at hthreads
  match pre with
  | [] =>
    obtain ⟨rfl, -⟩ := List.cons.inj hthreads
    exact absurd rfl ha
  | [x] =>
    obtain ⟨rfl, hrest⟩ := List.cons.inj hthreads
    obtain ⟨-, rfl⟩ := List.cons.inj hrest
    rfl
  | _ :: _ :: _ => simp at hthreads

/-! ## Watched threads

With each thread goes a state of a monitor that allows all that is left of it. What a
system keeps is then a matter of its memory and of these states. -/

section Watched

variable {G : Type} {W : L.Proc → Monitor L.Op L.Res G} {Q : L.Proc → G → L.Out → Prop}

/-- The threads of a configuration, each with a state from which the monitor of its
    procedure allows what is left of it. -/
structure Watched (W : L.Proc → Monitor L.Op L.Res G) (Q : L.Proc → G → L.Out → Prop)
    (c : L.Conf) (ts : List (L.Thread × G)) : Prop where
  threads : ts.map Prod.fst = c.threads
  allowed : ∀ t ∈ ts, t.1.2.Always (W t.1.1) (Q t.1.1) t.2

/-- What a step does to watched threads: one of them performs an operation that its
    monitor allows, or a procedure is called. A thread that is started is watched from
    the state `start` of its procedure on. -/
theorem Watched.step {start : L.Proc → G} {ts : List (L.Thread × G)} (h : Watched W Q c ts)
    (hstep : Step c e c')
    (hfork : ∀ o q, L.fork o = some q → (L.code q).Always (W q) (Q q) (start q))
    (hcall : ∀ q, e = .call q → (L.code q).Always (W q) (Q q) (start q)) :
    (∃ p o k g r pre post, ts = pre ++ ((p, .op o k), g) :: post ∧ e = .run p o r ∧
      L.sem o c.mem r c'.mem ∧ (W p).ok g o ∧ ((W p).may g o r → Watched W Q c'
        (pre ++ ((p, k r), (W p).next g o r) :: post ++
          (L.fork o).toList.map fun q => (started q, start q)))) ∨
    ∃ q, e = .call q ∧ L.callable q = true ∧ c'.mem = c.mem ∧
      Watched W Q c' (ts ++ [(started q, start q)]) := by
  obtain ⟨hthreads, hallowed⟩ := h
  cases hstep with
  | run m m' pre post p o k r hsem =>
    obtain ⟨pre, rest, rfl, rfl, hrest⟩ := map_eq_append_iff.mp hthreads
    obtain ⟨⟨t, g⟩, post, rfl, rfl, rfl⟩ := map_eq_cons_iff.mp hrest
    have hmoved := hallowed ((p, .op o k), g) (by simp)
    refine .inl ⟨p, o, k, g, r, pre, post, rfl, rfl, hsem, hmoved.1, fun hmay => ⟨?_, ?_⟩⟩
    · simp [Function.comp_def]
    · simp only [forall_mem_append, forall_mem_cons, forall_mem_map,
        Option.mem_toList] at hallowed ⊢
      exact ⟨⟨hallowed.1, hmoved.2 r hmay, hallowed.2.2⟩, hfork o⟩
  | call m threads q hq =>
    obtain rfl : ts.map Prod.fst = threads := hthreads
    exact .inr ⟨q, rfl, hq, rfl, by simp,
      forall_mem_append.mpr ⟨hallowed, forall_mem_singleton.mpr (hcall q rfl)⟩⟩

end Watched

/-! ## One thread at a time

Where a procedure is only called once all others have ended, a monitor can know the memory,
up to a view of it. -/

section Serial

variable {G : Type}

/-- The program has ended. -/
def ended {α : Type} : Prog L.Op L.Res α → Bool
  | .ret _ => true
  | .op _ _ => false

/-- All threads have ended, in a view of the memory that meets `I`; or all but one, which a
    monitor in this view allows, and which ends in such a view. -/
def Serial (W : Monitor L.Op L.Res G) (I : G → Prop) (view : L.Mem → G) (c : L.Conf) : Prop :=
  ((∀ t ∈ c.threads, ended t.2 = true) ∧ I (view c.mem)) ∨
    ∃ pre t post, c.threads = pre ++ t :: post ∧ (∀ t' ∈ pre ++ post, ended t'.2 = true) ∧
      t.2.Always W (fun g _ => I g) (view c.mem)

variable {W : Monitor L.Op L.Res G} {I : G → Prop} {view : L.Mem → G}

theorem Serial.of_ended {c : L.Conf} (h : Serial W I view c)
    (hended : ∀ t ∈ c.threads, ended t.2 = true) : I (view c.mem) := by
  rcases h with ⟨-, hI⟩ | ⟨pre, ⟨p, prog⟩, post, heq, -, halways⟩
  · exact hI
  · cases prog with
    | ret a => exact halways
    | op o k => exact absurd (hended (p, .op o k) (by simp [heq])) (by simp [ended])

/-- What a step does: an operation is one that the monitor allows. -/
theorem Serial.step (h : Serial W I view c) (hstep : Step c e c')
    (hview : ∀ o m r m', L.sem o m r m' → W.ok (view m) o →
      W.may (view m) o r ∧ W.next (view m) o r = view m') (hfork : ∀ o, L.fork o = none)
    (hcall : ∀ q, e = .call q → (∀ t ∈ c.threads, ended t.2 = true) ∧
      (I (view c.mem) → (L.code q).Always W (fun g _ => I g) (view c.mem))) :
    Serial W I view c' ∧ ∀ p o r, e = .run p o r → W.ok (view c.mem) o := by
  cases hstep with
  | run m m' pre post p o k r hsem =>
    rcases h with ⟨hended, -⟩ | ⟨pre', t, post', heq, hended, halways⟩
    · exact absurd (hended (p, .op o k) (by simp)) (by simp [ended])
    · -- the thread that moves is the one that has not ended
      have hrun : ∀ t' ∈ pre' ++ post', t' ≠ (p, .op o k) := fun t' ht' heq' => by
        have := hended t' ht'
        simp [heq', ended] at this
      have hmoved : pre' = pre ∧ t = (p, .op o k) ∧ post' = post := by
        rcases append_eq_append_iff.mp heq with ⟨as, rfl, hrest⟩ | ⟨as, rfl, hrest⟩
        · cases as with
          | nil => simpa [eq_comm] using hrest
          | cons a as =>
            cases hrest
            exact absurd rfl (hrun (p, .op o k) (by simp))
        · cases as with
          | nil => simpa [eq_comm] using hrest
          | cons a as =>
            cases hrest
            exact absurd rfl (hrun (p, .op o k) (by simp))
      obtain ⟨rfl, rfl, rfl⟩ := hmoved
      obtain ⟨hmay, hnext⟩ := hview o m r m' hsem halways.1
      refine ⟨.inr ⟨pre', (p, k r), post', by simp [hfork], hended, ?_⟩, ?_⟩
      · exact hnext ▸ halways.2 r hmay
      · rintro p' o' r' heq
        cases heq
        exact halways.1
  | call m ts q _ =>
    obtain ⟨hended, hcode⟩ := hcall q rfl
    refine ⟨.inr ⟨ts, started q, [], rfl, by simpa using hended, hcode (h.of_ended hended)⟩, nofun⟩

end Serial

/-! ## Playing a run

A run on concrete inputs is played from a list of moves, where a function in place of
the environment answers each operation; what it answers has to be among what the
operations may do. -/

/-- A move: the thread with an index performs its next operation in an environment,
    or a procedure is called. -/
inductive Move (L : Lang) (E : Type)
  | run (i : ℕ) (env : E)
  | call (p : L.Proc)

/-- The step of a move, if there is one. -/
def move {E : Type} (answer : E → (o : L.Op) → L.Mem → Option (L.Res o × L.Mem)) (c : L.Conf) :
    L.Move E → Option (L.Event × L.Conf)
  | .run i env =>
    match c.threads.drop i with
    | (p, .op o k) :: post =>
      (answer env o c.mem).map fun (r, m) =>
        (.run p o r, ⟨m, c.threads.take i ++ (p, k r) :: post ++ (L.fork o).toList.map started⟩)
    | _ => none
  | .call p =>
    if L.callable p = true then some (.call p, ⟨c.mem, c.threads ++ [started p]⟩) else none

/-- The run of a list of moves, as far as all its steps pass the test `G`. -/
def play {E : Type} (answer : E → (o : L.Op) → L.Mem → Option (L.Res o × L.Mem))
    (G : L.Conf → L.Event → L.Conf → Bool) : List (L.Move E) → L.Conf → Option L.Conf
  | [], c => some c
  | x :: xs, c =>
    match move answer c x with
    | some (e, c') => if G c e c' then play answer G xs c' else none
    | none => none

section Play

variable {E : Type} {answer : E → (o : L.Op) → L.Mem → Option (L.Res o × L.Mem)}

theorem move_step (sound : ∀ env o m r m', answer env o m = some (r, m') → L.sem o m r m')
    {x : L.Move E} (h : move answer c x = some (e, c')) : Step c e c' := by
  cases x with
  | call p =>
    simp only [move] at h
    split at h
    · cases h
      exact .call _ _ p ‹_›
    · cases h
  | run i env =>
    simp only [move] at h
    split at h
    · rename_i p o k post hdrop
      obtain ⟨⟨r, m⟩, hanswer, heq⟩ := Option.map_eq_some_iff.mp h
      cases heq
      have hsplit := take_append_drop i c.threads
      rw [hdrop] at hsplit
      have hstep := Step.run c.mem m (c.threads.take i) post p o k r (sound env o c.mem r m hanswer)
      rwa [hsplit] at hstep
    · cases h

theorem play_run (sound : ∀ env o m r m', answer env o m = some (r, m') → L.sem o m r m')
    {G : L.Conf → L.Event → L.Conf → Bool} {P : L.Conf → L.Event → L.Conf → Prop}
    (hG : ∀ c e c', G c e c' = true → P c e c') {xs : List (L.Move E)}
    (h : play answer G xs c = some c') : ReflTransGen (StepIf P) c c' := by
  induction xs generalizing c with
  | nil =>
    cases h
    exact .refl
  | cons x xs ih =>
    rw [play] at h
    split at h
    · rename_i e c₁ hx
      split at h
      · exact .head ⟨e, move_step sound hx, hG _ _ _ ‹_›⟩ (ih h)
      · cases h
    · cases h

end Play

end Lang

end Threads
