import Etp.Lib.Threads

/-!
# Languages that differ by silent operations

Two languages over the same operations and procedures, with different texts of the
procedures: those of the first may perform silent operations in between, which leave the
memory alone and start nothing. They are quiet as long as their results do not make the
program go another way (`Prog.Sim`, `Silence`), and they are due at once after certain
other operations, the prompts.

* `Lang.Traced`: a run and what is seen of it, which is all but the silent operations;
* `Lang.Paired.forward`: a run of the first language in which all silent operations are
  quiet is matched by one of the second in which the same is seen;
* `Lang.Paired.backward`: a run of the second language is matched by one of the first, if
  the silent operations would be quiet wherever they are due.
-/

namespace Threads

open List

namespace Prog

variable {Op : Type} {Res : Op → Type} {α β : Type} {p q : Prog Op Res α}

section Sim

variable {hidden : Op → Bool} {quiet : (o : Op) → Res o → Prop}
  {prompts : (o : Op) → Res o → Bool} {g : Bool}

/-- The first program does what the second does, up to silent operations of its own with results in
    `quiet`, which follow a prompt; `g` says whether the last operation was one. -/
inductive Sim (hidden : Op → Bool) (quiet : (o : Op) → Res o → Prop)
    (prompts : (o : Op) → Res o → Bool) : Bool → Prog Op Res α → Prog Op Res α → Prop
  | ret {g : Bool} (a : α) : Sim hidden quiet prompts g (.ret a) (.ret a)
  | op {g : Bool} {o : Op} {k k' : Res o → Prog Op Res α} :
      (∀ r, Sim hidden quiet prompts (prompts o r) (k r) (k' r)) →
      Sim hidden quiet prompts g (.op o k) (.op o k')
  | skip {o : Op} {k : Res o → Prog Op Res α} {q : Prog Op Res α} : hidden o = true →
      (∀ r, quiet o r → Sim hidden quiet prompts true (k r) q) →
      Sim hidden quiet prompts true (.op o k) q

theorem Sim.refl (p : Prog Op Res α) : Sim hidden quiet prompts g p p := by
  induction p generalizing g with
  | ret a => exact .ret a
  | op o k ih => exact .op fun r => ih r

/-- The silent operations that may follow no prompt may follow one. -/
theorem Sim.prompted (h : Sim hidden quiet prompts false p q) : Sim hidden quiet prompts g p q := by
  cases h with
  | ret a => exact .ret a
  | op hk => exact .op hk

theorem Sim.bind {f f' : α → Prog Op Res β} (h : Sim hidden quiet prompts g p q)
    (hf : ∀ a, Sim hidden quiet prompts false (f a) (f' a)) :
    Sim hidden quiet prompts g (p >>= f) (q >>= f') := by
  induction h with
  | ret a => exact (hf a).prompted
  | op _ ih => exact .op ih
  | skip ho _ ih => exact .skip ho ih

theorem Sim.map (h : Sim hidden quiet prompts g p q) (f : α → β) :
    Sim hidden quiet prompts g (f <$> p) (f <$> q) :=
  h.bind fun _ => .ret _

end Sim

/-- Two programs that go on with the same operation, or have both ended. -/
inductive Sync (hidden : Op → Bool) (quiet : (o : Op) → Res o → Prop)
    (prompts : (o : Op) → Res o → Bool) : Prog Op Res α → Prog Op Res α → Prop
  | ret (a : α) : Sync hidden quiet prompts (.ret a) (.ret a)
  | op {o : Op} {k k' : Res o → Prog Op Res α} :
      (∀ r, Sim hidden quiet prompts (prompts o r) (k r) (k' r)) →
      Sync hidden quiet prompts (.op o k) (.op o k')

theorem Sync.sim {hidden : Op → Bool} {quiet : (o : Op) → Res o → Prop}
    {prompts : (o : Op) → Res o → Bool} {g : Bool} (h : Sync hidden quiet prompts p q) :
    Sim hidden quiet prompts g p q := by
  cases h with
  | ret a => exact .ret a
  | op hk => exact .op hk

theorem Sim.sync {hidden : Op → Bool} {quiet : (o : Op) → Res o → Prop}
    {prompts : (o : Op) → Res o → Bool} (h : Sim hidden quiet prompts false p q) :
    Sync hidden quiet prompts p q := by
  cases h with
  | ret a => exact .ret a
  | op hk => exact .op hk

end Prog

/-- What is seen of an event, with a view of the memory after it. -/
inductive Seen (Proc Op : Type) (Res : Op → Type) (V : Type)
  | run (p : Proc) (o : Op) (r : Res o) (v : V)
  | call (p : Proc) (v : V)

namespace Lang

variable {L : Lang} {V : Type} {code' : L.Proc → L.Program}

/-- The language with other texts of its procedures. -/
abbrev withCode (L : Lang) (code' : L.Proc → L.Program) : Lang := { L with code := code' }

/-- All events but the operations of `hidden` are seen. -/
def see (hidden : L.Op → Bool) (view : L.Mem → V) (e : L.Event) (c : L.Conf) :
    Option (Seen L.Proc L.Op L.Res V) :=
  match e with
  | .run p o r => if hidden o = true then none else some (.run p o r (view c.mem))
  | .call p => some (.call p (view c.mem))

/-- A run of steps meeting `G`, with what `see` shows of it. -/
inductive Traced {W : Type} (G : L.Conf → L.Event → L.Conf → Prop)
    (see : L.Event → L.Conf → Option W) : L.Conf → List W → L.Conf → Prop
  | refl (c : L.Conf) : Traced G see c [] c
  | tail {c c' c'' : L.Conf} {vs : List W} {e : L.Event} : Traced G see c vs c' →
      Step c' e c'' → G c' e c'' → Traced G see c (vs ++ (see e c'').toList) c''

section Traced

variable {W : Type} {G : L.Conf → L.Event → L.Conf → Prop} {see : L.Event → L.Conf → Option W}
  {c c' c'' : L.Conf} {vs ws : List W}

theorem Traced.single {e : L.Event} (h : Step c e c') (hG : G c e c')
    (hvs : (see e c').toList = vs) : Traced G see c vs c' := by
  subst hvs
  exact (Traced.refl c).tail h hG

theorem Traced.mono {G' : L.Conf → L.Event → L.Conf → Prop} (h : Traced G see c vs c')
    (hG : ∀ c e c', G c e c' → G' c e c') : Traced G' see c vs c' := by
  induction h with
  | refl => exact .refl _
  | tail _ hstep hmeets ih => exact ih.tail hstep (hG _ _ _ hmeets)

theorem Traced.trans (h : Traced G see c vs c') (h' : Traced G see c' ws c'') :
    Traced G see c (vs ++ ws) c'' := by
  induction h' with
  | refl => simpa using h
  | tail _ hstep hG ih =>
    rw [← append_assoc]
    exact ih.tail hstep hG

/-- The run of a list of moves, with what is seen of it, as far as all its steps pass the
    test `G`. -/
def record {E : Type} (answer : E → (o : L.Op) → L.Mem → Option (L.Res o × L.Mem))
    (G : L.Conf → L.Event → L.Conf → Bool) (see : L.Event → L.Conf → Option W) :
    List (L.Move E) → L.Conf → Option (List W × L.Conf)
  | [], c => some ([], c)
  | x :: xs, c =>
    match move answer c x with
    | some (e, c') =>
      if G c e c' then
        (record answer G see xs c').map fun r => ((see e c').toList ++ r.1, r.2)
      else none
    | none => none

theorem record_traced {E : Type} {answer : E → (o : L.Op) → L.Mem → Option (L.Res o × L.Mem)}
    (sound : ∀ env o m r m', answer env o m = some (r, m') → L.sem o m r m')
    {P : L.Conf → L.Event → L.Conf → Bool} (hP : ∀ c e c', P c e c' = true → G c e c')
    {xs : List (L.Move E)} {c c' : L.Conf} {vs : List W}
    (h : record answer P see xs c = some (vs, c')) : Traced G see c vs c' := by
  induction xs generalizing c vs with
  | nil =>
    cases h
    exact .refl _
  | cons x xs ih =>
    rw [record] at h
    split at h
    · rename_i e c₁ hx
      split at h
      · obtain ⟨⟨ws, c₂⟩, hrecord, heq⟩ := Option.map_eq_some_iff.mp h
        cases heq
        exact (Traced.single (move_step sound hx) (hP _ _ _ ‹_›) rfl).trans (ih hrecord)
      · cases h
    · cases h

end Traced

/-- The silent operations of a language. They are quiet with some results, depending on
    the procedure; a thread performs them right after a prompt, or at its start. Memories
    that are `alike` admit the same operations and look the same. -/
structure Silence (L : Lang) (V : Type) where
  hidden : L.Op → Bool
  quiet : L.Proc → (o : L.Op) → L.Res o → Prop
  prompts : L.Proc → (o : L.Op) → L.Res o → Bool
  opens : L.Proc → Bool
  view : L.Mem → V
  alike : L.Mem → L.Mem → Prop
  view_eq : ∀ {m m'}, alike m m' → view m' = view m
  sem_right : ∀ {m m' o r m₁}, alike m m' → L.sem o m r m₁ →
    ∃ m₁', L.sem o m' r m₁' ∧ alike m₁ m₁'
  sem_left : ∀ {m m' o r m₁'}, alike m m' → L.sem o m' r m₁' →
    ∃ m₁, L.sem o m r m₁ ∧ alike m₁ m₁'
  keeps : ∀ {o m r m'}, hidden o = true → L.sem o m r m' → m' = m
  starts : ∀ {o}, hidden o = true → L.fork o = none

namespace Silence

variable (S : Silence L V)

/-- What is seen in the two languages. -/
def shown : L.Event → L.Conf → Option (Seen L.Proc L.Op L.Res V) := see S.hidden S.view

@[inherit_doc shown]
def shown' : (L.withCode code').Event → (L.withCode code').Conf →
    Option (Seen L.Proc L.Op L.Res V) :=
  see (L := L.withCode code') S.hidden S.view

/-- The texts of a procedure in the two languages. -/
def Sim (p : L.Proc) (g : Bool) (a b : L.Program) : Prop :=
  Prog.Sim S.hidden (S.quiet p) (S.prompts p) g a b

/-- Threads that go on with the same operation. -/
def Sync (p : L.Proc) (a b : L.Program) : Prop :=
  Prog.Sync S.hidden (S.quiet p) (S.prompts p) a b

/-- The silent operations of a step are quiet. -/
def Quiet (_ : L.Conf) (e : L.Event) (_ : L.Conf) : Prop :=
  ∀ p o r, e = .run p o r → S.hidden o = true → S.quiet p o r

/-- The silent operations of a procedure would be quiet. -/
def Calm (p : L.Proc) (m : L.Mem) : Prop :=
  ∀ o, S.hidden o = true → ∃ r, L.sem o m r m ∧ S.quiet p o r

/-- Wherever silent operations are due after a step, they would be quiet. -/
def Ready (_ : (L.withCode code').Conf) (e : (L.withCode code').Event)
    (c : (L.withCode code').Conf) : Prop :=
  match e with
  | .run p o r => (S.prompts p o r = true → S.Calm p c.mem) ∧
      ∀ q, L.fork o = some q → S.opens q = true → S.Calm q c.mem
  | .call q => S.opens q = true → S.Calm q c.mem

theorem Calm.alike {S : Silence L V} {p : L.Proc} {m m' : L.Mem} (h : S.Calm p m')
    (hm : S.alike m m') : S.Calm p m := by
  intro o ho
  obtain ⟨r, hsem, hquiet⟩ := h o ho
  obtain ⟨m₁, hsem', -⟩ := S.sem_left hm hsem
  obtain rfl := S.keeps ho hsem'
  exact ⟨r, hsem', hquiet⟩

end Silence

/-- Configurations of the two languages with memories that are alike, whose threads
    execute the same procedures and are related by `R`. -/
def Paired (S : Silence L V) (R : L.Proc → L.Program → L.Program → Prop) (c : L.Conf)
    (c' : (L.withCode code').Conf) : Prop :=
  S.alike c.mem c'.mem ∧ ∃ ts : List (L.Proc × L.Program × L.Program),
    c.threads = ts.map (fun t => (t.1, t.2.1)) ∧ c'.threads = ts.map (fun t => (t.1, t.2.2)) ∧
      ∀ t ∈ ts, R t.1 t.2.1 t.2.2

variable {c c₁ : L.Conf}

section Forward

variable {S : Silence L V}

/-- Threads of which the first may be about to perform a silent operation. -/
def Silence.Behind (S : Silence L V) (p : L.Proc) (a b : L.Program) : Prop := ∃ g, S.Sim p g a b

/-- A step of the first language, all of whose silent operations are quiet, is matched. -/
theorem Paired.forward_step {c' : (L.withCode code').Conf} {e : L.Event}
    (hcode : ∀ p, S.Sim p (S.opens p) (L.code p) (code' p)) (h : Paired S S.Behind c c')
    (hstep : Step c e c₁) (hquiet : S.Quiet c e c₁) :
    ∃ c₁' : (L.withCode code').Conf,
      Traced free S.shown' c' (S.shown e c₁).toList c₁' ∧ Paired S S.Behind c₁ c₁' := by
  obtain ⟨mem', threads'⟩ := c'
  obtain ⟨hmem, ts, hthreads, hthreads', hrel⟩ := h
  cases hstep with
  | run m m₁ pre post p₀ o k r hsem =>
    obtain rfl := hthreads'
    obtain ⟨pre, rest, rfl, rfl, hrest⟩ := map_eq_append_iff.mp hthreads.symm
    obtain ⟨⟨p, q, q'⟩, post, rfl, heq, rfl⟩ := map_eq_cons_iff.mp hrest
    cases heq
    obtain ⟨g, hsim⟩ : S.Behind p (.op o k) q' := hrel (p, .op o k, q') (by simp)
    cases hsim with
    | @op _ _ _ k' hk =>
      obtain ⟨m₁', hsem', hmem'⟩ := S.sem_right hmem hsem
      have hstep' := Step.run (L := L.withCode code') mem' m₁' (pre.map fun t => (t.1, t.2.2))
        (post.map fun t => (t.1, t.2.2)) p o k' r hsem'
      refine ⟨⟨m₁', pre.map (fun t => (t.1, t.2.2)) ++
          (p, k' r) :: post.map (fun t => (t.1, t.2.2)) ++
            (L.fork o).toList.map (started (L := L.withCode code'))⟩, ?_, hmem',
        pre ++ (p, k r, k' r) :: post ++
          (L.fork o).toList.map (fun q => (q, L.code q, code' q)), ?_, ?_, ?_⟩
      · rw [map_append, map_cons]
        refine .single hstep' trivial ?_
        simp only [Silence.shown, Silence.shown', see, S.view_eq hmem']
      · simp [started, Function.comp_def]
      · simp [started, Function.comp_def]
      · simp only [forall_mem_append, forall_mem_cons, forall_mem_map] at hrel ⊢
        exact ⟨⟨hrel.1, ⟨_, hk r⟩, hrel.2.2⟩, fun q _ => ⟨_, hcode q⟩⟩
    | skip ho hk =>
      obtain rfl := S.keeps ho hsem
      refine ⟨⟨mem', (pre ++ (p, Prog.op o k, q') :: post).map fun t => (t.1, t.2.2)⟩, ?_, hmem,
        pre ++ (p, k r, q') :: post, ?_, by simp, ?_⟩
      · rw [Silence.shown, see, if_pos ho]
        exact .refl _
      · simp [S.starts ho]
      · simp only [forall_mem_append, forall_mem_cons] at hrel ⊢
        exact ⟨hrel.1, ⟨_, hk r (hquiet p o r rfl ho)⟩, hrel.2.2⟩
  | call m threads p hp =>
    obtain rfl := hthreads'
    obtain rfl := hthreads
    have hstep' := Step.call (L := L.withCode code') mem' (ts.map fun t => (t.1, t.2.2)) p hp
    refine ⟨⟨mem', ts.map (fun t => (t.1, t.2.2)) ++ [(p, code' p)]⟩, ?_, hmem,
      ts ++ [(p, L.code p, code' p)], ?_, ?_, ?_⟩
    · refine .single hstep' trivial ?_
      simp only [Silence.shown, Silence.shown', see, S.view_eq hmem]
    · simp [started]
    · simp
    · exact forall_mem_append.mpr ⟨hrel, forall_mem_singleton.mpr ⟨_, hcode p⟩⟩

/-- A run of the first language, all of whose silent operations are quiet, is matched. -/
theorem Paired.forward {c' : (L.withCode code').Conf} {vs : List (Seen L.Proc L.Op L.Res V)}
    (hcode : ∀ p, S.Sim p (S.opens p) (L.code p) (code' p)) (h : Paired S S.Behind c c')
    (hrun : Traced S.Quiet S.shown c vs c₁) :
    ∃ c₁' : (L.withCode code').Conf, Traced free S.shown' c' vs c₁' ∧ Paired S S.Behind c₁ c₁' := by
  induction hrun with
  | refl => exact ⟨c', .refl c', h⟩
  | tail _ hstep hquiet ih =>
    obtain ⟨c₁', hrun', h₁⟩ := ih
    obtain ⟨c₂', hstep', h₂⟩ := h₁.forward_step hcode hstep hquiet
    exact ⟨c₂', hrun'.trans hstep', h₂⟩

end Forward

section Backward

variable {S : Silence L V}

/-- A thread performs the silent operations that are due. -/
theorem Silence.settle {p : L.Proc} {g : Bool} {a b : L.Program} {m : L.Mem}
    (h : S.Sim p g a b) (hcalm : g = true → S.Calm p m) (pre post : List L.Thread) :
    ∃ a', Traced free S.shown ⟨m, pre ++ (p, a) :: post⟩ [] ⟨m, pre ++ (p, a') :: post⟩ ∧
      S.Sync p a' b := by
  induction h with
  | ret a => exact ⟨_, .refl _, .ret a⟩
  | op hk => exact ⟨_, .refl _, .op hk⟩
  | @skip o k q ho _ ih =>
    obtain ⟨r, hsem, hquiet⟩ := hcalm rfl o ho
    obtain ⟨a', hrun, hsync⟩ := ih r hquiet hcalm
    have hstep := Step.run m m pre post p o k r hsem
    rw [S.starts ho, Option.toList_none, map_nil, append_nil] at hstep
    have hsilent : Traced free S.shown ⟨m, pre ++ (p, .op o k) :: post⟩ []
        ⟨m, pre ++ (p, k r) :: post⟩ := by
      refine .single hstep trivial ?_
      rw [Silence.shown, see, if_pos ho, Option.toList_none]
    exact ⟨a', hsilent.trans hrun, hsync⟩

/-- All threads perform the silent operations that are due. -/
theorem Silence.settle_all {m : L.Mem} (ts : List (L.Proc × L.Program × L.Program))
    (h : ∀ t ∈ ts, ∃ g, S.Sim t.1 g t.2.1 t.2.2 ∧ (g = true → S.Calm t.1 m))
    (pre : List L.Thread) :
    ∃ ts' : List (L.Proc × L.Program × L.Program),
      Traced free S.shown ⟨m, pre ++ ts.map fun t => (t.1, t.2.1)⟩ []
        ⟨m, pre ++ ts'.map fun t => (t.1, t.2.1)⟩ ∧
      ts.map (fun t => (t.1, t.2.2)) = ts'.map (fun t => (t.1, t.2.2)) ∧
      ∀ t ∈ ts', S.Sync t.1 t.2.1 t.2.2 := by
  induction ts generalizing pre with
  | nil => exact ⟨[], .refl _, rfl, by simp⟩
  | cons t ts ih =>
    obtain ⟨p, a, b⟩ := t
    obtain ⟨g, hsim, hcalm⟩ := h (p, a, b) (by simp)
    obtain ⟨a', hrun, hsync⟩ := S.settle hsim hcalm pre (ts.map fun t => (t.1, t.2.1))
    obtain ⟨ts', hrun', heq, hall⟩ := ih (fun t ht => h t (by simp [ht])) (pre ++ [(p, a')])
    refine ⟨(p, a', b) :: ts', ?_, by simp [heq], ?_⟩
    · simpa using hrun.trans (by simpa using hrun')
    · exact forall_mem_cons.mpr ⟨hsync, hall⟩

/-- After a step of the first language, all threads perform the silent operations that are due. -/
theorem Silence.settled {e : L.Event} (hstep : Step c e c₁)
    (ts : List (L.Proc × L.Program × L.Program)) (hts : c₁.threads = ts.map fun t => (t.1, t.2.1))
    (h : ∀ t ∈ ts, ∃ g, S.Sim t.1 g t.2.1 t.2.2 ∧ (g = true → S.Calm t.1 c₁.mem)) :
    ∃ ts' : List (L.Proc × L.Program × L.Program),
      Traced free S.shown c (S.shown e c₁).toList ⟨c₁.mem, ts'.map fun t => (t.1, t.2.1)⟩ ∧
      ts.map (fun t => (t.1, t.2.2)) = ts'.map (fun t => (t.1, t.2.2)) ∧
      ∀ t ∈ ts', S.Sync t.1 t.2.1 t.2.2 := by
  obtain ⟨ts', hrun, heq, hsync⟩ := S.settle_all ts h []
  rw [nil_append, ← hts] at hrun
  refine ⟨ts', ?_, heq, hsync⟩
  simpa using (Traced.single hstep trivial rfl).trans hrun

/-- A step of the second language after which the silent operations that are due would
    be quiet is matched. -/
theorem Paired.backward_step {c : L.Conf} {c' c₁' : (L.withCode code').Conf}
    {e : (L.withCode code').Event}
    (hcode : ∀ p, S.Sim p (S.opens p) (L.code p) (code' p)) (h : Paired S S.Sync c c')
    (hstep : Step c' e c₁') (hready : S.Ready c' e c₁') :
    ∃ c₁ : L.Conf, Traced free S.shown c (S.shown' e c₁').toList c₁ ∧
      Paired S S.Sync c₁ c₁' := by
  obtain ⟨mem, threads⟩ := c
  obtain ⟨hmem, ts, hthreads, hthreads', hrel⟩ := h
  have hkept : ∀ t ∈ ts, ∀ m, ∃ g, S.Sim t.1 g t.2.1 t.2.2 ∧ (g = true → S.Calm t.1 m) :=
    fun t ht m => ⟨false, (hrel t ht).sim, by simp⟩
  cases hstep with
  | run m m₁' pre post p₀ o k' r hsem' =>
    obtain rfl := hthreads
    obtain ⟨pre, rest, rfl, rfl, hrest⟩ := map_eq_append_iff.mp hthreads'.symm
    obtain ⟨⟨p, q, q'⟩, post, rfl, heq, rfl⟩ := map_eq_cons_iff.mp hrest
    cases heq
    have hsync : S.Sync p q (.op o k') := hrel (p, q, .op o k') (by simp)
    cases hsync with
    | @op _ k _ hk =>
      obtain ⟨m₁, hsem, hmem₁⟩ := S.sem_left hmem hsem'
      have hstep := Step.run mem m₁ (pre.map fun t => (t.1, t.2.1))
        (post.map fun t => (t.1, t.2.1)) p o k r hsem
      obtain ⟨ts', hrun, heq, hsync⟩ := S.settled hstep (pre ++ (p, k r, k' r) :: post ++
        (L.fork o).toList.map (fun q => (q, L.code q, code' q)))
        (by simp [started, Function.comp_def]) (by
          simp only [forall_mem_append, forall_mem_cons, forall_mem_map,
            Option.mem_toList] at hkept ⊢
          exact ⟨⟨fun t ht => hkept.1 t ht m₁, ⟨_, hk r, fun hp => (hready.1 hp).alike hmem₁⟩,
            fun t ht => hkept.2.2 t ht m₁⟩,
            fun q hq => ⟨_, hcode q, fun hopens => (hready.2 q hq hopens).alike hmem₁⟩⟩)
      refine ⟨⟨m₁, ts'.map fun t => (t.1, t.2.1)⟩, ?_, hmem₁, ts', rfl, ?_, hsync⟩
      · simpa [Silence.shown, Silence.shown', see, S.view_eq hmem₁] using hrun
      · simp [← heq, started, Function.comp_def]
  | call m threads p hp =>
    obtain rfl := hthreads
    obtain rfl := hthreads'
    have hstep := Step.call mem (ts.map fun t => (t.1, t.2.1)) p hp
    obtain ⟨ts', hrun, heq, hsync⟩ := S.settled hstep (ts ++ [(p, L.code p, code' p)])
      (by simp [started]) (forall_mem_append.mpr ⟨fun t ht => hkept t ht mem,
        forall_mem_singleton.mpr ⟨_, hcode p, fun hopens => (hready hopens).alike hmem⟩⟩)
    refine ⟨⟨mem, ts'.map fun t => (t.1, t.2.1)⟩, ?_, hmem, ts', rfl, ?_, hsync⟩
    · simpa [Silence.shown, Silence.shown', see, S.view_eq hmem] using hrun
    · simp [← heq, started]

/-- A run of the second language is matched, if the silent operations would be quiet
    wherever they are due. -/
theorem Paired.backward {c : L.Conf} {c' c₁' : (L.withCode code').Conf}
    {vs : List (Seen L.Proc L.Op L.Res V)}
    (hcode : ∀ p, S.Sim p (S.opens p) (L.code p) (code' p)) (h : Paired S S.Sync c c')
    (hrun : Traced S.Ready S.shown' c' vs c₁') :
    ∃ c₁ : L.Conf, Traced free S.shown c vs c₁ ∧ Paired S S.Sync c₁ c₁' := by
  induction hrun with
  | refl => exact ⟨c, .refl c, h⟩
  | tail _ hstep hready ih =>
    obtain ⟨c₁, hrun, h₁⟩ := ih
    obtain ⟨c₂, hstep, h₂⟩ := h₁.backward_step hcode hstep hready
    exact ⟨c₂, hrun.trans hstep, h₂⟩

end Backward

end Lang

end Threads
