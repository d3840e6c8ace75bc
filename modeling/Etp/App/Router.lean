import Etp.App.Body
import Etp.Lib.Run
import Etp.Lib.Slices
import Mathlib.Data.List.Infix
import Mathlib.Data.List.DropRight

/-!
# The router

Routes and middlewares are registered on a tree of groups and compiled into one table, from
event names to handlers wrapped in the middlewares that match them. A router of the tree is
the path from the root to it, by the numbers of the groups; `Tree.node` has its fields. Only
the root has `registered` and `compiled`.

`compileInto` appends the middlewares of each router to those it inherits, in place if the
backing array has room, so that groups share their arrays (`Slices`).

* `compileInto_eq`: what it writes into the table is what each router says on its own, for the
  routers in the order of `visit`;
* `compile_composes`: of any tree built with `Group`, `On` and `Use`, the table has the
  handlers of the calls of `On` that succeeded, composed with the matching middlewares of the
  routers on the path, and nothing else;
* `guard_wraps_iff`: a middleware of a whole group wraps a route of the group exactly if the name
  of the route keeps the prefix of the group and the dot behind it (`Tree.Covers`); a prefix with
  a dot at its end, or a name of dots, may lose it (`guard_missed`);
* `compile_freezes`: what was registered is found, if after `Compile` only the root is asked to
  register more; `compile_loses`: not otherwise.
-/

namespace Etp.Router

open Slices List

variable {H : Type*}

/-! ## Patterns -/

/-- `.` -/
def dot : UInt8 := 46

/-- `*` -/
def star : UInt8 := 42

/-- `strings.Trim`, of dots. -/
def trim (s : Bytes) : Bytes := (s.dropWhile (· = dot)).rdropWhile (· = dot)

def joinPattern (base pattern : Bytes) : Bytes :=
  if trim base = [] then trim pattern
  else if trim pattern = [] then trim base
  else trim base ++ dot :: trim pattern

def matchPattern (pattern event : Bytes) : Bool :=
  if pattern = [star] then true
  else if [dot, star].isSuffixOf pattern then
    let before := pattern.take (pattern.length - 2)
    (before ++ [dot]).isPrefixOf event
  else pattern = event

/-! ## The tree -/

structure MiddlewareRoute (H : Type*) where
  pattern : Bytes
  fn : H → H

structure EndpointRoute (H : Type*) where
  pattern : Bytes
  fn : H
  deriving DecidableEq

abbrev Path := List ℕ

/-- The fields that all routers have; `groups` counts the groups. -/
structure Node (H : Type*) where
  groupPrefix : Bytes := []
  middlewares : List (MiddlewareRoute H) := []
  endpoints : List (EndpointRoute H) := []
  groups : ℕ := 0
  isCompiled : Bool := false

/-- A call of `On` that has returned nil. -/
structure Registration (H : Type*) where
  router : Path
  event : Bytes
  endpoint : EndpointRoute H
  deriving DecidableEq

/-- The routers, what the root has on its own, and how many groups there are. `ons` are the
    calls of `On` that have returned nil. -/
structure Tree (H : Type*) where
  node : Path → Node H := fun _ => {}
  registered : List Bytes := []
  compiled : Bytes → Option H := fun _ => none
  size : ℕ := 0
  ons : List (Registration H) := []

def errRouterCompiled : Err := "transport: router is already compiled"
def errRouterNotCompiled : Err := "transport: router is not compiled"
def errRouteAlreadyExists : Err := "transport: route already exists"
def errRoutePatternEmpty : Err := "transport: route pattern is empty"
def errGroupPrefixCount : Err := "transport: group accepts at most one prefix"
def errMiddlewareNil : Err := "transport: middleware is nil"
def errHandlerNil : Err := "transport: handler is nil"

namespace Tree

variable (t : Tree H) (r : Path)

/-- The prefixes on the path to a router, without the empty ones. -/
def parts : List Bytes := (r.inits.map fun q => (t.node q).groupPrefix).filter (· ≠ [])

def fullPrefix : Bytes := [dot].intercalate (t.parts r)

def scopedMiddlewarePattern (pattern : Bytes) : Bytes :=
  if pattern = [] ∨ pattern = [star] then
    if t.fullPrefix r = [] then [star] else t.fullPrefix r ++ [dot, star]
  else joinPattern (t.fullPrefix r) pattern

def setNode (x : Node H) : Tree H := { t with node := Function.update t.node r x }

/-- `Use`; a nil middleware is none. -/
def use (pattern : Bytes) (middleware : Option (H → H)) : Tree H × Option Err :=
  if (t.node r).isCompiled then (t, some errRouterCompiled)
  else match middleware with
    | none => (t, some errMiddlewareNil)
    | some fn => (t.setNode r { t.node r with middlewares := (t.node r).middlewares ++
        [⟨t.scopedMiddlewarePattern r pattern, fn⟩] }, none)

/-- `On`; a nil handler is none. -/
def on (pattern : Bytes) (handler : Option H) : Tree H × Option Err :=
  if (t.node r).isCompiled then (t, some errRouterCompiled)
  else match handler with
    | none => (t, some errHandlerNil)
    | some fn =>
      let fullPattern := joinPattern (t.fullPrefix r) pattern
      if fullPattern = [] then (t, some errRoutePatternEmpty)
      else if fullPattern ∈ t.registered then (t, some errRouteAlreadyExists)
      else
        let endpoint := ⟨fullPattern, fn⟩
        ({ t.setNode r { t.node r with endpoints := (t.node r).endpoints ++ [endpoint] } with
            registered := t.registered ++ [fullPattern]
            ons := t.ons ++ [⟨r, pattern, endpoint⟩] }, none)

/-- `Group`: the new group, or the panic. -/
def group (prefixes : List Bytes) : Except Err (Tree H × Path) :=
  if (t.node r).isCompiled then .error errRouterCompiled
  else if 1 < prefixes.length then .error errGroupPrefixCount
  else
    let child := r ++ [(t.node r).groups]
    .ok ({ (t.setNode r { t.node r with groups := (t.node r).groups + 1 }).setNode child
        { groupPrefix := prefixes.headD [] } with size := t.size + 1 }, child)

/-- The loop over the middlewares, from the last to the first. -/
def wrap (middlewares : List (MiddlewareRoute H)) (e : EndpointRoute H) : H :=
  middlewares.foldr (fun m h => if matchPattern m.pattern e.pattern then m.fn h else h) e.fn

/-- `compileInto`: what is written into the table, in this order. The depth of the tree is at
    most `n`. -/
def compileInto (grow : ℕ → ℕ) : ℕ → Heap (MiddlewareRoute H) → Slice → Path →
    Heap (MiddlewareRoute H) × List (Bytes × H)
  | 0, h, _, _ => (h, [])
  | n + 1, h, inherited, r =>
    let (h, middlewares) := h.append grow inherited (t.node r).middlewares
    let own := (t.node r).endpoints.map fun e => (e.pattern, wrap (h.read middlewares) e)
    (List.range (t.node r).groups).foldl (fun acc k =>
      let (h, written) := compileInto grow n acc.1 middlewares (r ++ [k])
      (h, acc.2 ++ written)) (h, own)

/-- What `Compile` writes into the table. -/
def written (grow : ℕ → ℕ) : List (Bytes × H) := (t.compileInto grow (t.size + 1) {} {} []).2

/-- `Compile`, which compiles the root. -/
def compile (grow : ℕ → ℕ) : Tree H :=
  if (t.node []).isCompiled then t
  else { t.setNode [] { t.node [] with isCompiled := true } with
    compiled := (t.written grow).foldl (fun m w => Function.update m w.1 (some w.2)) fun _ => none }

/-- `Emit`: the handler that is called. -/
def emit (event : Bytes) : Except Err H :=
  if (t.node []).isCompiled then
    match t.compiled event with
    | some handler => .ok handler
    | none => .error Application.errRouteNotFound
  else .error errRouterNotCompiled

/-! ## The routers of a tree -/

/-- A router that was made. -/
def Live (r : Path) : Prop := ∀ q k, q ++ [k] <+: r → k < (t.node q).groups

/-- The routers from `r` on, each before its groups, down to a depth of `n`. -/
def visit : ℕ → Path → List Path
  | 0, _ => []
  | n + 1, r => r :: (List.range (t.node r).groups).flatMap fun k => visit n (r ++ [k])

/-- The middlewares of the routers on the path to `r`. -/
def inherited (r : Path) : List (MiddlewareRoute H) :=
  r.inits.flatMap fun q => (t.node q).middlewares

variable {t} {r} {q : Path} {k n : ℕ}

theorem live_nil : t.Live [] := fun q k h => by simp at h

theorem Live.ancestor (h : t.Live q) (hr : r <+: q) : t.Live r := fun p k hp => h p k (hp.trans hr)

theorem live_concat : t.Live (r ++ [k]) ↔ t.Live r ∧ k < (t.node r).groups := by
  constructor
  · exact fun h => ⟨h.ancestor (prefix_append _ _), h r k prefix_rfl⟩
  · rintro ⟨hr, hk⟩ q j hq
    rcases prefix_concat_iff.1 hq with hq | hq
    · obtain ⟨rfl, hj⟩ := append_inj' hq rfl
      obtain rfl := singleton_inj.1 hj
      exact hk
    · exact hr q j hq

@[simp] theorem inherited_concat : t.inherited (r ++ [k]) =
    t.inherited r ++ (t.node (r ++ [k])).middlewares := by
  simp [inherited, inits_append]

theorem prefix_of_mem_visit (h : q ∈ t.visit n r) : r <+: q := by
  induction n generalizing r with
  | zero => simp [visit] at h
  | succ n ih =>
    simp only [visit, mem_cons, mem_flatMap, mem_range] at h
    rcases h with rfl | ⟨k, -, hk⟩
    · exact prefix_rfl
    · exact (prefix_append _ _).trans (ih hk)

theorem nodup_visit : (t.visit n r).Nodup := by
  induction n generalizing r with
  | zero => exact nodup_nil
  | succ n ih =>
    refine nodup_cons.2 ⟨fun h => ?_, nodup_flatMap.2 ⟨fun k _ => ih, ?_⟩⟩
    · obtain ⟨k, -, hk⟩ := mem_flatMap.1 h
      have := (prefix_of_mem_visit hk).length_le
      simp at this
    · refine nodup_range.imp fun {j k} hjk q hj hk => hjk ?_
      -- the two groups begin different paths
      have hpre := prefix_of_prefix_length_le (prefix_of_mem_visit hj)
        (prefix_of_mem_visit hk) (by simp)
      simpa using hpre.eq_of_length (by simp)

theorem mem_visit (hr : t.Live r) :
    q ∈ t.visit n r ↔ r <+: q ∧ t.Live q ∧ q.length < r.length + n := by
  induction n generalizing r with
  | zero =>
    simp only [visit, not_mem_nil, Nat.add_zero, false_iff]
    exact fun h => absurd h.1.length_le (by omega)
  | succ n ih =>
    simp only [visit, mem_cons, mem_flatMap, mem_range]
    constructor
    · rintro (rfl | ⟨k, hk, hq⟩)
      · exact ⟨prefix_rfl, hr, by omega⟩
      · obtain ⟨hpre, hlive, hlen⟩ := (ih (live_concat.2 ⟨hr, hk⟩)).1 hq
        refine ⟨(prefix_append _ _).trans hpre, hlive, ?_⟩
        simp at hlen
        omega
    · rintro ⟨⟨d, rfl⟩, hlive, hlen⟩
      cases d with
      | nil => exact .inl (by simp)
      | cons k d =>
        have hchild : t.Live (r ++ [k]) := hlive.ancestor ⟨d, by simp⟩
        refine .inr ⟨k, (live_concat.1 hchild).2, (ih hchild).2 ⟨⟨d, by simp⟩, hlive, ?_⟩⟩
        simp at hlen ⊢
        omega

/-- What a router writes into the table for its endpoints. -/
def entries (t : Tree H) (q : Path) : List (Bytes × H) :=
  (t.node q).endpoints.map fun e => (e.pattern, wrap (t.inherited q) e)

/-- Whatever the groups share, each router writes what it would write on its own. -/
theorem compileInto_eq {grow : ℕ → ℕ} {h : Heap (MiddlewareRoute H)} {s : Slice}
    (hs : Valid h s) (hr : h.read s ++ (t.node r).middlewares = t.inherited r) :
    (t.compileInto grow n h s r).2 = (t.visit n r).flatMap t.entries ∧
      Keeps s h (t.compileInto grow n h s r).1 := by
  induction n generalizing h s r with
  | zero => exact ⟨rfl, .refl s h⟩
  | succ n ih =>
    obtain ⟨hvalid, hread⟩ := read_append grow (t.node r).middlewares hs
    simp only [compileInto]
    set h₁ := (h.append grow s (t.node r).middlewares).1
    set m := (h.append grow s (t.node r).middlewares).2
    rw [hr] at hread
    -- the loop over the groups, from any list of them
    have hloop : ∀ (l : List ℕ) (h₂ : Heap (MiddlewareRoute H)) (out : List (Bytes × H)),
        Keeps m h₁ h₂ →
        let acc := l.foldl (fun acc k =>
          ((t.compileInto grow n acc.1 m (r ++ [k])).1,
            acc.2 ++ (t.compileInto grow n acc.1 m (r ++ [k])).2)) (h₂, out)
        acc.2 = out ++ l.flatMap (fun k => (t.visit n (r ++ [k])).flatMap t.entries) ∧
          Keeps m h₁ acc.1 := by
      intro l
      induction l with
      | nil => exact fun h₂ out hk => ⟨by simp, hk⟩
      | cons k l ihl =>
        intro h₂ out hk
        obtain ⟨hv₂, hr₂⟩ := hk.self hvalid
        obtain ⟨hout, hkeep⟩ := ih (r := r ++ [k]) hv₂ (by rw [hr₂, hread, inherited_concat])
        obtain ⟨hout', hkeep'⟩ := ihl _ (out ++ _) (hk.trans hkeep)
        refine ⟨?_, hkeep'⟩
        simp only [foldl_cons]
        rw [hout', hout, flatMap_cons, append_assoc]
    obtain ⟨hout, hkeep⟩ := hloop (List.range (t.node r).groups) h₁
      ((t.node r).endpoints.map fun e => (e.pattern, wrap (h₁.read m) e)) (.refl m h₁)
    refine ⟨?_, Keeps.trans_append hs hkeep⟩
    rw [hout, hread, visit, flatMap_cons, flatMap_assoc]
    rfl

theorem written_eq (grow : ℕ → ℕ) : t.written grow = (t.visit (t.size + 1) []).flatMap t.entries :=
  (compileInto_eq valid_nil (by simp [Heap.read, inherited])).1

/-! ## Trees that are built -/

/-- The trees that calls of `Use`, `On` and `Group` build, on routers that were made. -/
inductive Built : Tree H → Prop
  | new : Built {}
  | use {t : Tree H} {r : Path} (h : Built t) (hr : t.Live r) (pattern : Bytes)
      (m : Option (H → H)) : Built (t.use r pattern m).1
  | on {t : Tree H} {r : Path} (h : Built t) (hr : t.Live r) (pattern : Bytes)
      (handler : Option H) : Built (t.on r pattern handler).1
  | group {t t' : Tree H} {r child : Path} (h : Built t) (hr : t.Live r) (prefixes : List Bytes)
      (hg : t.group r prefixes = .ok (t', child)) : Built t'

/-- What holds of a tree that is not compiled: the endpoints are those of the calls of `On` that
    succeeded, each with its own pattern. -/
structure Sound (t : Tree H) : Prop where
  fresh : ∀ r, (t.node r).isCompiled = false
  blank : ∀ r, ¬t.Live r → t.node r = {}
  depth : ∀ r, t.Live r → r.length ≤ t.size
  endpoints : ∀ r, (t.node r).endpoints = (t.ons.filter (·.router = r)).map (·.endpoint)
  registered : t.registered = t.ons.map (·.endpoint.pattern)
  nodup : t.registered.Nodup
  live : ∀ x ∈ t.ons, t.Live x.router
  pattern : ∀ x ∈ t.ons, x.endpoint.pattern = joinPattern (t.fullPrefix x.router) x.event

theorem sound_new : Sound ({} : Tree H) where
  fresh _ := rfl
  blank _ _ := rfl
  depth r h := by
    rcases eq_nil_or_concat r with rfl | ⟨q, k, rfl⟩
    · exact le_rfl
    · exact absurd (live_concat.1 (by simpa using h)).2 (Nat.not_lt_zero k)
  endpoints _ := rfl
  registered := rfl
  nodup := nodup_nil
  live := nofun
  pattern := nofun

theorem live_congr {t' : Tree H} (h : ∀ q, (t'.node q).groups = (t.node q).groups) :
    t'.Live r ↔ t.Live r := by
  simp [Live, h]

theorem fullPrefix_congr {t' : Tree H}
    (h : ∀ q, q <+: r → (t'.node q).groupPrefix = (t.node q).groupPrefix) :
    t'.fullPrefix r = t.fullPrefix r := by
  have : (r.inits.map fun q => (t'.node q).groupPrefix) =
      r.inits.map fun q => (t.node q).groupPrefix :=
    map_congr_left fun q hq => h q ((mem_inits q r).1 hq)
  rw [fullPrefix, parts, this, fullPrefix, parts]

/-- A router changes, and neither its groups nor its prefix do. -/
theorem setNode_same {x : Node H} (hg : x.groups = (t.node r).groups)
    (hp : x.groupPrefix = (t.node r).groupPrefix) :
    (∀ q, (t.setNode r x).Live q ↔ t.Live q) ∧
      ∀ q, (t.setNode r x).fullPrefix q = t.fullPrefix q := by
  have hnode : ∀ q, ((t.setNode r x).node q).groups = (t.node q).groups ∧
      ((t.setNode r x).node q).groupPrefix = (t.node q).groupPrefix := by
    intro q
    simp only [setNode, Function.update_apply]
    split_ifs with hq
    · subst hq
      exact ⟨hg, hp⟩
    · exact ⟨rfl, rfl⟩
  exact ⟨fun q => live_congr fun p => (hnode p).1, fun q => fullPrefix_congr fun p _ => (hnode p).2⟩

/-- Such a change freezes no router and makes none. -/
theorem Sound.fresh_setNode (h : t.Sound) (hr : t.Live r) {x : Node H}
    (hlive : ∀ q, (t.setNode r x).Live q ↔ t.Live q) (hx : x.isCompiled = (t.node r).isCompiled) :
    (∀ q, ((t.setNode r x).node q).isCompiled = false) ∧
      ∀ q, ¬(t.setNode r x).Live q → (t.setNode r x).node q = {} := by
  refine ⟨fun q => ?_, fun q hq => ?_⟩
  · simp only [setNode, Function.update_apply]
    split_ifs
    · exact hx.trans (h.fresh r)
    · exact h.fresh q
  · have hne : q ≠ r := fun heq => hq ((hlive q).2 (heq ▸ hr))
    simpa [setNode, Function.update_of_ne hne] using h.blank q fun hl => hq ((hlive q).2 hl)

theorem Sound.use (h : t.Sound) (hr : t.Live r) (pattern : Bytes) (m : Option (H → H)) :
    (t.use r pattern m).1.Sound := by
  unfold Tree.use
  rw [h.fresh, if_neg Bool.false_ne_true]
  cases m with
  | none => exact h
  | some fn =>
    set x : Node H := { t.node r with middlewares := (t.node r).middlewares ++
      [⟨t.scopedMiddlewarePattern r pattern, fn⟩] }
    obtain ⟨hlive, hfull⟩ := setNode_same (t := t) (r := r) (x := x) rfl rfl
    obtain ⟨hfresh, hblank⟩ := h.fresh_setNode hr (x := x) hlive rfl
    refine ⟨hfresh, hblank, fun q hq => h.depth q ((hlive q).1 hq), fun q => ?_,
      h.registered, h.nodup, fun y hy => (hlive _).2 (h.live y hy), fun y hy => ?_⟩
    · simp only [setNode, Function.update_apply]
      split_ifs with hq
      · exact hq ▸ h.endpoints r
      · exact h.endpoints q
    · exact (hfull y.router).symm ▸ h.pattern y hy

theorem Sound.on (h : t.Sound) (hr : t.Live r) (pattern : Bytes) (handler : Option H) :
    (t.on r pattern handler).1.Sound := by
  unfold Tree.on
  rw [h.fresh, if_neg Bool.false_ne_true]
  cases handler with
  | none => exact h
  | some fn =>
    simp only
    split
    · exact h
    split
    · exact h
    rename_i hnew
    set endpoint : EndpointRoute H := ⟨joinPattern (t.fullPrefix r) pattern, fn⟩
    set x : Node H := { t.node r with endpoints := (t.node r).endpoints ++ [endpoint] }
    obtain ⟨hlive, hfull⟩ := setNode_same (t := t) (r := r) (x := x) rfl rfl
    obtain ⟨hfresh, hblank⟩ := h.fresh_setNode hr (x := x) hlive rfl
    refine ⟨hfresh, hblank, fun q hq => h.depth q ((hlive q).1 hq), fun q => ?_, ?_,
      ?_, fun y hy => (hlive _).2 ?_, fun y hy => (hfull y.router).symm ▸ ?_⟩
    · simp only [setNode, Function.update_apply, filter_append, map_append]
      split_ifs with hq
      · subst hq
        simp [x, h.endpoints]
      · simp [h.endpoints, Ne.symm hq]
    · simp [h.registered, endpoint]
    · exact nodup_append.2 ⟨h.nodup, nodup_singleton _, by
        rintro p hp _ hq rfl
        exact hnew (mem_singleton.1 hq ▸ hp)⟩
    · rcases mem_append.1 hy with hy | hy
      · exact h.live y hy
      · exact mem_singleton.1 hy ▸ hr
    · rcases mem_append.1 hy with hy | hy
      · exact h.pattern y hy
      · exact mem_singleton.1 hy ▸ rfl

theorem Sound.group (h : t.Sound) (hr : t.Live r) {t' : Tree H} {child : Path}
    {prefixes : List Bytes} (hg : t.group r prefixes = .ok (t', child)) : t'.Sound := by
  unfold Tree.group at hg
  rw [h.fresh, if_neg Bool.false_ne_true] at hg
  split at hg
  · cases hg
  obtain ⟨ht', rfl⟩ := Prod.mk.inj (Except.ok.inj hg)
  set child := r ++ [(t.node r).groups]
  have hdead : ¬t.Live child := fun hl => absurd (live_concat.1 hl).2 (Nat.lt_irrefl _)
  have hchild : child ≠ r := by simp [child]
  have hnode : ∀ q, q ≠ child → t'.node q =
      if q = r then { t.node r with groups := (t.node r).groups + 1 } else t.node q := by
    intro q hq
    simp only [← ht', setNode, Function.update_of_ne hq, Function.update_apply]
  have hnew : t'.node child = { groupPrefix := prefixes.headD [] } := by
    simp [← ht', setNode]
  have hgroups : ∀ q, q ≠ child → (t.node q).groups ≤ (t'.node q).groups := by
    intro q hq
    rw [hnode q hq]
    split_ifs with hqr
    · exact hqr ▸ Nat.le_succ _
    · exact le_rfl
  have hlive : ∀ q, t'.Live q ↔ t.Live q ∨ q = child := by
    intro q
    induction q using List.reverseRecOn with
    | nil => simp [live_nil]
    | append_singleton q k ih =>
      rw [live_concat, live_concat, ih]
      by_cases hq : q = child
      · subst hq
        simp [hnew, hdead]
      · rw [hnode q hq]
        by_cases hqr : q = r
        · subst hqr
          simp only [hr, true_or, true_and, if_true, child, append_cancel_left_eq,
            List.cons.injEq, and_true]
          omega
        · have : q ++ [k] ≠ child := fun heq => hqr (append_inj' heq rfl).1
          simp [hq, hqr, this]
  have hne : ∀ q, t.Live q → q ≠ child := fun q hq heq => hdead (heq ▸ hq)
  have hfull : ∀ q, t.Live q → t'.fullPrefix q = t.fullPrefix q := fun q hq =>
    fullPrefix_congr fun p hp => by
      rw [hnode p (hne p (hq.ancestor hp))]
      split_ifs with hpr
      · exact hpr ▸ rfl
      · rfl
  have hons : t'.ons = t.ons := by rw [← ht']; rfl
  have hsize : t'.size = t.size + 1 := by rw [← ht']
  have hreg : t'.registered = t.registered := by rw [← ht']; rfl
  refine ⟨fun q => ?_, fun q hq => ?_, fun q hq => ?_, fun q => ?_, ?_, hreg ▸ h.nodup,
    fun y hy => ?_, fun y hy => ?_⟩
  · by_cases hq : q = child
    · rw [hq, hnew]
    · rw [hnode q hq]
      split_ifs
      · exact h.fresh r
      · exact h.fresh q
  · rw [hlive] at hq
    push Not at hq
    have hqr : q ≠ r := fun heq => hq.1 (heq ▸ hr)
    rw [hnode q hq.2, if_neg hqr, h.blank q hq.1]
  · rw [hsize]
    rcases (hlive q).1 hq with hq | rfl
    · exact (h.depth q hq).trans (Nat.le_succ _)
    · simpa [child] using h.depth r hr
  · rw [hons]
    by_cases hq : q = child
    · have hnone : t.ons.filter (·.router = child) = [] := by
        rw [filter_eq_nil_iff]
        exact fun y hy => by simpa using hne _ (h.live y hy)
      rw [hq, hnew, hnone]
      rfl
    · rw [hnode q hq]
      split_ifs with hqr
      · exact hqr ▸ h.endpoints r
      · exact h.endpoints q
  · rw [hreg, hons]
    exact h.registered
  · rw [hons] at hy
    exact (hlive _).2 (.inl (h.live y hy))
  · rw [hons] at hy
    rw [hfull _ (h.live y hy)]
    exact h.pattern y hy

theorem Built.sound (h : Built t) : t.Sound := by
  induction h with
  | new => exact sound_new
  | use _ hr pattern m ih => exact ih.use hr pattern m
  | on _ hr pattern handler ih => exact ih.on hr pattern handler
  | group _ hr _ hg ih => exact ih.group hr hg

/-! ## The table -/

/-- What is written into the table for a call of `On`. -/
def entry (t : Tree H) (x : Registration H) : Bytes × H :=
  (x.endpoint.pattern, wrap (t.inherited x.router) x.endpoint)

/-- A pattern belongs to one call of `On`. -/
theorem Sound.unique (h : t.Sound) {x y : Registration H} (hx : x ∈ t.ons) (hy : y ∈ t.ons)
    (hxy : x.endpoint.pattern = y.endpoint.pattern) : x = y :=
  inj_on_of_nodup_map (h.registered ▸ h.nodup) hx hy hxy

theorem Sound.mem_written (h : t.Sound) (grow : ℕ → ℕ) {w : Bytes × H} :
    w ∈ t.written grow ↔ ∃ x ∈ t.ons, w = t.entry x := by
  simp only [written_eq, mem_flatMap, entries, h.endpoints, mem_map, mem_filter,
    decide_eq_true_eq]
  constructor
  · rintro ⟨q, -, _, ⟨x, ⟨hx, rfl⟩, rfl⟩, rfl⟩
    exact ⟨x, hx, rfl⟩
  · rintro ⟨x, hx, rfl⟩
    refine ⟨x.router, (mem_visit live_nil).2 ⟨ nil_prefix, h.live x hx, ?_⟩, x.endpoint,
      ⟨x, ⟨hx, rfl⟩, rfl⟩, rfl⟩
    have := h.depth _ (h.live x hx)
    simp
    omega

/-- No entry of the table replaces another. -/
theorem Sound.nodup_written (h : t.Sound) (grow : ℕ → ℕ) :
    ((t.written grow).map Prod.fst).Nodup := by
  have hkeys : ∀ q, (t.entries q).map Prod.fst =
      (t.ons.filter (·.router = q)).map (·.endpoint.pattern) := fun q => by
    simp [entries, h.endpoints, Function.comp_def]
  rw [written_eq, map_flatMap]
  refine nodup_flatMap.2 ⟨fun q _ => ?_, nodup_visit.imp fun {p q} hpq => ?_⟩
  · rw [hkeys]
    exact (h.registered ▸ h.nodup).sublist (filter_sublist.map _)
  · intro k hp hq
    simp only [hkeys, mem_map, mem_filter, decide_eq_true_eq] at hp hq
    obtain ⟨x, ⟨hx, rfl⟩, rfl⟩ := hp
    obtain ⟨y, ⟨hy, rfl⟩, hxy⟩ := hq
    exact hpq (congrArg _ (h.unique hy hx hxy).symm)

/-- The table after some entries were written. -/
def table (l : List (Bytes × H)) : Bytes → Option H :=
  l.foldl (fun m w => Function.update m w.1 (some w.2)) fun _ => none

theorem table_concat (l : List (Bytes × H)) (w : Bytes × H) :
    table (l ++ [w]) = Function.update (table l) w.1 (some w.2) := by
  simp [table]

theorem table_of_mem {l : List (Bytes × H)} (hl : (l.map Prod.fst).Nodup) {w : Bytes × H}
    (hw : w ∈ l) : table l w.1 = some w.2 := by
  induction l using List.reverseRecOn with
  | nil => cases hw
  | append_singleton l v ih =>
    rw [map_append, nodup_append] at hl
    rw [table_concat]
    rcases mem_append.1 hw with hw | hw
    · have hne : w.1 ≠ v.1 := hl.2.2 _ (mem_map_of_mem hw) _ (by simp)
      rw [Function.update_of_ne hne]
      exact ih hl.1 hw
    · obtain rfl := mem_singleton.1 hw
      exact Function.update_self ..

theorem table_eq_none {l : List (Bytes × H)} {event : Bytes} (h : ∀ w ∈ l, w.1 ≠ event) :
    table l event = none := by
  induction l using List.reverseRecOn with
  | nil => rfl
  | append_singleton l v ih =>
    rw [table_concat, Function.update_of_ne (h v (by simp)).symm]
    exact ih fun w hw => h w (by simp [hw])

/-- Emitting an event after `Compile`. -/
theorem Sound.emit_compile (h : t.Sound) (grow : ℕ → ℕ) (event : Bytes) :
    (t.compile grow).emit event = match table (t.written grow) event with
      | some handler => .ok handler
      | none => .error Application.errRouteNotFound := by
  simp [compile, h.fresh, emit, setNode, table]

/-- `m₁ (m₂ (… (mₖ h)))` -/
def compose (ms : List (MiddlewareRoute H)) (h : H) : H := ms.foldr (fun m h => m.fn h) h

theorem wrap_eq (ms : List (MiddlewareRoute H)) (e : EndpointRoute H) :
    wrap ms e = compose (ms.filter fun m => matchPattern m.pattern e.pattern) e.fn := by
  induction ms with
  | nil => rfl
  | cons m ms ih =>
    have hcons : wrap (m :: ms) e =
        if matchPattern m.pattern e.pattern then m.fn (wrap ms e) else wrap ms e := rfl
    cases hm : matchPattern m.pattern e.pattern <;> simp [hcons, hm, ih, compose]

/-- The middlewares that wrap the handler of a call of `On`: of the routers on the path from the
    root, in the order of their registration, those whose patterns match. -/
def wrapping (t : Tree H) (x : Registration H) : List (MiddlewareRoute H) :=
  (t.inherited x.router).filter fun m => matchPattern m.pattern x.endpoint.pattern

theorem Sound.emit_registered (h : t.Sound) (grow : ℕ → ℕ) {x : Registration H} (hx : x ∈ t.ons) :
    (t.compile grow).emit x.endpoint.pattern = .ok (compose (t.wrapping x) x.endpoint.fn) := by
  have := table_of_mem (h.nodup_written grow) ((h.mem_written grow).2 ⟨x, hx, rfl⟩)
  rw [h.emit_compile, show x.endpoint.pattern = (t.entry x).1 from rfl, this]
  simp [entry, wrap_eq, wrapping]

end Tree

/-- Of any tree that was built with `Group`, `On` and `Use`, on whatever routers and in whatever
    order: what `Compile` writes into the table is one entry for each call of `On` that has
    returned nil, under the full pattern, and no two under the same; emitting the pattern calls
    the handler, wrapped in the matching middlewares of the routers on the path from the root
    to the router of the call, root first and in the order of their registration; and any
    other event has no route. -/
theorem compile_composes (t : Tree H) (h : Tree.Built t) (grow : ℕ → ℕ) :
    (t.written grow).Perm (t.ons.map fun x =>
      (x.endpoint.pattern, Tree.compose (t.wrapping x) x.endpoint.fn)) ∧
    ((t.written grow).map Prod.fst).Nodup ∧
    (∀ x ∈ t.ons, x.endpoint.pattern = joinPattern (t.fullPrefix x.router) x.event ∧
      (t.compile grow).emit x.endpoint.pattern =
        .ok (Tree.compose (t.wrapping x) x.endpoint.fn)) ∧
    ∀ event, (∀ x ∈ t.ons, x.endpoint.pattern ≠ event) →
      (t.compile grow).emit event = .error Application.errRouteNotFound := by
  have hs := h.sound
  have hentry : ∀ x, t.entry x = (x.endpoint.pattern, Tree.compose (t.wrapping x) x.endpoint.fn) :=
    fun x => by rw [Tree.entry, Tree.wrap_eq, Tree.wrapping]
  refine ⟨?_, hs.nodup_written grow, fun x hx => ⟨hs.pattern x hx, hs.emit_registered grow hx⟩,
    fun event hev => ?_⟩
  · have hnodup : (t.ons.map t.entry).Nodup := by
      refine List.Nodup.of_map Prod.fst ?_
      simpa [Function.comp_def, Tree.entry] using hs.registered ▸ hs.nodup
    simp only [← hentry]
    refine (perm_ext_iff_of_nodup (.of_map _ (hs.nodup_written grow)) hnodup).2 fun w => ?_
    rw [hs.mem_written, mem_map]
    simp [eq_comm]
  · rw [hs.emit_compile, Tree.table_eq_none fun w hw => ?_]
    obtain ⟨x, hx, rfl⟩ := (hs.mem_written grow).1 hw
    exact hev x hx

/-- A route of the group `a`, under a middleware of the root that was registered first. -/
theorem compile_composes_nested : ∃ t : Tree ℕ, Tree.Built t ∧
    (t.compile fun _ => 8).emit [97, dot, 120] = .ok 42 := by
  let x : Registration ℕ := ⟨[0], [120], ⟨[97, dot, 120], 21⟩⟩
  have hplay : ∃ t : Tree ℕ, (({} : Tree ℕ).use [] [star] (some (2 * ·))).1.group [] [[97]] =
      .ok (t, [0]) ∧ (t.node []).groups = 1 ∧ (t.on [0] [120] (some 21)).1.ons = [x] ∧
      Tree.compose ((t.on [0] [120] (some 21)).1.wrapping x) 21 = 42 :=
    ⟨_, rfl, rfl, by decide +kernel, by decide +kernel⟩
  obtain ⟨t, hg, hgroups, hons, hcompose⟩ := hplay
  have hlive : t.Live [0] := Tree.live_concat.2 ⟨Tree.live_nil, by omega⟩
  have hbuilt : Tree.Built (t.on [0] [120] (some 21)).1 :=
    .on (.group (.use .new Tree.live_nil _ _) Tree.live_nil _ hg) hlive _ _
  have hemit := ((compile_composes _ hbuilt fun _ => 8).2.2.1 x (hons ▸ mem_singleton.2 rfl)).2
  exact ⟨_, hbuilt, hemit.trans (congrArg _ hcompose)⟩

/-! ## Middlewares of a whole group -/

section Trim

variable {s a b : Bytes} {l : List Bytes}

/-- `strings.TrimRight`, of dots. -/
def trimRight (s : Bytes) : Bytes := s.rdropWhile (· = dot)

theorem trimRight_append (a b : Bytes) :
    trimRight (a ++ b) = if trimRight b = [] then trimRight a else a ++ trimRight b := by
  simp only [trimRight, List.rdropWhile, reverse_append, dropWhile_append,
    List.reverse_eq_nil_iff, List.isEmpty_iff]
  split_ifs <;> simp

theorem trimRight_eq_nil : trimRight s = [] ↔ ∀ c ∈ s, c = dot := by
  simp [trimRight, rdropWhile_eq_nil_iff]

theorem trimRight_eq_self (h : s.getLast? ≠ some dot) : trimRight s = s := by
  rw [trimRight, rdropWhile_eq_self_iff]
  intro hs hlast
  exact h (by rw [List.getLast?_eq_getLast_of_ne_nil hs, of_decide_eq_true hlast])

/-- What is trimmed of something that ends with a dot. -/
theorem dots_behind (h : s.getLast? = some dot) :
    ∃ y, trimRight s ++ dot :: y = s ∧ ∀ c ∈ y, c = dot := by
  have hsplit : trimRight s ++ s.rtakeWhile (· = dot) = s :=
    rdropWhile_append_rtakeWhile
  have hdots : ∀ c ∈ s.rtakeWhile (· = dot), c = dot := fun c hc =>
    of_decide_eq_true (mem_rtakeWhile_imp (p := fun c => decide (c = dot)) hc)
  cases hy : s.rtakeWhile (· = dot) with
  | nil =>
    rw [hy, append_nil, trimRight, rdropWhile_eq_self_iff] at hsplit
    have hs : s ≠ [] := by
      rintro rfl
      cases h
    rw [List.getLast?_eq_getLast_of_ne_nil hs] at h
    exact absurd (decide_eq_true (Option.some.inj h)) (hsplit hs)
  | cons c y =>
    rw [hy] at hsplit hdots
    rw [hdots c mem_cons_self] at hsplit
    exact ⟨y, hsplit, fun c hc => hdots c (mem_cons_of_mem _ hc)⟩

theorem trim_of_head (h : s.head? ≠ some dot) : trim s = trimRight s := by
  cases s with
  | nil => rfl
  | cons c s => simp [trim, trimRight, show c ≠ dot from fun hc => h (by simp [hc])]

theorem trim_eq_nil : trim s = [] ↔ ∀ c ∈ s, c = dot := by
  refine ⟨fun h c hc => ?_, fun h => ?_⟩
  · rw [← takeWhile_append_dropWhile (p := fun c => decide (c = dot)) (l := s)] at hc
    rcases mem_append.1 hc with hc | hc
    · exact of_decide_eq_true (mem_takeWhile_imp (p := fun c => decide (c = dot)) hc)
    · exact trimRight_eq_nil.1 h c hc
  · exact trimRight_eq_nil.2 fun c hc => h c (dropWhile_sublist _ |>.subset hc)

/-- What is trimmed does not begin with a dot. -/
theorem head_trim (s : Bytes) : (trim s).head? ≠ some dot := by
  intro hhead
  obtain ⟨rest, hrest⟩ := rdropWhile_prefix (· = dot) (s.dropWhile (· = dot))
  have hnot := List.head?_dropWhile_not (fun c : UInt8 => decide (c = dot)) s
  rw [trim] at hhead
  rw [← hrest, List.head?_append, hhead] at hnot
  simp at hnot

theorem head_joinPattern (a b : Bytes) : (joinPattern a b).head? ≠ some dot := by
  rw [joinPattern]
  split_ifs with ha hb
  · exact head_trim b
  · exact head_trim a
  · rw [List.head?_append_of_ne_nil _ ha]
    exact head_trim a

theorem intercalate_cons (hl : l ≠ []) :
    [dot].intercalate (s :: l) = s ++ dot :: [dot].intercalate l := by
  cases l with
  | nil => exact absurd rfl hl
  | cons t l => simp [List.intercalate]

/-- What joining more parts puts behind the first ones. -/
def behind : List Bytes → Bytes
  | [] => []
  | s :: l => dot :: s ++ behind l

theorem intercalate_eq (s : Bytes) (l : List Bytes) :
    [dot].intercalate (s :: l) = s ++ behind l := by
  induction l generalizing s with
  | nil => simp [List.intercalate, behind]
  | cons u l ih => rw [intercalate_cons (cons_ne_nil u l), ih, behind, cons_append]

theorem behind_append (l m : List Bytes) : behind (l ++ m) = behind l ++ behind m := by
  induction l with
  | nil => rfl
  | cons s l ih => simp [behind, ih]

/-- The parts behind are trimmed away if they have dots only. -/
theorem trimRight_behind : trimRight (behind l) ≠ [] ↔ ∃ s ∈ l, trim s ≠ [] := by
  simp only [ne_eq, trimRight_eq_nil, trim_eq_nil, not_forall, exists_prop]
  induction l with
  | nil => simp [behind]
  | cons s l ih => simp [behind, or_and_right, exists_or, ih]

end Trim

namespace Tree

variable {t : Tree H} {r q : Path}

/-- A middleware of the router `q`, for its whole group, covers the route of an event on the
    router `r`: the prefix `P` of the group is empty; or it does not begin with a dot, and what
    follows `P` in the name of the route is a dot. That is so if a prefix between the two has
    more than dots, and else if `P` does not end with a dot and the event has more than dots. -/
def Covers (t : Tree H) (q r : Path) (event : Bytes) : Prop :=
  t.fullPrefix q = [] ∨ (t.fullPrefix q).head? ≠ some dot ∧
    ((∃ p, q <+: p ∧ p ≠ q ∧ p <+: r ∧ trim (t.node p).groupPrefix ≠ []) ∨
      (t.fullPrefix q).getLast? ≠ some dot ∧ trim event ≠ [])

/-- The prefixes below the router `q`, on the path to `q ++ d`. -/
def partsBelow (t : Tree H) (q d : Path) : List Bytes :=
  ((d.inits.tail.map fun e => q ++ e).map fun p => (t.node p).groupPrefix).filter (· ≠ [])

theorem parts_append (q d : Path) : t.parts (q ++ d) = t.parts q ++ t.partsBelow q d := by
  rw [parts, inits_append, map_append, filter_append, parts, partsBelow]

theorem exists_partsBelow {d : Path} : (∃ s ∈ t.partsBelow q d, trim s ≠ []) ↔
    ∃ p, q <+: p ∧ p ≠ q ∧ p <+: q ++ d ∧ trim (t.node p).groupPrefix ≠ [] := by
  have hmem : ∀ e, e ∈ d.inits.tail ↔ e ≠ [] ∧ e <+: d := by
    intro e
    cases d with
    | nil => simp +contextual
    | cons k d => cases e <;> simp [and_comm, eq_comm]
  simp only [partsBelow, mem_filter, mem_map, hmem, decide_eq_true_eq]
  constructor
  · rintro ⟨s, ⟨⟨p, ⟨e, ⟨hne, he⟩, rfl⟩, rfl⟩, -⟩, hs⟩
    exact ⟨_, prefix_append q e, by simpa using hne, (prefix_append_right_inj q).2 he, hs⟩
  · rintro ⟨p, ⟨e, rfl⟩, hne, he, hs⟩
    refine ⟨_, ⟨⟨_, ⟨e, ⟨by simpa using hne, (prefix_append_right_inj q).1 he⟩, rfl⟩, rfl⟩, ?_⟩,
      hs⟩
    exact fun hnil => hs (by rw [hnil]; rfl)

theorem fullPrefix_append {d : Path} (hq : t.fullPrefix q ≠ []) :
    t.fullPrefix (q ++ d) = t.fullPrefix q ++ behind (t.partsBelow q d) := by
  rw [fullPrefix, fullPrefix, parts_append]
  cases hparts : t.parts q with
  | nil => exact absurd (by rw [fullPrefix, hparts]; rfl) hq
  | cons s l => rw [cons_append, intercalate_eq, intercalate_eq, behind_append,
      append_assoc]

/-- A pattern of a whole group is matched by the names with its prefix and a dot. -/
theorem match_scoped_iff {pattern : Bytes} (hp : pattern = [] ∨ pattern = [star])
    (hq : t.fullPrefix q ≠ []) (name : Bytes) :
    matchPattern (t.scopedMiddlewarePattern q pattern) name = true ↔
      t.fullPrefix q ++ [dot] <+: name := by
  have hne : t.fullPrefix q ++ [dot, star] ≠ [star] := fun heq => by
    simpa using congrArg List.length heq
  rw [scopedMiddlewarePattern, if_pos hp, if_neg hq, matchPattern, if_neg hne, if_pos]
  · simp [ isPrefixOf_iff_prefix]
  · simp [isSuffixOf_iff_suffix]

end Tree

/-- The name of a route begins with a prefix `a` and a dot, where `a` does not begin with a dot
    and `x` is what follows `a` in the prefix of its router. -/
theorem joined_prefix_iff {a x event : Bytes} (ha : a ≠ []) (hhead : a.head? ≠ some dot)
    (hx : x = [] ∨ x.head? = some dot) :
    a ++ [dot] <+: joinPattern (a ++ x) event ↔
      trimRight x ≠ [] ∨ a.getLast? ≠ some dot ∧ trim event ≠ [] := by
  have htrim : trim (a ++ x) = if trimRight x = [] then trimRight a else a ++ trimRight x := by
    rw [trim_of_head (by rwa [List.head?_append_of_ne_nil _ ha]), trimRight_append]
  have hright : trimRight a ≠ [] := by
    obtain ⟨c, a, rfl⟩ := exists_cons_of_ne_nil ha
    exact fun h => hhead (by simp [trimRight_eq_nil.1 h c])
  by_cases hrest : trimRight x = []
  · rw [if_pos hrest] at htrim
    rw [joinPattern, htrim, if_neg hright]
    by_cases hlast : a.getLast? = some dot
    · refine iff_of_false (fun hprefix => ?_) (by simp [hrest, hlast])
      obtain ⟨y, hy, hdots⟩ := dots_behind hlast
      have hlonger : trimRight a ++ dot :: (y ++ [dot]) = a ++ [dot] := by
        conv_rhs => rw [← hy]
        simp
      rw [← hlonger] at hprefix
      split_ifs at hprefix with hevent
      · have hlen := hprefix.length_le
        simp at hlen
      · -- a second dot would be the first byte of the event
        rw [prefix_append_right_inj, cons_prefix_cons] at hprefix
        obtain ⟨rest, hrest'⟩ := hprefix.2
        refine head_trim event ?_
        rw [← hrest']
        cases y with
        | nil => rfl
        | cons c y => simp [hdots c]
    · rw [trimRight_eq_self hlast]
      by_cases hevent : trim event = []
      · refine iff_of_false (fun hprefix => ?_) (by simp [hrest, hevent])
        rw [if_pos hevent] at hprefix
        simpa using hprefix.length_le
      · refine iff_of_true ?_ (.inr ⟨hlast, hevent⟩)
        rw [if_neg hevent]
        exact ⟨trim event, by simp⟩
  · rw [if_neg hrest] at htrim
    -- what is left of `x` begins with its dot
    have hdot : [dot] <+: trimRight x := by
      obtain ⟨c, y, hy⟩ := exists_cons_of_ne_nil hrest
      obtain ⟨z, hz⟩ : trimRight x <+: x := rdropWhile_prefix _ _
      rcases hx with rfl | hx
      · exact absurd rfl hrest
      · rw [← hz, hy, cons_append, List.head?_cons] at hx
        rw [hy, Option.some.inj hx]
        exact ⟨y, rfl⟩
    refine iff_of_true ?_ (.inl hrest)
    have hprefix : a ++ [dot] <+: trim (a ++ x) := by
      rw [htrim]
      exact prefix_append_right_inj a |>.2 hdot
    rw [joinPattern, if_neg (by rw [htrim]; simp [ha])]
    split_ifs
    · exact hprefix
    · exact hprefix.trans (prefix_append _ _)


/-- A middleware of a whole group matches the name of a route exactly where it covers it. -/
theorem Tree.match_iff_covers {t : Tree H} {q r : Path} (hq : q <+: r) (event : Bytes)
    {pattern : Bytes} (hp : pattern = [] ∨ pattern = [star]) :
    matchPattern (t.scopedMiddlewarePattern q pattern) (joinPattern (t.fullPrefix r) event) = true ↔
      t.Covers q r event := by
  obtain ⟨d, rfl⟩ := hq
  by_cases hnil : t.fullPrefix q = []
  · refine iff_of_true ?_ (.inl hnil)
    rw [scopedMiddlewarePattern, if_pos hp, if_pos hnil]
    rfl
  rw [match_scoped_iff hp hnil, Covers, or_iff_right hnil]
  by_cases hhead : (t.fullPrefix q).head? = some dot
  · -- the name of a route does not begin with a dot
    refine iff_of_false (fun ⟨rest, hrest⟩ => ?_) (fun h => h.1 hhead)
    refine head_joinPattern (t.fullPrefix (q ++ d)) event ?_
    rw [← hrest, append_assoc, List.head?_append_of_ne_nil _ hnil, hhead]
  · rw [and_iff_right hhead, ← exists_partsBelow, ← trimRight_behind, fullPrefix_append hnil]
    refine joined_prefix_iff hnil hhead ?_
    cases t.partsBelow q d with
    | nil => exact .inl rfl
    | cons s l => exact .inr rfl

/-- In any tree that was built: emitting the name of a route calls its handler within the
    middlewares that wrap it, and a middleware that was registered with the pattern `*` or the
    empty one on a router above is one of them exactly if it covers the route. -/
theorem guard_wraps_iff (t : Tree H) (h : Tree.Built t) (grow : ℕ → ℕ) (x : Registration H)
    (hx : x ∈ t.ons) (q : Path) (hq : q <+: x.router) (pattern : Bytes)
    (hp : pattern = [] ∨ pattern = [star]) (fn : H → H)
    (hm : ⟨t.scopedMiddlewarePattern q pattern, fn⟩ ∈ (t.node q).middlewares) :
    (t.compile grow).emit x.endpoint.pattern =
        .ok (Tree.compose (t.wrapping x) x.endpoint.fn) ∧
      (⟨t.scopedMiddlewarePattern q pattern, fn⟩ ∈ t.wrapping x ↔
        t.Covers q x.router x.event) := by
  have hs := h.sound
  refine ⟨hs.emit_registered grow hx, ?_⟩
  have hinherited : ⟨t.scopedMiddlewarePattern q pattern, fn⟩ ∈ t.inherited x.router :=
    mem_flatMap.2 ⟨q, (mem_inits q _).2 hq, hm⟩
  rw [Tree.wrapping, mem_filter, and_iff_right hinherited, hs.pattern x hx]
  exact Tree.match_iff_covers hq x.event hp

/-- A route of the group `a`, whose middleware answers `0`. -/
theorem guard_wraps_group : ∃ (t : Tree ℕ) (x : Registration ℕ), t.ons = [x] ∧
    (t.compile fun _ => 8).emit [97, dot, 120] =
      .ok (Tree.compose (t.wrapping x) 21) ∧ ⟨[97, dot, star], fun _ => 0⟩ ∈ t.wrapping x := by
  let x : Registration ℕ := ⟨[0], [120], ⟨[97, dot, 120], 21⟩⟩
  have hplay : ∃ t : Tree ℕ, ({} : Tree ℕ).group [] [[97]] = .ok (t, [0]) ∧
      (t.node []).groups = 1 ∧ ((t.use [0] [star] (some fun _ => 0)).1.node []).groups = 1 ∧
      ∃ u, ((t.use [0] [star] (some fun _ => 0)).1.on [0] [120] (some 21)).1 = u ∧ u.ons = [x] ∧
      u.fullPrefix [0] = [97] ∧
      (u.node [0]).middlewares = [⟨u.scopedMiddlewarePattern [0] [star], fun _ => 0⟩] :=
    ⟨_, rfl, rfl, rfl, _, rfl, by decide +kernel, rfl, rfl⟩
  obtain ⟨t, hg, hgroups, hgroups', u, rfl, hons, hprefix, hm⟩ := hplay
  have hbuilt : Tree.Built ((t.use [0] [star] (some fun _ => 0)).1.on [0] [120] (some 21)).1 :=
    .on (.use (.group .new Tree.live_nil _ hg)
    (Tree.live_concat.2 ⟨Tree.live_nil, by omega⟩ : t.Live ([] ++ [0])) [star] (some fun _ => 0))
    (Tree.live_concat.2 ⟨Tree.live_nil, hgroups' ▸ Nat.one_pos⟩ : Tree.Live _ ([] ++ [0])) [120]
    (some 21)
  obtain ⟨hemit, hwraps⟩ := guard_wraps_iff _ hbuilt (fun _ => 8) x (hons ▸ mem_singleton.2 rfl)
    [0] prefix_rfl [star] (.inr rfl) (fun _ => 0) (hm ▸ mem_singleton.2 rfl)
  refine ⟨_, x, hons, hemit, ?_⟩
  have hcovers := hwraps.2 (.inr (by rw [ hprefix]; exact ⟨by decide, .inr (by decide)⟩))
  rwa [Tree.scopedMiddlewarePattern, hprefix] at hcovers

/-- The prefix `a.`: the route of the group is `a.x`, but its middleware, registered for the
    whole group, is for `a..*`, so the handler is called without it. A name of dots only is
    missed as well: on a group `a` it is the route `a`, which `a.*` does not match. -/
theorem guard_missed :
    (∃ (t u : Tree ℕ), ({} : Tree ℕ).group [] [[97, dot]] = .ok (t, [0]) ∧
      (t.use [0] [star] (some fun _ => 0)).1.on [0] [120] (some 21) = (u, none) ∧
      (u.compile fun _ => 8).emit [97, dot, 120] = .ok 21) ∧
    ∃ (t u : Tree ℕ), ({} : Tree ℕ).group [] [[97]] = .ok (t, [0]) ∧
      (t.use [0] [star] (some fun _ => 0)).1.on [0] [] (some 21) = (u, none) ∧
      (u.compile fun _ => 8).emit [97] = .ok 21 :=
  ⟨⟨_, _, rfl, rfl, rfl⟩, ⟨_, _, rfl, rfl, rfl⟩⟩

/-! ## After `Compile` -/

/-- A router may be asked to register more: if the tree is compiled, it is the root. -/
def Careful (t : Tree H) (r : Path) : Prop := (t.node []).isCompiled = true → r = []

/-- Calls on routers that were made, as long as they meet the condition. -/
inductive CarefulStep : Tree H → Tree H → Prop
  | use {t : Tree H} {r : Path} (hr : t.Live r) (hc : Careful t r) (pattern : Bytes)
      (m : Option (H → H)) : CarefulStep t (t.use r pattern m).1
  | on {t : Tree H} {r : Path} (hr : t.Live r) (hc : Careful t r) (pattern : Bytes)
      (handler : Option H) : CarefulStep t (t.on r pattern handler).1
  | group {t t' : Tree H} {r child : Path} (hr : t.Live r) (hc : Careful t r)
      (prefixes : List Bytes) (hg : t.group r prefixes = .ok (t', child)) : CarefulStep t t'
  | compile (t : Tree H) (grow : ℕ → ℕ) : CarefulStep t (t.compile grow)

/-- A tree is still to be compiled, or all its routes are found. -/
def Frozen (t : Tree H) : Prop :=
  t.Sound ∨ (t.node []).isCompiled = true ∧
    ∀ x ∈ t.ons, ∃ handler, t.emit x.endpoint.pattern = .ok handler

theorem compiled_refuses {t : Tree H} {r : Path} (hc : (t.node []).isCompiled = true)
    (hr : Careful t r) :
    (∀ pattern handler, t.on r pattern handler = (t, some errRouterCompiled)) ∧
    (∀ pattern m, t.use r pattern m = (t, some errRouterCompiled)) ∧
    ∀ prefixes, t.group r prefixes = .error errRouterCompiled := by
  obtain rfl := hr hc
  simp [Tree.on, Tree.use, Tree.group, hc]

theorem frozen_step {t t' : Tree H} (h : Frozen t) (hs : CarefulStep t t') : Frozen t' := by
  rcases h with h | ⟨hc, hfound⟩
  · cases hs with
    | use hr _ pattern m => exact .inl (h.use hr pattern m)
    | on hr _ pattern handler => exact .inl (h.on hr pattern handler)
    | group hr _ _ hg => exact .inl (h.group hr hg)
    | compile grow =>
      have hons : (t.compile grow).ons = t.ons := by simp [Tree.compile, h.fresh, Tree.setNode]
      refine .inr ⟨by simp [Tree.compile, h.fresh, Tree.setNode], fun x hx => ?_⟩
      exact ⟨_, h.emit_registered grow (hons ▸ hx)⟩
  · cases hs with
    | use _ hr pattern m =>
      rw [(compiled_refuses hc hr).2.1]
      exact .inr ⟨hc, hfound⟩
    | on _ hr pattern handler =>
      rw [(compiled_refuses hc hr).1]
      exact .inr ⟨hc, hfound⟩
    | group _ hr _ hg =>
      rw [(compiled_refuses hc hr).2.2] at hg
      cases hg
    | compile grow =>
      rw [Tree.compile, if_pos hc]
      exact .inr ⟨hc, hfound⟩

/-- In every run in which, once the tree is compiled, only the root is asked to register more:
    after `Compile`, whichever router it was called on, `On` and `Use` return the error and
    `Group` panics with it, without a change to the tree, and every call of `On` that has
    returned nil at any time is reached through `Emit`. -/
theorem compile_freezes (t : Tree H) (h : Relation.ReflTransGen CarefulStep {} t)
    (hc : (t.node []).isCompiled = true) :
    (∀ r, Careful t r →
      (∀ pattern handler, t.on r pattern handler = (t, some errRouterCompiled)) ∧
      (∀ pattern m, t.use r pattern m = (t, some errRouterCompiled)) ∧
      ∀ prefixes, t.group r prefixes = .error errRouterCompiled) ∧
    ∀ x ∈ t.ons, ∃ handler, t.emit x.endpoint.pattern = .ok handler := by
  have hfrozen : Frozen t :=
    Run.invariant Frozen (.inl Tree.sound_new) (fun _ _ hi hs => frozen_step hi hs) h
  refine ⟨fun r => compiled_refuses hc, ?_⟩
  rcases hfrozen with hs | ⟨-, hfound⟩
  · exact absurd hc (by simp [hs.fresh])
  · exact hfound

/-- A route of the group `a` that was registered before `Compile`; afterwards the root refuses
    another one, and the tree is as it was. -/
theorem compile_freezes_group : ∃ t u : Tree ℕ, ({} : Tree ℕ).group [] [[97]] = .ok (t, [0]) ∧
    u = ((t.on [0] [120] (some 21)).1.compile fun _ => 8) ∧
    u.ons = [⟨[0], [120], ⟨[97, dot, 120], 21⟩⟩] ∧
    u.on [] [121] (some 7) = (u, some errRouterCompiled) ∧
    ∀ x ∈ (u.on [] [121] (some 7)).1.ons, ∃ handler,
      (u.on [] [121] (some 7)).1.emit x.endpoint.pattern = .ok handler := by
  have hplay : ∃ t : Tree ℕ, ({} : Tree ℕ).group [] [[97]] = .ok (t, [0]) ∧
      (t.node []).groups = 1 ∧ (t.node []).isCompiled = false ∧
      (((t.on [0] [120] (some 21)).1.compile fun _ => 8).node []).isCompiled = true ∧
      ((t.on [0] [120] (some 21)).1.compile fun _ => 8).ons =
        [⟨[0], [120], ⟨[97, dot, 120], 21⟩⟩] :=
    ⟨_, rfl, rfl, rfl, rfl, by decide +kernel⟩
  obtain ⟨t, hg, hgroups, hfresh, hc, hons⟩ := hplay
  have hrun : Relation.ReflTransGen CarefulStep {}
      ((t.on [0] [120] (some 21)).1.compile fun _ => 8) :=
    .tail (.tail (.tail .refl (.group Tree.live_nil (fun _ => rfl) _ hg))
      (.on (Tree.live_concat.2 ⟨Tree.live_nil, by omega⟩ : t.Live ([] ++ [0]))
        (fun hcompiled => absurd (hfresh.symm.trans hcompiled) nofun) _ _)) (.compile _ _)
  obtain ⟨hrefuses, -⟩ := compile_freezes _ hrun hc
  have hon := (hrefuses [] fun _ => rfl).1 [121] (some 7)
  refine ⟨t, _, hg, rfl, hons, hon, ?_⟩
  -- the call that was refused is part of the run, too
  have hlater := hrun.tail (.on Tree.live_nil (fun _ => rfl) [121] (some 7))
  exact (compile_freezes _ hlater (by rw [hon]; exact hc)).2

/-- A group that was made before `Compile` still accepts a route: `On` returns nil and the route
    is registered, but `Emit` does not find it. -/
theorem compile_loses : ∃ t u : Tree ℕ, ({} : Tree ℕ).group [] [[97]] = .ok (t, [0]) ∧
    ((t.compile fun _ => 8).node []).isCompiled = true ∧
    (t.compile fun _ => 8).on [0] [120] (some 21) = (u, none) ∧
    u.registered = [[97, dot, 120]] ∧
    u.emit [97, dot, 120] = .error Application.errRouteNotFound :=
  ⟨_, _, rfl, rfl, rfl, rfl, rfl⟩

end Etp.Router
