import Etp.Session.Config

/-!
# The rate limiter

`HandleFrame` asks `checkRateLimit` first. It counts the frames and their bytes, header
included, in a window that starts with the first frame and again with the first frame that
arrives a second or more after its start. A frame is counted before the counters are compared
with the limits, whatever the answer.

* `Log.Counts`: what holds of the calls so far and the state they have left, kept by one more
  call (`Log.Counts.check`);
* `two_windows`: an interval of less than a second meets at most two windows;
* `checkRateLimit_bounded`: in any sequence of calls at nondecreasing times, the frames
  accepted stay within the limits in every window, and within twice the limits in every
  interval of less than a second.

Times are nanoseconds since the zero time, which no clock reads. The counters are numbers:
the fields of the source would only wrap at `2 ^ 63` frames or `2 ^ 64` bytes in a second.
-/

namespace Etp.RateLimit

open Session List

/-- The state of the limiter; a session starts with the zero value. -/
structure RateLimitState where
  windowStart : ℕ := 0
  frames : ℕ := 0
  bytes : ℕ := 0
  deriving DecidableEq, Repr

def errRateLimitFrames : Err := "rate limit exceeded: frames"
def errRateLimitBytes : Err := "rate limit exceeded: bytes"

/-- The bytes a frame is counted with. -/
def size (f : Frame) : ℕ := headerSize + f.payload.length

/-- The window a call at the time `now` is counted in. -/
def RateLimitState.window (s : RateLimitState) (now : ℕ) : RateLimitState :=
  if s.windowStart = 0 ∨ second ≤ now - s.windowStart then ⟨now, 0, 0⟩ else s

/-- `checkRateLimit`. The event `EventRateLimited` has the text of the error. -/
def checkRateLimit (c : RateLimitConfig) (s : RateLimitState) (f : Frame) (now : ℕ) :
    RateLimitState × Option Err :=
  let w := s.window now
  let s := { w with frames := w.frames + 1, bytes := w.bytes + size f }
  if 0 < c.maxFramesPerSecond ∧ c.maxFramesPerSecond < s.frames then
    (s, some errRateLimitFrames)
  else if 0 < c.maxBytesPerSecond ∧ c.maxBytesPerSecond < s.bytes then
    (s, some errRateLimitBytes)
  else (s, none)

/-! ## Sequences of calls -/

/-- A frame and the reading of the clock when `HandleFrame` takes it. -/
structure Arrival where
  frame : Frame
  now : ℕ
  pos : 0 < now

/-- A call: the frame, the window it was counted in and the answer. -/
structure Call where
  arrival : Arrival
  window : ℕ
  answer : Option Err

/-- The state of the limiter and the calls so far. -/
structure Log where
  state : RateLimitState := {}
  calls : List Call := []

/-- One more call. -/
def Log.check (c : RateLimitConfig) (l : Log) (a : Arrival) : Log :=
  let r := checkRateLimit c l.state a.frame a.now
  ⟨r.1, l.calls ++ [⟨a, r.1.windowStart, r.2⟩]⟩

/-- The calls for a sequence of frames, on a new session. -/
def checks (c : RateLimitConfig) (as : List Arrival) : Log := as.foldl (Log.check c) {}

/-- The weights of the calls that satisfy `p`: with the weight `1` their number. -/
def load (g : Call → ℕ) (p : Call → Prop) [DecidablePred p] (l : List Call) : ℕ :=
  ((l.filter p).map g).sum

/-- The number of calls that satisfy `p`. -/
abbrev frames (p : Call → Prop) [DecidablePred p] (l : List Call) : ℕ := load (fun _ => 1) p l

/-- The bytes of the calls that satisfy `p`. -/
abbrev bytes (p : Call → Prop) [DecidablePred p] (l : List Call) : ℕ :=
  load (fun x => size x.arrival.frame) p l

section Load

variable {g : Call → ℕ} {p q r : Call → Prop} [DecidablePred p] [DecidablePred q] [DecidablePred r]
  {l : List Call} {x : Call}

@[simp] theorem load_nil : load g p [] = 0 := rfl

@[simp] theorem load_concat : load g p (l ++ [x]) = load g p l + if p x then g x else 0 := by
  by_cases h : p x <;> simp [load, h]

theorem load_eq_zero (h : ∀ x ∈ l, ¬p x) : load g p l = 0 := by
  have : l.filter (fun x => decide (p x)) = [] := by simpa using h
  simp [load, this]

/-- Calls that satisfy `p` satisfy `q` or `r`. -/
theorem load_le_add (h : ∀ x ∈ l, p x → q x ∨ r x) : load g p l ≤ load g q l + load g r l := by
  induction l using List.reverseRecOn with
  | nil => simp
  | append_singleton l x ih =>
    have hl := ih fun y hy => h y (by simp [hy])
    have hx := h x (by simp)
    simp only [load_concat]
    split_ifs <;> first | omega | tauto

theorem load_mono (h : ∀ x ∈ l, p x → q x) : load g p l ≤ load g q l := by
  have hle := load_le_add (g := g) (r := fun _ => False) fun x hx hp => .inl (h x hx hp)
  rwa [load_eq_zero (p := fun _ => False) fun _ _ => id, Nat.add_zero] at hle

end Load

/-- The call was accepted. -/
abbrev Call.Accepted (x : Call) : Prop := x.answer = none

/-- The load of the window `w` within the calls `l` is within the limits. -/
def Within (c : RateLimitConfig) (l : List Call) (w : ℕ) : Prop :=
  (frames (·.window = w) l : ℤ) ≤ c.maxFramesPerSecond ∧
    bytes (·.window = w) l ≤ c.maxBytesPerSecond

/-- What the calls so far have in common: each falls into its window, windows start at least
    a second apart, the state counts all calls of its window, accepted or not, and what is
    accepted is within the limits. -/
structure Log.Counts (c : RateLimitConfig) (l : Log) : Prop where
  inside : ∀ x ∈ l.calls, x.window ≤ x.arrival.now ∧ x.arrival.now < x.window + second
  latest : ∀ x ∈ l.calls,
    x.window = l.state.windowStart ∨ x.window + second ≤ l.state.windowStart
  started : l.calls = [] ∧ l.state = {} ∨
    0 < l.state.windowStart ∧ ∃ x ∈ l.calls, x.arrival.now = l.state.windowStart
  apart : l.calls.Pairwise fun x y => x.window = y.window ∨ x.window + second ≤ y.window
  frames_eq : l.state.frames = frames (·.window = l.state.windowStart) l.calls
  bytes_eq : l.state.bytes = bytes (·.window = l.state.windowStart) l.calls
  accepted : ∀ w, (frames (fun x => x.Accepted ∧ x.window = w) l.calls : ℤ) ≤
      c.maxFramesPerSecond ∧
    bytes (fun x => x.Accepted ∧ x.window = w) l.calls ≤ c.maxBytesPerSecond
  charged : ∀ before x after, l.calls = before ++ x :: after →
    (x.Accepted ↔ Within c (before ++ [x]) x.window)

section

variable {c : RateLimitConfig} {l : Log} {a : Arrival} {s : RateLimitState} {f : Frame} {now : ℕ}

/-- The counters after a call, whatever the answer. -/
theorem checkRateLimit_fst : (checkRateLimit c s f now).1 =
    ⟨(s.window now).windowStart, (s.window now).frames + 1, (s.window now).bytes + size f⟩ := by
  simp only [checkRateLimit]
  split_ifs <;> rfl

theorem checkRateLimit_snd (hF : 0 < c.maxFramesPerSecond) (hB : 0 < c.maxBytesPerSecond)
    (s : RateLimitState) (f : Frame) (now : ℕ) :
    (checkRateLimit c s f now).2 = none ↔
      (((s.window now).frames + 1 : ℕ) : ℤ) ≤ c.maxFramesPerSecond ∧
        (s.window now).bytes + size f ≤ c.maxBytesPerSecond := by
  simp only [checkRateLimit, hF, hB, true_and]
  split_ifs with h h' <;> simp only [true_iff, false_iff] <;> omega

/-- The window a call is counted in: it is the last one or starts now, and its counters are
    those of the calls in it. -/
structure Log.Counted (l : Log) (now : ℕ) (w : RateLimitState) : Prop where
  pos : 0 < w.windowStart
  inside : w.windowStart ≤ now ∧ now < w.windowStart + second
  latest : ∀ x ∈ l.calls, x.window = w.windowStart ∨ x.window + second ≤ w.windowStart
  arrival : now = w.windowStart ∨ ∃ x ∈ l.calls, x.arrival.now = w.windowStart
  frames_eq : w.frames = frames (·.window = w.windowStart) l.calls
  bytes_eq : w.bytes = bytes (·.window = w.windowStart) l.calls

theorem Log.Counts.window (h : l.Counts c) (hpos : 0 < now) (hle : l.state.windowStart ≤ now) :
    l.Counted now (l.state.window now) := by
  by_cases hw : l.state.windowStart = 0 ∨ second ≤ now - l.state.windowStart
  · -- a new window: all calls so far were in earlier ones
    have hold : ∀ x ∈ l.calls, x.window + second ≤ now := by
      intro x hx
      rcases h.started with ⟨hnil, -⟩ | ⟨hstart, -⟩
      · simp [hnil] at hx
      · rcases h.latest x hx with hlast | hlast <;> omega
    have hne : ∀ x ∈ l.calls, ¬x.window = now := fun x hx heq => by
      have := hold x hx
      simp only [second, millisecond] at this
      omega
    rw [RateLimitState.window, if_pos hw]
    exact ⟨hpos, ⟨le_rfl, by simp [second, millisecond]⟩, fun x hx => .inr (hold x hx), .inl rfl,
      (load_eq_zero hne).symm, (load_eq_zero hne).symm⟩
  · rw [RateLimitState.window, if_neg hw]
    rcases h.started with ⟨-, hs⟩ | ⟨hstart, hfirst⟩
    · exact absurd (.inl (by simp [hs])) hw
    · exact ⟨hstart, by omega, h.latest, .inr hfirst, h.frames_eq, h.bytes_eq⟩

variable (hF : 0 < c.maxFramesPerSecond) (hB : 0 < c.maxBytesPerSecond)
include hF hB

theorem Log.Counts.check (h : l.Counts c) (hle : l.state.windowStart ≤ a.now) :
    (l.check c a).Counts c := by
  have hw := h.window a.pos hle
  have hyes := checkRateLimit_snd hF hB l.state a.frame a.now
  rw [hw.frames_eq, hw.bytes_eq] at hyes
  simp only [Log.check, checkRateLimit_fst]
  set w := l.state.window a.now
  set answer := (checkRateLimit c l.state a.frame a.now).2
  constructor
  case inside =>
    simp only [mem_append, mem_singleton]
    rintro x (hx | rfl)
    · exact h.inside x hx
    · exact hw.inside
  case latest =>
    simp only [mem_append, mem_singleton]
    rintro x (hx | rfl)
    · exact hw.latest x hx
    · exact .inl rfl
  case started =>
    refine .inr ⟨hw.pos, ?_⟩
    rcases hw.arrival with hnow | ⟨x, hx, hxn⟩
    · exact ⟨_, mem_concat_self, hnow⟩
    · exact ⟨x, mem_append_left _ hx, hxn⟩
  case apart =>
    simpa [pairwise_append] using ⟨h.apart, fun x hx => hw.latest x hx⟩
  case frames_eq => simp [hw.frames_eq]
  case bytes_eq => simp [hw.bytes_eq]
  case accepted =>
    intro v
    have hv := h.accepted v
    by_cases hnew : answer = none ∧ w.windowStart = v
    · -- what was accepted in the window is part of what was counted in it
      obtain ⟨hok, rfl⟩ := hnew
      have hlim := hyes.1 hok
      have hf := load_mono (g := fun _ => 1) (l := l.calls)
        (p := fun x => x.Accepted ∧ x.window = w.windowStart) (q := (·.window = w.windowStart))
        fun _ _ hx => hx.2
      have hb := load_mono (g := fun x => size x.arrival.frame) (l := l.calls)
        (p := fun x => x.Accepted ∧ x.window = w.windowStart) (q := (·.window = w.windowStart))
        fun _ _ hx => hx.2
      simp only [load_concat, Call.Accepted, hok, true_and, if_true, frames, bytes] at *
      omega
    · simpa [hnew] using hv
  case charged =>
    intro before x after hsplit
    rcases eq_nil_or_concat after with rfl | ⟨after, y, rfl⟩
    · obtain ⟨rfl, hx⟩ := append_inj' hsplit rfl
      obtain rfl := (List.cons.inj hx).1
      simpa [Within] using hyes
    · have : l.calls = before ++ x :: after := by
        rw [concat_eq_append, ← cons_append, ← append_assoc] at hsplit
        exact (append_inj' hsplit rfl).1
      exact h.charged before x after this

theorem counts_checks (as : List Arrival) (h : as.Pairwise (·.now ≤ ·.now)) :
    (checks c as).Counts c ∧ (checks c as).calls.map (·.arrival) = as := by
  induction as using List.reverseRecOn with
  | nil =>
    refine ⟨show Log.Counts c {} from ?_, rfl⟩
    constructor <;> simp [frames, bytes, hF.le]
  | append_singleton as a ih =>
    rw [pairwise_append] at h
    obtain ⟨hc, hmap⟩ := ih h.1
    have hstep : checks c (as ++ [a]) = (checks c as).check c a := by
      simp [checks, foldl_append]
    have hle : (checks c as).state.windowStart ≤ a.now := by
      rcases hc.started with ⟨-, hs⟩ | ⟨-, x, hx, hxn⟩
      · simp [hs]
      · rw [← hxn]
        exact h.2.2 x.arrival (hmap ▸ mem_map_of_mem hx) a (by simp)
    rw [hstep]
    exact ⟨hc.check hF hB hle, by simp [Log.check, hmap]⟩

omit hF hB in
/-- An interval of less than a second meets at most two windows. -/
theorem Log.Counts.two_windows (h : l.Counts c) {t u : ℕ} (hu : u < t + second) :
    ∃ v w, ∀ x ∈ l.calls, t ≤ x.arrival.now ∧ x.arrival.now ≤ u → x.window = v ∨ x.window = w := by
  let Apart (x y : Call) : Prop :=
    x.window = y.window ∨ x.window + second ≤ y.window ∨ y.window + second ≤ x.window
  have hapart : ∀ ⦃x⦄, x ∈ l.calls → ∀ ⦃y⦄, y ∈ l.calls → Apart x y := by
    refine List.Pairwise.forall_of_forall_of_flip (fun x _ => .inl rfl) (h.apart.imp ?_)
      (h.apart.imp ?_)
    all_goals
      intro x y hxy
      simp only [flip, Apart]
      omega
  by_contra hno
  push Not at hno
  -- three calls of the interval in three different windows
  obtain ⟨x, hx, hxt, -, -⟩ := hno 0 0
  obtain ⟨y, hy, hyt, hyx, -⟩ := hno x.window x.window
  obtain ⟨z, hz, hzt, hzx, hzy⟩ := hno x.window y.window
  have hxi := h.inside x hx
  have hyi := h.inside y hy
  have hzi := h.inside z hz
  have hxy := hapart hx hy
  have hxz := hapart hx hz
  have hyz := hapart hy hz
  simp only [Apart] at hxy hxz hyz
  omega

end

/-- For any configuration with positive limits and any sequence of frames arriving at
    nondecreasing times: every call falls into a window of a second, and windows start at
    least a second apart; a frame is accepted exactly if all frames of its window so far, the
    rejected ones and itself included, are within the limits; the frames accepted are within
    the limits in each window, and within twice the limits in any interval of less than a
    second. -/
theorem checkRateLimit_bounded (c : RateLimitConfig) (hF : 0 < c.maxFramesPerSecond)
    (hB : 0 < c.maxBytesPerSecond) (as : List Arrival) (has : as.Pairwise (·.now ≤ ·.now)) :
    let calls := (checks c as).calls
    calls.map (·.arrival) = as ∧
    (∀ x ∈ calls, x.window ≤ x.arrival.now ∧ x.arrival.now < x.window + second) ∧
    calls.Pairwise (fun x y => x.window = y.window ∨ x.window + second ≤ y.window) ∧
    (∀ before x after, calls = before ++ x :: after →
      (x.Accepted ↔
        (frames (·.window = x.window) (before ++ [x]) : ℤ) ≤ c.maxFramesPerSecond ∧
          bytes (·.window = x.window) (before ++ [x]) ≤ c.maxBytesPerSecond)) ∧
    (∀ w, (frames (fun x => x.Accepted ∧ x.window = w) calls : ℤ) ≤ c.maxFramesPerSecond ∧
      bytes (fun x => x.Accepted ∧ x.window = w) calls ≤ c.maxBytesPerSecond) ∧
    ∀ t u, u < t + second →
      (frames (fun x => x.Accepted ∧ t ≤ x.arrival.now ∧ x.arrival.now ≤ u) calls : ℤ) ≤
          2 * c.maxFramesPerSecond ∧
        bytes (fun x => x.Accepted ∧ t ≤ x.arrival.now ∧ x.arrival.now ≤ u) calls ≤
          2 * c.maxBytesPerSecond := by
  intro calls
  obtain ⟨hc, hmap⟩ := counts_checks hF hB as has
  refine ⟨hmap, hc.inside, hc.apart, hc.charged, hc.accepted, fun t u hu => ?_⟩
  obtain ⟨v, w, hvw⟩ := hc.two_windows hu
  have hcover : ∀ x ∈ calls, x.Accepted ∧ t ≤ x.arrival.now ∧ x.arrival.now ≤ u →
      (x.Accepted ∧ x.window = v) ∨ (x.Accepted ∧ x.window = w) :=
    fun x hx hin => (hvw x hx hin.2).imp (⟨hin.1, ·⟩) (⟨hin.1, ·⟩)
  have hf := load_le_add (g := fun _ => 1) hcover
  have hb := load_le_add (g := fun x => size x.arrival.frame) hcover
  have hv := hc.accepted v
  have hw := hc.accepted w
  simp only [frames, bytes, calls] at hf hb hv hw ⊢
  constructor <;> omega

/-- Three frames within a limit of two: the third is refused and counted, and a fourth one a
    second later is accepted. -/
theorem checkRateLimit_bounded_burst :
    let c : RateLimitConfig := ⟨2, 1000⟩
    let f : Frame := { header := { frameType := .ping } }
    let as : List Arrival := [⟨f, 5, by decide⟩, ⟨f, 5, by decide⟩, ⟨f, 7, by decide⟩,
      ⟨f, 5 + second, by decide⟩]
    (checks c as).calls.map (·.answer) = [none, none, some errRateLimitFrames, none] ∧
      ∀ w, (frames (fun x => x.Accepted ∧ x.window = w) (checks c as).calls : ℤ) ≤ 2 :=
  ⟨by decide, fun w => ((checkRateLimit_bounded ⟨2, 1000⟩ (by decide) (by decide) _
    (by simp [second, millisecond])).2.2.2.2.1 w).1⟩

end Etp.RateLimit
