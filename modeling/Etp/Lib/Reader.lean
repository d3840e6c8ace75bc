import Mathlib.Data.List.Basic

/-!
# Readers

A *reader* delivers a list of elements call by call, in pieces of its own choice,
and then an error. A call asks for at most `size` elements and may return fewer,
also none, without an error; the error at the end may come alone or with the last
elements.

`readFull` calls a reader until it has `size` elements. Whatever the pieces, it
returns the next `size` elements, or an error where there are fewer
(`readFull_ok`, `readFull_error`).
-/

namespace Reader

open List

/-- A reader: what it has still to deliver, how much the next calls return at most (the calls after
    those return all they are asked for), whether the error comes with the last elements, and that
    error. -/
structure Source (α ε : Type) where
  rest : List α
  splits : List ℕ := []
  eager : Bool := false
  stop : ε

variable {α ε : Type}

/-- A call of the reader. -/
def read (r : Source α ε) (size : ℕ) : List α × Option ε × Source α ε :=
  match r.rest with
  | [] => ([], some r.stop, r)
  | _ :: _ =>
    let n := min size (r.splits.headD size)
    let rest := r.rest.drop n
    (r.rest.take n, if r.eager && rest.isEmpty then some r.stop else none,
      { r with rest := rest, splits := r.splits.tail })

/-- What a call does: the elements are the next ones, and an error comes only at the end. -/
theorem read_spec (r : Source α ε) (size : ℕ) :
    (read r size).1.length ≤ size ∧ r.rest = (read r size).1 ++ (read r size).2.2.rest ∧
      (read r size).2.2.stop = r.stop ∧
      ∀ e, (read r size).2.1 = some e → e = r.stop ∧ (read r size).2.2.rest = [] := by
  cases hrest : r.rest with
  | nil =>
    simp only [read, hrest]
    exact ⟨Nat.zero_le _, rfl, trivial, fun e he => ⟨(Option.some.inj he).symm, trivial⟩⟩
  | cons a l =>
    simp only [read, hrest]
    refine ⟨?_, (take_append_drop _ _).symm, trivial, ?_⟩
    · rw [length_take]
      omega
    · intro e he
      split_ifs at he with hend
      simp only [Bool.and_eq_true, List.isEmpty_iff] at hend
      exact ⟨(Option.some.inj he).symm, hend.2⟩

/-- A call without an error makes progress: it was one of the given pieces, or it returned some
    elements. -/
theorem read_progress (r : Source α ε) {size : ℕ} (hpos : 0 < size)
    (h : (read r size).2.1 = none) :
    (read r size).2.2.splits.length + (size - (read r size).1.length) <
      r.splits.length + size := by
  cases hrest : r.rest with
  | nil =>
    rw [read, hrest] at h
    cases h
  | cons a l =>
    simp only [read, hrest]
    cases r.splits with
    | nil =>
      have hlen : 0 < ((a :: l).take size).length := by
        rw [length_take, length_cons]
        omega
      simp only [headD_nil, tail_nil, Nat.min_self]
      omega
    | cons n ns =>
      simp only [tail_cons, length_cons]
      omega

/-- Calls until there are `size` elements or an error. -/
def readLoop (r : Source α ε) (size : ℕ) (got : List α) : List α × Option ε × Source α ε :=
  if size ≤ got.length then (got, none, r)
  else
    -- the equation is for the termination
    match _hread : read r (size - got.length) with
    | (p, some e, r') => (got ++ p, if size ≤ (got ++ p).length then none else some e, r')
    | (p, none, r') => readLoop r' size (got ++ p)
termination_by r.splits.length + (size - got.length)
decreasing_by
  have hprogress := @read_progress _ _ r (size - got.length) (by omega) (by rw [_hread])
  rw [_hread] at hprogress
  simp only [length_append] at hprogress ⊢
  omega

/-- Reads `size` elements. -/
def readFull (r : Source α ε) (size : ℕ) : List α × Option ε × Source α ε := readLoop r size []

/-- The loop returns what was got before and the next elements, as many as are missing. -/
theorem readLoop_spec (r : Source α ε) (size : ℕ) (got : List α) (hgot : got.length ≤ size) :
    (size ≤ got.length + r.rest.length →
      ∃ r', readLoop r size got = (got ++ r.rest.take (size - got.length), none, r') ∧
        r'.rest = r.rest.drop (size - got.length)) ∧
    (got.length + r.rest.length < size →
      ∃ r', readLoop r size got = (got ++ r.rest, some r.stop, r')) := by
  induction r, got using readLoop.induct size with
  | case1 r got hfull =>
    have hzero : size - got.length = 0 := by omega
    rw [readLoop, if_pos hfull, hzero]
    exact ⟨fun _ => ⟨r, by simp, rfl⟩, fun h => by omega⟩
  | case2 r got hmore p e r' hread =>
    obtain ⟨hp, hrest, -, herr⟩ := read_spec r (size - got.length)
    rw [hread] at hp hrest herr
    -- the error comes with the last elements
    obtain ⟨rfl, hend⟩ := herr e rfl
    have hall : r.rest = p := by
      dsimp only at hrest hend
      rw [hrest, hend, append_nil]
    dsimp only at hp hend
    rw [readLoop, if_neg hmore, hread, hall]
    dsimp only
    rw [length_append]
    constructor
    · intro henough
      rw [if_pos henough, take_of_length_le (by omega), drop_eq_nil_of_le (by omega)]
      exact ⟨r', rfl, hend⟩
    · intro hfew
      rw [if_neg (by omega)]
      exact ⟨r', rfl⟩
  | case3 r got hmore p r' hread ih =>
    obtain ⟨hp, hrest, hstop, -⟩ := read_spec r (size - got.length)
    rw [hread] at hp hrest hstop
    dsimp only at hp hrest hstop
    obtain ⟨hok, herr⟩ := ih (by rw [length_append]; omega)
    rw [readLoop, if_neg hmore, hread, hrest]
    dsimp only
    rw [length_append] at hok herr ⊢
    constructor
    · intro henough
      obtain ⟨r'', hloop, hr''⟩ := hok (by omega)
      refine ⟨r'', ?_, ?_⟩
      · rw [hloop, take_append, take_of_length_le hp, append_assoc,
          Nat.sub_add_eq]
      · rw [hr'', drop_append, drop_eq_nil_of_le hp, nil_append, Nat.sub_add_eq]
    · intro hfew
      obtain ⟨r'', hloop⟩ := herr (by omega)
      exact ⟨r'', by rw [hloop, hstop, append_assoc]⟩

theorem readFull_ok {r : Source α ε} {size : ℕ} (h : size ≤ r.rest.length) :
    ∃ r', readFull r size = (r.rest.take size, none, r') ∧ r'.rest = r.rest.drop size := by
  have hspec := (readLoop_spec r size [] (Nat.zero_le size)).1 (by simpa using h)
  simpa [readFull] using hspec

theorem readFull_error {r : Source α ε} {size : ℕ} (h : r.rest.length < size) :
    ∃ r', readFull r size = (r.rest, some r.stop, r') := by
  have hspec := (readLoop_spec r size [] (Nat.zero_le size)).2 (by simpa using h)
  simpa [readFull] using hspec

end Reader
