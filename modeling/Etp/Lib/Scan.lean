import Etp.Lib.Octets

/-!
# Scans

A *scan* is a program that reads a string of octets by positions, as a language
with checked slices runs it: a slice that is not within the string stops the
program with a panic. Besides its outcome a scan has its turns, the positions at
which its loops have started their turns.

* A scan that does not panic has the outcome of a computation in `Except` (`ofExcept`): the rules
  `ofExcept_ok_bind` and `slice_eq` compute with it.
* `Counted l n lo ts` says that `ts` are turns of the loop `l` only, at most `n`
  of them, at positions that increase strictly from `lo` on.
-/

namespace Octets

/-- A program that reads octets. Without an outcome it has panicked. -/
structure Scan (L ε α : Type) where
  turns : List (L × ℕ)
  outcome : Option (Except ε α)

namespace Scan

variable {L ε α β : Type}

/-- The scan that returns, or fails, without a turn. -/
def ofExcept (r : Except ε α) : Scan L ε α := ⟨[], some r⟩

def bind (x : Scan L ε α) (f : α → Scan L ε β) : Scan L ε β :=
  match x.outcome with
  | none => ⟨x.turns, none⟩
  | some (.error e) => ⟨x.turns, some (.error e)⟩
  | some (.ok a) => ⟨x.turns ++ (f a).turns, (f a).outcome⟩

instance : Monad (Scan L ε) where
  pure a := ofExcept (.ok a)
  bind := bind

def fail (e : ε) : Scan L ε α := ofExcept (.error e)

/-- The loop `l` starts a turn at the position `pos`. -/
def turn (l : L) (pos : ℕ) : Scan L ε Unit := ⟨[(l, pos)], some (.ok ())⟩

/-- The octets from `a` up to `b`, which have to be within the string. -/
def slice (l : Str) (a b : ℕ) : Scan L ε Str :=
  ⟨[], if a ≤ b ∧ b ≤ l.length then some (.ok (Octets.slice l a b)) else none⟩

theorem pure_eq (a : α) : (pure a : Scan L ε α) = ofExcept (.ok a) := rfl

@[simp] theorem ofExcept_ok_bind (a : α) (f : α → Scan L ε β) :
    (ofExcept (.ok a) >>= f) = f a := rfl

@[simp] theorem pure_bind (a : α) (f : α → Scan L ε β) : (pure a >>= f) = f a := rfl

theorem slice_eq {l : Str} {a b : ℕ} (hab : a ≤ b) (hb : b ≤ l.length) :
    (slice l a b : Scan L ε Str) = ofExcept (.ok (Octets.slice l a b)) := by
  rw [slice, if_pos ⟨hab, hb⟩, ofExcept]

/-- A scan that returns is followed by the rest of the program. -/
theorem bind_of_ok {x : Scan L ε α} {a : α} (h : x.outcome = some (.ok a)) (f : α → Scan L ε β) :
    (x >>= f) = ⟨x.turns ++ (f a).turns, (f a).outcome⟩ := by
  show bind x f = _
  simp only [bind, h]

/-- A scan that fails is the end of the program. -/
theorem bind_of_error {x : Scan L ε α} {e : ε} (h : x.outcome = some (.error e))
    (f : α → Scan L ε β) : (x >>= f) = ⟨x.turns, some (.error e)⟩ := by
  show bind x f = _
  simp only [bind, h]

/-! ## Turns -/

/-- The positions of the turns of the loop `l`. -/
def positions [DecidableEq L] (l : L) (ts : List (L × ℕ)) : List ℕ :=
  (ts.filter fun t => t.1 = l).map Prod.snd

/-- Turns of the loop `l`, at most `n`, at positions that increase from `lo` on. -/
def Counted (l : L) (n lo : ℕ) (ts : List (L × ℕ)) : Prop :=
  ∃ ps : List ℕ, ts = ps.map (Prod.mk l) ∧ ps.length ≤ n ∧ ps.Pairwise (· < ·) ∧ ∀ p ∈ ps, lo ≤ p

theorem counted_nil (l : L) (n lo : ℕ) : Counted l n lo [] :=
  ⟨[], rfl, Nat.zero_le n, .nil, by simp⟩

/-- One more turn before the others. -/
theorem Counted.cons {l : L} {n lo pos : ℕ} {ts : List (L × ℕ)} (h : Counted l n pos ts)
    (hpos : lo < pos) : Counted l (n + 1) lo ((l, lo) :: ts) := by
  obtain ⟨ps, rfl, hlen, hps, hlo⟩ := h
  refine ⟨lo :: ps, rfl, by simpa using hlen, ?_, ?_⟩
  · exact List.pairwise_cons.mpr ⟨fun p hp => lt_of_lt_of_le hpos (hlo p hp), hps⟩
  · intro p hp
    rcases List.mem_cons.mp hp with rfl | hp
    · exact le_rfl
    · exact hpos.le.trans (hlo p hp)

variable {ts : List (L × ℕ)}

theorem Counted.mono {l : L} {n m lo : ℕ} (h : Counted l n lo ts) (hm : n ≤ m) :
    Counted l m lo ts := by
  obtain ⟨ps, hts, hlen, hps⟩ := h
  exact ⟨ps, hts, hlen.trans hm, hps⟩

section Positions

variable [DecidableEq L]

theorem positions_append (l : L) (ts us : List (L × ℕ)) :
    positions l (ts ++ us) = positions l ts ++ positions l us := by
  rw [positions, List.filter_append, List.map_append, positions, positions]

theorem Counted.positions_same {l : L} {n lo : ℕ} (h : Counted l n lo ts) :
    (positions l ts).length ≤ n ∧ (positions l ts).Pairwise (· < ·) := by
  obtain ⟨ps, rfl, hlen, hps, -⟩ := h
  have heq : positions l (ps.map (Prod.mk l)) = ps := by
    simp [positions, List.filter_map, Function.comp_def]
  rw [heq]
  exact ⟨hlen, hps⟩

theorem Counted.positions_ne {l l' : L} {n lo : ℕ} (h : Counted l n lo ts) (hne : l ≠ l') :
    positions l' ts = [] := by
  obtain ⟨ps, rfl, -⟩ := h
  simp [positions, List.filter_map, Function.comp_def, hne]

end Positions

end Scan

end Octets
