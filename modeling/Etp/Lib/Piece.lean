import Mathlib.Data.List.Basic

/-!
# A list cut into pieces

`piece c l k` is the `k`-th piece of the list `l` cut into pieces of length `c`,
of which the last may be shorter. The first `n` pieces are the first `n * c`
elements (`flatten_pieces`), so that they are the whole list once `n * c` is at
least its length.
-/

namespace Piece

open List

variable {α : Type*} {c : ℕ} {l : List α} {k n : ℕ}

/-- The `k`-th piece. -/
def piece (c : ℕ) (l : List α) (k : ℕ) : List α := (l.drop (k * c)).take c

/-- The first `n` pieces. -/
def pieces (c : ℕ) (l : List α) (n : ℕ) : List (List α) := (List.range n).map (piece c l)

theorem length_piece : (piece c l k).length = min c (l.length - k * c) := by
  rw [piece, length_take, length_drop]

/-- All pieces but the last are full. -/
theorem length_piece_full (h : (k + 1) * c ≤ l.length) : (piece c l k).length = c := by
  rw [length_piece, Nat.add_mul, Nat.one_mul] at *
  omega

@[simp] theorem pieces_zero : pieces c l 0 = [] := rfl

theorem pieces_succ : pieces c l (n + 1) = pieces c l n ++ [piece c l n] := by
  simp [pieces, range_succ]

theorem take_succ_mul : l.take ((k + 1) * c) = l.take (k * c) ++ piece c l k := by
  rw [Nat.add_mul, Nat.one_mul, piece, take_add]

/-- The first pieces are the first elements. -/
theorem flatten_pieces : (pieces c l n).flatten = l.take (n * c) := by
  induction n with
  | zero => simp
  | succ n ih => rw [pieces_succ, flatten_append, ih, take_succ_mul, flatten_singleton]

theorem flatten_pieces_all (h : l.length ≤ n * c) : (pieces c l n).flatten = l := by
  rw [flatten_pieces, take_of_length_le h]

/-- The pieces from `k` on are the elements from there on. -/
theorem flatten_pieces_from :
    ((List.range' k n).map (piece c l)).flatten = (l.take ((k + n) * c)).drop (k * c) := by
  induction n with
  | zero => simp
  | succ n ih =>
    rw [List.range'_1_concat, map_append, flatten_append, ih, ← Nat.add_assoc,
      take_succ_mul, map_singleton, flatten_singleton]
    by_cases h : k * c ≤ (l.take ((k + n) * c)).length
    · rw [drop_append_of_le_length h]
    · -- the list ends before
      have hlen : l.length < k * c := by
        have := Nat.mul_le_mul_right c (Nat.le_add_right k n)
        rw [length_take] at h
        omega
      have hnil : piece c l (k + n) = [] := by
        have := Nat.mul_le_mul_right c (Nat.le_add_right k n)
        rw [piece, drop_eq_nil_of_le (by omega), take_nil]
      rw [hnil, append_nil, append_nil]

/-- How much of the list the first `n` pieces are. -/
def offset (c total n : ℕ) : ℕ := min (n * c) total

@[simp] theorem offset_zero {total : ℕ} : offset c total 0 = 0 := by simp [offset]

theorem offset_succ : offset c l.length (k + 1) = offset c l.length k + (piece c l k).length := by
  rw [length_piece, offset, offset, Nat.add_mul, Nat.one_mul]
  omega

theorem offset_mono {total m : ℕ} (h : m ≤ n) : offset c total m ≤ offset c total n := by
  have := Nat.mul_le_mul_right c h
  rw [offset, offset]
  omega

theorem offset_le {total : ℕ} : offset c total n ≤ total := Nat.min_le_right _ _

/-- Different numbers of pieces are different lengths, up to the last piece. -/
theorem offset_lt {total m : ℕ} (hc : 0 < c) (h : m < n) (hm : m * c < total) :
    offset c total m < offset c total n := by
  have := Nat.mul_lt_mul_of_pos_right h hc
  rw [offset, offset]
  omega

end Piece
