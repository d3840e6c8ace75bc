import Mathlib.Data.List.Induction
import Mathlib.Algebra.Order.Ring.Nat

/-!
# Octet strings

Numbers in big-endian order, buffers that are written at positions, and
buffers that are read at positions.

* `be w n` is the number `n` in `w` octets and `ofBe` reads it back; both
  directions are inverse within the width (`ofBe_be`, `be_ofBe`).
* `fill buf ws` performs the writes `ws` over `buf`, one after another. Writes
  at ascending positions leave a concatenation (`fill_eq_lay`).
* `slice buf a b` are the octets from `a` up to `b`. A slice of a concatenation is found by
  `slice_append_right` and `slice_append_left`, and adjacent slices join (`slice_append_slice`).
* `At l pos x` says that `x` stands in `l` at the position `pos`.
-/

namespace Octets

open List

/-- An octet string. -/
abbrev Str := List UInt8

/-! ## Big-endian numbers -/

/-- The number `n` in `w` octets, the most significant first; what does not fit is cut off. -/
def be : ℕ → ℕ → Str
  | 0, _ => []
  | w + 1, n => be w (n / 256) ++ [UInt8.ofNat n]

/-- The number that an octet string spells. -/
def ofBe (l : Str) : ℕ :=
  l.foldl (fun n b => 256 * n + b.toNat) 0

@[simp] theorem length_be (w n : ℕ) : (be w n).length = w := by
  induction w generalizing n with
  | zero => rfl
  | succ w ih => simp [be, ih]

@[simp] theorem ofBe_nil : ofBe [] = 0 :=
  rfl

theorem ofBe_concat (l : Str) (b : UInt8) : ofBe (l ++ [b]) = 256 * ofBe l + b.toNat := by
  simp [ofBe]

theorem ofBe_lt (l : Str) : ofBe l < 256 ^ l.length := by
  induction l using List.reverseRecOn with
  | nil => simp
  | append_singleton l b ih =>
    have hb := b.toNat_lt
    rw [ofBe_concat, length_append, length_singleton, pow_succ]
    omega

theorem ofBe_be {w n : ℕ} (h : n < 256 ^ w) : ofBe (be w n) = n := by
  induction w generalizing n with
  | zero => simp only [pow_zero, Nat.lt_one_iff] at h; simp [be, h]
  | succ w ih =>
    rw [pow_succ] at h
    rw [be, ofBe_concat, ih (by omega), UInt8.toNat_ofNat']
    omega

theorem be_ofBe (l : Str) : be l.length (ofBe l) = l := by
  induction l using List.reverseRecOn with
  | nil => rfl
  | append_singleton l b ih =>
    have hb := b.toNat_lt
    have hdiv : (256 * ofBe l + b.toNat) / 256 = ofBe l := by omega
    have hlow : UInt8.ofNat (256 * ofBe l + b.toNat) = b := by
      apply UInt8.toNat_inj.mp
      rw [UInt8.toNat_ofNat']
      omega
    rw [length_append, length_singleton, be, ofBe_concat, hdiv, hlow, ih]

/-! ## Words

`be8` to `be64` spell the machine words, `uint8` to `uint64` read them.
-/

def be8 (v : UInt8) : Str := be 1 v.toNat
def be16 (v : UInt16) : Str := be 2 v.toNat
def be32 (v : UInt32) : Str := be 4 v.toNat
def be64 (v : UInt64) : Str := be 8 v.toNat

def uint8 (l : Str) : UInt8 := UInt8.ofNat (ofBe l)
def uint16 (l : Str) : UInt16 := UInt16.ofNat (ofBe l)
def uint32 (l : Str) : UInt32 := UInt32.ofNat (ofBe l)
def uint64 (l : Str) : UInt64 := UInt64.ofNat (ofBe l)

@[simp] theorem length_be8 (v : UInt8) : (be8 v).length = 1 := length_be 1 _
@[simp] theorem length_be16 (v : UInt16) : (be16 v).length = 2 := length_be 2 _
@[simp] theorem length_be32 (v : UInt32) : (be32 v).length = 4 := length_be 4 _
@[simp] theorem length_be64 (v : UInt64) : (be64 v).length = 8 := length_be 8 _

@[simp] theorem uint8_be8 (v : UInt8) : uint8 (be8 v) = v := by
  rw [uint8, be8, ofBe_be v.toNat_lt, UInt8.ofNat_toNat]

@[simp] theorem uint16_be16 (v : UInt16) : uint16 (be16 v) = v := by
  rw [uint16, be16, ofBe_be v.toNat_lt, UInt16.ofNat_toNat]

@[simp] theorem uint32_be32 (v : UInt32) : uint32 (be32 v) = v := by
  rw [uint32, be32, ofBe_be v.toNat_lt, UInt32.ofNat_toNat]

@[simp] theorem uint64_be64 (v : UInt64) : uint64 (be64 v) = v := by
  rw [uint64, be64, ofBe_be v.toNat_lt, UInt64.ofNat_toNat]

variable {l : Str}

theorem be8_uint8 (h : l.length = 1) : be8 (uint8 l) = l := by
  have hlt : ofBe l < 2 ^ 8 := by have := ofBe_lt l; rwa [h] at this
  rw [be8, uint8, UInt8.toNat_ofNat_of_lt' hlt, ← h, be_ofBe]

theorem be16_uint16 (h : l.length = 2) : be16 (uint16 l) = l := by
  have hlt : ofBe l < 2 ^ 16 := by have := ofBe_lt l; rwa [h] at this
  rw [be16, uint16, UInt16.toNat_ofNat_of_lt' hlt, ← h, be_ofBe]

theorem be32_uint32 (h : l.length = 4) : be32 (uint32 l) = l := by
  have hlt : ofBe l < 2 ^ 32 := by have := ofBe_lt l; rwa [h] at this
  rw [be32, uint32, UInt32.toNat_ofNat_of_lt' hlt, ← h, be_ofBe]

theorem be64_uint64 (h : l.length = 8) : be64 (uint64 l) = l := by
  have hlt : ofBe l < 2 ^ 64 := by have := ofBe_lt l; rwa [h] at this
  rw [be64, uint64, UInt64.toNat_ofNat_of_lt' hlt, ← h, be_ofBe]

/-! ## Writes -/

/-- The buffer of `size` octets that an encoder or a reader fills: a new one, or the front of
    `dst`, the memory that it may use. -/
def buffer (dst : Str) (size : ℕ) : Str :=
  if dst.length < size then replicate size 0 else dst.take size

@[simp] theorem length_buffer (dst : Str) (size : ℕ) : (buffer dst size).length = size := by
  rw [buffer]
  split
  · exact length_replicate
  · rw [length_take]; omega

/-- The octets `x` written over `buf` from the position `pos` on. -/
def put (buf : Str) (pos : ℕ) (x : Str) : Str :=
  buf.take pos ++ x ++ buf.drop (pos + x.length)

/-- The writes `ws`, each a position and what is written there, over `buf`. -/
def fill (buf : Str) (ws : List (ℕ × Str)) : Str :=
  ws.foldl (fun b w => put b w.1 w.2) buf

variable {ws : List (ℕ × Str)}

theorem length_fill_le {n : ℕ} {buf : Str} (hbuf : buf.length ≤ n)
    (hws : ∀ w ∈ ws, w.1 + w.2.length ≤ n) : (fill buf ws).length ≤ n := by
  induction ws generalizing buf with
  | nil => exact hbuf
  | cons w ws ih =>
    refine ih ?_ fun w' hw' => hws w' (mem_cons_of_mem w hw')
    have hw := hws w mem_cons_self
    simp only [put, length_append, length_take, length_drop]
    omega

/-- The writes go upwards from the position `p`, do not meet, and stay below `n`. -/
def Ascending (n : ℕ) : ℕ → List (ℕ × Str) → Prop
  | p, [] => p ≤ n
  | p, w :: ws => p ≤ w.1 ∧ w.1 ≤ n ∧ Ascending n (w.1 + w.2.length) ws

/-- What ascending writes leave of `rest`, the part of a buffer from the position `p` on: the octets
    written, and between them what was there. -/
def lay : ℕ → Str → List (ℕ × Str) → Str
  | _, rest, [] => rest
  | p, rest, w :: ws =>
    rest.take (w.1 - p) ++ (w.2 ++ lay (w.1 + w.2.length) (rest.drop (w.1 - p + w.2.length)) ws)

theorem put_append {pre rest : Str} {pos : ℕ} (h : pre.length ≤ pos) (x : Str) :
    put (pre ++ rest) pos x =
      pre ++ rest.take (pos - pre.length) ++ x ++ rest.drop (pos - pre.length + x.length) := by
  have hdrop : pos + x.length - pre.length = pos - pre.length + x.length := by omega
  rw [put, take_append, take_of_length_le h, drop_append,
    drop_of_length_le (by omega), nil_append, hdrop]

theorem fill_append (pre rest : Str) (h : Ascending (pre ++ rest).length pre.length ws) :
    fill (pre ++ rest) ws = pre ++ lay pre.length rest ws := by
  -- the part before the next write is final and joins `pre`
  induction ws generalizing pre rest with
  | nil => rfl
  | cons w ws ih =>
    obtain ⟨hle, hin, hws⟩ := h
    rw [length_append] at hin
    have hpre : (pre ++ rest.take (w.1 - pre.length) ++ w.2).length = w.1 + w.2.length := by
      simp only [length_append, length_take]
      omega
    have hlen : (pre ++ rest.take (w.1 - pre.length) ++ w.2 ++
        rest.drop (w.1 - pre.length + w.2.length)).length = (pre ++ rest).length := by
      have hend : w.1 + w.2.length ≤ (pre ++ rest).length := by
        cases ws with
        | nil => exact hws
        | cons v vs => exact hws.1.trans hws.2.1
      rw [length_append] at hend
      simp only [length_append, length_take, length_drop]
      omega
    have hnext := ih (pre ++ rest.take (w.1 - pre.length) ++ w.2)
      (rest.drop (w.1 - pre.length + w.2.length)) (by rw [hlen, hpre]; exact hws)
    rw [hpre] at hnext
    show fill (put (pre ++ rest) w.1 w.2) ws = _
    rw [put_append hle, hnext, lay]
    simp only [append_assoc]

/-- Ascending writes over a buffer leave the octets written with the old ones between them. -/
theorem fill_eq_lay {buf : Str} (h : Ascending buf.length 0 ws) : fill buf ws = lay 0 buf ws :=
  fill_append [] buf h

/-- The writes follow each other from the position `p` on without a gap. -/
def Gapless : ℕ → List (ℕ × Str) → Prop
  | _, [] => True
  | p, w :: ws => w.1 = p ∧ Gapless (p + w.2.length) ws

theorem Gapless.of_eq {p q : ℕ} (h : Gapless p ws) (hq : q = p) : Gapless q ws :=
  hq ▸ h

theorem gapless_append {p : ℕ} {ws vs : List (ℕ × Str)} :
    Gapless p (ws ++ vs) ↔ Gapless p ws ∧ Gapless (p + (ws.flatMap Prod.snd).length) vs := by
  induction ws generalizing p with
  | nil => simp [Gapless]
  | cons w ws ih =>
    rw [cons_append, Gapless, Gapless, ih, and_assoc, flatMap_cons, length_append,
      Nat.add_assoc]

theorem Gapless.ascending {n p : ℕ} (h : Gapless p ws) (hn : p + (ws.flatMap Prod.snd).length ≤ n) :
    Ascending n p ws := by
  induction ws generalizing p with
  | nil => simpa [Ascending] using hn
  | cons w ws ih =>
    obtain ⟨hw, hws⟩ := h
    rw [flatMap_cons, length_append] at hn
    refine ⟨hw.ge, by omega, ?_⟩
    rw [hw]
    exact ih hws (by omega)

theorem Gapless.lay_eq {p : ℕ} {rest : Str} (h : Gapless p ws) :
    lay p rest ws = ws.flatMap Prod.snd ++ rest.drop (ws.flatMap Prod.snd).length := by
  induction ws generalizing p rest with
  | nil => rfl
  | cons w ws ih =>
    obtain ⟨rfl, hws⟩ := h
    rw [lay, ih hws, Nat.sub_self, take_zero, flatMap_cons, length_append,
      drop_drop, Nat.zero_add, nil_append, append_assoc]

/-- Writes without a gap that cover the buffer leave nothing of what it held. -/
theorem fill_gapless {buf : Str} (h : Gapless 0 ws)
    (hlen : buf.length = (ws.flatMap Prod.snd).length) : fill buf ws = ws.flatMap Prod.snd := by
  have hasc : Ascending buf.length 0 ws := h.ascending (by omega)
  rw [fill_eq_lay hasc, h.lay_eq, drop_of_length_le hlen.le, append_nil]

/-! ## Slices -/

/-- The octets from `a` up to `b`. -/
def slice (l : Str) (a b : ℕ) : Str :=
  (l.take b).drop a

variable {a b : ℕ}

theorem length_slice (h : b ≤ l.length) : (slice l a b).length = b - a := by
  rw [slice, length_drop, length_take, Nat.min_eq_left h]

@[simp] theorem be8_slice (h : b ≤ l.length) (hab : b = a + 1) :
    be8 (uint8 (slice l a b)) = slice l a b :=
  be8_uint8 (by rw [length_slice h]; omega)

@[simp] theorem be16_slice (h : b ≤ l.length) (hab : b = a + 2) :
    be16 (uint16 (slice l a b)) = slice l a b :=
  be16_uint16 (by rw [length_slice h]; omega)

@[simp] theorem be32_slice (h : b ≤ l.length) (hab : b = a + 4) :
    be32 (uint32 (slice l a b)) = slice l a b :=
  be32_uint32 (by rw [length_slice h]; omega)

@[simp] theorem be64_slice (h : b ≤ l.length) (hab : b = a + 8) :
    be64 (uint64 (slice l a b)) = slice l a b :=
  be64_uint64 (by rw [length_slice h]; omega)

@[simp] theorem slice_append_right {x l : Str} (h : x.length ≤ a) :
    slice (x ++ l) a b = slice l (a - x.length) (b - x.length) := by
  rcases Nat.lt_or_ge b x.length with hb | hb
  · have hz : b - x.length = 0 := by omega
    rw [slice, slice, hz, take_append, hz, take_zero, append_nil, drop_nil]
    exact drop_of_length_le (by rw [length_take]; omega)
  · rw [slice, slice, take_append, take_of_length_le hb, drop_append,
      drop_of_length_le h, nil_append]

@[simp] theorem slice_append_left {x l : Str} {b : ℕ} (h : b = x.length) :
    slice (x ++ l) 0 b = x := by
  rw [slice, drop_zero, h, take_left]

@[simp] theorem slice_self {x : Str} {b : ℕ} (h : x.length ≤ b) : slice x 0 b = x := by
  rw [slice, drop_zero, take_of_length_le h]

/-- The part of a concatenation that starts at `a` and ends at `b`. -/
theorem slice_mid {pre x post : Str} (ha : a = pre.length) (hb : b = a + x.length) :
    slice (pre ++ (x ++ post)) a b = x := by
  subst ha
  rw [slice_append_right le_rfl, Nat.sub_self, slice_append_left (by omega)]

@[simp] theorem slice_append_slice {a b c : ℕ} (hab : a ≤ b) (hbc : b ≤ c) :
    slice l a b ++ slice l b c = slice l a c := by
  have hb : slice l a b = (l.drop a).take (b - a) := by rw [slice, drop_take]
  have hc : slice l a c = (l.drop a).take (c - a) := by rw [slice, drop_take]
  have hd : slice l b c = ((l.drop a).drop (b - a)).take (c - b) := by
    rw [slice, drop_take, drop_drop]
    congr 2
    omega
  have hsum : c - a = (b - a) + (c - b) := by omega
  rw [hb, hc, hd, hsum, take_add]

theorem slice_all (l : Str) : slice l 0 l.length = l :=
  slice_self le_rfl

theorem slice_to_end (l : Str) (pos : ℕ) : slice l pos l.length = l.drop pos := by
  rw [slice, take_length]

/-- The octets `x` stand at the position `pos`. -/
def At (l : Str) (pos : ℕ) (x : Str) : Prop := x <+: l.drop pos

section At

variable {l x y : Str} {pos : ℕ}

theorem at_self (l : Str) : At l 0 l := prefix_rfl

theorem at_zero (l y : Str) : At (l ++ y) 0 l := prefix_append l y

/-- What stands at a position is read off part by part. -/
theorem at_append : At l pos (x ++ y) ↔ At l pos x ∧ At l (pos + x.length) y := by
  rw [At, At, At, ← drop_drop]
  constructor
  · rintro ⟨t, ht⟩
    rw [← ht, append_assoc, drop_left]
    exact ⟨prefix_append _ _, prefix_append _ _⟩
  · rintro ⟨⟨t, ht⟩, hy⟩
    rw [← ht, drop_left] at hy
    rw [← ht]
    exact (prefix_append_right_inj x).mpr hy

theorem At.length_le (h : At l pos x) : x.length ≤ l.length - pos := by
  simpa using List.IsPrefix.length_le h

theorem At.slice_eq (h : At l pos x) {b : ℕ} (hb : b = pos + x.length) : slice l pos b = x := by
  rw [slice, drop_take, hb, Nat.add_sub_cancel_left]
  exact (prefix_iff_eq_take.mp h).symm

end At

end Octets
