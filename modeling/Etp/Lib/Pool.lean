import Mathlib.Data.List.Nodup

/-!
# Pools of resources

Resources are numbered as they are made: `next` is the number of the next one. A
resource is free, in the list `free` of the pool, or has a holder: `owner a` is what
`a` holds. `Sound` says that no resource has two holders, or one while it is free.

The rules are those of a pool: a holder takes a free resource or makes one, hands
it to another holder, loses it, or gives it back; the pool may forget a free
resource.
-/

namespace Pool

open List

variable {α : Type*}

/-- Every resource has one holder at most, and none while it is free. -/
structure Sound (owner : α → Option ℕ) (free : List ℕ) (next : ℕ) : Prop where
  single : ∀ a a' b, owner a = some b → owner a' = some b → a = a'
  apart : ∀ a b, owner a = some b → b ∉ free
  nodup : free.Nodup
  known : ∀ a b, owner a = some b → b < next
  free_known : ∀ b ∈ free, b < next

variable {owner owner' : α → Option ℕ} {free : List ℕ} {next b : ℕ} {a : α}

section Sound

variable (h : Sound owner free next)
include h

/-- The pool may forget a resource. -/
theorem Sound.forget (b : ℕ) : Sound owner (free.erase b) next where
  single := h.single
  apart x c hx hc := h.apart x c hx (mem_of_mem_erase hc)
  nodup := h.nodup.erase b
  known := h.known
  free_known c hc := h.free_known c (mem_of_mem_erase hc)

/-- A free resource is taken. -/
theorem Sound.take (hb : b ∈ free)
    (howner : ∀ x c, owner' x = some c → x = a ∧ c = b ∨ owner x = some c) :
    Sound owner' (free.erase b) next where
  single x y c hx hy := by
    rcases howner x c hx with ⟨rfl, rfl⟩ | hx
    · rcases howner y c hy with ⟨rfl, -⟩ | hy
      · rfl
      · exact absurd hb (h.apart y c hy)
    · rcases howner y c hy with ⟨rfl, rfl⟩ | hy
      · exact absurd hb (h.apart x c hx)
      · exact h.single x y c hx hy
  apart x c hx hc := by
    rcases howner x c hx with ⟨rfl, rfl⟩ | hx
    · exact h.nodup.not_mem_erase hc
    · exact h.apart x c hx (mem_of_mem_erase hc)
  nodup := h.nodup.erase b
  known x c hx := by
    rcases howner x c hx with ⟨rfl, rfl⟩ | hx
    · exact h.free_known c hb
    · exact h.known x c hx
  free_known c hc := h.free_known c (mem_of_mem_erase hc)

/-- A resource is made: it is free, and taken at once. -/
theorem Sound.make (howner : ∀ x c, owner' x = some c → x = a ∧ c = next ∨ owner x = some c) :
    Sound owner' free (next + 1) := by
  have hnew : Sound owner (next :: free) (next + 1) :=
    { single := h.single
      apart := fun x c hx hc => by
        rcases mem_cons.mp hc with rfl | hc
        · exact Nat.lt_irrefl c (h.known x c hx)
        · exact h.apart x c hx hc
      nodup := nodup_cons.mpr ⟨fun hb => Nat.lt_irrefl next (h.free_known next hb), h.nodup⟩
      known := fun x c hx => Nat.lt_succ_of_lt (h.known x c hx)
      free_known := forall_mem_cons.mpr
        ⟨Nat.lt_succ_self next, fun c hc => Nat.lt_succ_of_lt (h.free_known c hc)⟩ }
  simpa using hnew.take mem_cons_self howner

/-- A holder hands what it holds to another. -/
theorem Sound.hand (a a' : α)
    (howner : ∀ x c, owner' x = some c → x = a' ∧ owner a = some c ∨ x ≠ a ∧ owner x = some c) :
    Sound owner' free next where
  single x y c hx hy := by
    rcases howner x c hx with ⟨rfl, hx⟩ | ⟨hxa, hx⟩
    · rcases howner y c hy with ⟨rfl, -⟩ | ⟨hya, hy⟩
      · rfl
      · exact absurd (h.single y a c hy hx) hya
    · rcases howner y c hy with ⟨rfl, hy⟩ | ⟨-, hy⟩
      · exact absurd (h.single x a c hx hy) hxa
      · exact h.single x y c hx hy
  apart x c hx := by
    rcases howner x c hx with ⟨-, hx⟩ | ⟨-, hx⟩
    · exact h.apart a c hx
    · exact h.apart x c hx
  nodup := h.nodup
  known x c hx := by
    rcases howner x c hx with ⟨-, hx⟩ | ⟨-, hx⟩
    · exact h.known a c hx
    · exact h.known x c hx
  free_known := h.free_known

/-- Holders give back what they hold, and hold it no longer. -/
theorem Sound.giveBack {l : List ℕ} (hl : l.Nodup) (hheld : ∀ b ∈ l, ∃ x, owner x = some b)
    (howner : ∀ x b, owner' x = some b → owner x = some b ∧ b ∉ l) :
    Sound owner' (free ++ l) next where
  single x y b hx hy := h.single x y b (howner x b hx).1 (howner y b hy).1
  apart x b hx hb := by
    rcases mem_append.mp hb with hb | hb
    · exact h.apart x b (howner x b hx).1 hb
    · exact (howner x b hx).2 hb
  nodup := by
    refine nodup_append.mpr ⟨h.nodup, hl, fun b hb c hc heq => ?_⟩
    obtain ⟨x, hx⟩ := hheld c hc
    exact h.apart x c hx (heq ▸ hb)
  known x b hx := h.known x b (howner x b hx).1
  free_known b hb := by
    rcases mem_append.mp hb with hb | hb
    · exact h.free_known b hb
    · obtain ⟨x, hx⟩ := hheld b hb
      exact h.known x b hx

end Sound

end Pool
