-- SUMMARY: Images in memory: rows that start at multiples of an alignment, and how far the last row reaches.
import Mathlib.Algebra.Order.Group.Nat
import Mathlib.Order.Basic

/-!
# Rows of an image

The rows of an image in memory start at multiples of an alignment, so the bytes of
an image are packed only when a row fills up to the next one.
-/

namespace Rows

/-- The least multiple of `a` that is not below `n`. -/
def roundUp (a n : Nat) : Nat := (n + (a - 1)) / a * a

/-- How far the last of the rows reaches, when each of them has `n` bytes. -/
def extent (a rows n : Nat) : Nat :=
  if rows = 0 ∨ n = 0 then 0 else (rows - 1) * roundUp a n + n

variable {a : Nat}

theorem le_roundUp (ha : 0 < a) (n : Nat) : n ≤ roundUp a n := by
  have hdiv := Nat.div_add_mod (n + (a - 1)) a
  have hmod := Nat.mod_lt (n + (a - 1)) ha
  rw [Nat.mul_comm] at hdiv
  unfold roundUp
  omega

theorem roundUp_eq_self_iff (ha : 0 < a) (n : Nat) : roundUp a n = n ↔ a ∣ n := by
  constructor
  · intro heq
    exact ⟨(n + (a - 1)) / a, by rw [Nat.mul_comm]; exact heq.symm⟩
  · rintro ⟨k, rfl⟩
    have hlast : (a - 1) / a = 0 := Nat.div_eq_of_lt (Nat.sub_lt ha Nat.one_pos)
    rw [roundUp, Nat.add_comm, Nat.add_mul_div_left _ _ ha, hlast, Nat.zero_add, Nat.mul_comm]

theorem mul_le_extent (ha : 0 < a) (rows n : Nat) : rows * n ≤ extent a rows n := by
  unfold extent
  split
  · rename_i hempty
    rcases hempty with rfl | rfl
    · rw [Nat.zero_mul]
    · rw [Nat.mul_zero]
  · rename_i hne
    obtain ⟨k, rfl⟩ : ∃ k, rows = k + 1 := Nat.exists_eq_succ_of_ne_zero fun h => hne (.inl h)
    have hstride := Nat.mul_le_mul_left k (le_roundUp ha n)
    rw [Nat.succ_mul, Nat.add_sub_cancel]
    omega

/-- Exactly the images whose rows are packed need no more than the bytes of their rows. -/
theorem extent_le_mul_iff (ha : 0 < a) (rows n : Nat) :
    extent a rows n ≤ rows * n ↔ n = 0 ∨ rows ≤ 1 ∨ a ∣ n := by
  unfold extent
  split
  · rename_i hempty
    rcases hempty with rfl | rfl
    · simp
    · simp
  · rename_i hne
    obtain ⟨k, rfl⟩ : ∃ k, rows = k + 1 := Nat.exists_eq_succ_of_ne_zero fun h => hne (.inl h)
    have hcancel : k * roundUp a n + n ≤ (k + 1) * n ↔ k * roundUp a n ≤ k * n := by
      rw [Nat.succ_mul, Nat.add_le_add_iff_right]
    rw [Nat.add_sub_cancel, hcancel, ← roundUp_eq_self_iff ha]
    constructor
    · intro hle
      cases k with
      | zero => exact .inr (.inl (Nat.le_refl 1))
      | succ k =>
        have hle' := Nat.le_of_mul_le_mul_left hle (Nat.succ_pos k)
        exact .inr (.inr (Nat.le_antisymm hle' (le_roundUp ha n)))
    · rintro (hn | hrows | hpacked)
      · exact absurd (.inr hn) hne
      · obtain rfl : k = 0 := by omega
        simp
      · rw [hpacked]

end Rows
