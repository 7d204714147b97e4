-- SUMMARY: How many threads are at a place of their code, and how one thread's step changes the number.
import Mathlib.Data.Fintype.Card
import Mathlib.Logic.Function.Basic

/-!
# Counting threads

Every thread of a finite family is at a place of its code. A step moves one thread,
so that a number of threads changes by what the thread has left and has reached.
-/

universe u v

namespace Threads

variable {τ : Type u} {κ : Type v}

/-- After a step of `t`, a thread is at a place because it has just got there, or it was there before. -/
theorem eq_of_update [DecidableEq τ] {places : τ → κ} {t t' : τ} {pc place : κ}
    (h : Function.update places t pc t' = place) :
    t' = t ∧ pc = place ∨ t' ≠ t ∧ places t' = place := by
  rw [Function.update_apply] at h
  split at h
  · exact .inl ⟨‹_›, h⟩
  · exact .inr ⟨‹_›, h⟩

variable [Fintype τ]

/-- The number of threads at the places where `p` holds. -/
def count (p : κ → Bool) (places : τ → κ) : Nat := (Finset.univ.filter fun t => p (places t)).card

variable {p : κ → Bool} {places : τ → κ} {t : τ}

theorem count_eq_zero : count p places = 0 ↔ ∀ t, p (places t) = false := by
  simp [count, Finset.filter_eq_empty_iff]

theorem count_pos (ht : p (places t) = true) : 0 < count p places := by
  rw [Nat.pos_iff_ne_zero, Ne, count_eq_zero]
  intro hnone
  rw [hnone t] at ht
  cases ht

theorem count_congr {places' : τ → κ} (h : ∀ t, p (places' t) = p (places t)) :
    count p places' = count p places := by
  simp only [count, h]

/-- A thread that is not at such a place leaves room for one more. -/
theorem count_lt_card (ht : p (places t) = false) : count p places < Fintype.card τ := by
  apply Finset.card_lt_univ_of_notMem (x := t)
  simp [ht]

variable [DecidableEq τ]

theorem count_update (p : κ → Bool) (places : τ → κ) (t : τ) (x : κ) :
    count p (Function.update places t x) + (p (places t)).toNat = count p places + (p x).toNat := by
  have hsplit : ∀ places : τ → κ, count p places =
      ((Finset.univ.erase t).filter fun t => p (places t)).card + (p (places t)).toNat := by
    intro places
    rw [count, ← Finset.insert_erase (Finset.mem_univ t), Finset.filter_insert]
    cases hp : p (places t) with
    | false => simp
    | true => simp
  have hothers : ((Finset.univ.erase t).filter fun t' => p (Function.update places t x t')) =
      (Finset.univ.erase t).filter fun t' => p (places t') := by
    apply Finset.filter_congr
    intro t' ht'
    rw [Function.update_of_ne (Finset.ne_of_mem_erase ht')]
  rw [hsplit, hsplit places, hothers, Function.update_self]
  omega

end Threads
