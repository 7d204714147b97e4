-- SUMMARY: What is done with descriptors, as a trace of events, and the discipline of closing each of them once.
import Mathlib.Data.List.Basic
import Mathlib.Data.List.Count

/-!
# Descriptors

An object that creates descriptors has to close each of them once. What it closes is a name
that the system gives away again, so nothing may be done with the name afterwards.
-/

universe u

namespace Descriptors

variable {ι : Type u}

inductive Event (ι : Type u) where
  | opened (fd : ι)
  | closed (fd : ι)
  | written (fd : ι)
  /-- A loop is told to forget the source of the descriptor. -/
  | removed (fd : ι)
  deriving DecidableEq, Repr

/-- The event needs the descriptor to be open. -/
def Event.Uses (fd : ι) : Event ι → Prop
  | .opened _ => False
  | .closed fd' | .written fd' | .removed fd' => fd' = fd

variable [DecidableEq ι]

/-- The descriptor is closed once, and not used after that. -/
structure Kept (fd : ι) (trace : List (Event ι)) : Prop where
  once : trace.count (.closed fd) = 1
  unused : ∀ before after, trace = before ++ .closed fd :: after → ∀ e ∈ after, ¬ e.Uses fd

/-- Every descriptor that is created in the trace is kept in it. -/
def Disciplined (trace : List (Event ι)) : Prop := ∀ fd, .opened fd ∈ trace → Kept fd trace

variable {fd : ι} {trace : List (Event ι)}

theorem disciplined_of_not_opened (h : ∀ fd, .opened fd ∉ trace) : Disciplined trace :=
  fun fd hopened => absurd hopened (h fd)

theorem not_kept_of_not_closed (h : .closed fd ∉ trace) : ¬ Kept fd trace := by
  intro hkept
  have honce := hkept.once
  rw [List.count_eq_zero_of_not_mem h] at honce
  exact Nat.zero_ne_one honce

theorem not_kept_of_uses {before after : List (Event ι)} {e : Event ι} (he : e ∈ after)
    (huses : e.Uses fd) : ¬ Kept fd (before ++ .closed fd :: after) :=
  fun hkept => hkept.unused before after rfl e he huses

/-- It is enough to look at the one place where the descriptor is closed. -/
theorem kept_of_unused (before after : List (Event ι)) (hbefore : .closed fd ∉ before)
    (hafter : ∀ e ∈ after, ¬ e.Uses fd) : Kept fd (before ++ .closed fd :: after) := by
  have hclosed : .closed fd ∉ after := fun h => hafter _ h rfl
  refine ⟨?_, fun before' after' heq e he => ?_⟩
  · rw [List.count_append, List.count_cons_self, List.count_eq_zero_of_not_mem hbefore,
      List.count_eq_zero_of_not_mem hclosed]
  · obtain ⟨-, -, rfl⟩ := (List.append_cons_inj_of_notMem hbefore hclosed).mp heq
    exact hafter e he

/-- What is done later does not make up for what was done before. -/
theorem Kept.of_append {tail : List (Event ι)} (h : Kept fd (trace ++ tail))
    (htail : .closed fd ∉ tail) : Kept fd trace := by
  refine ⟨?_, ?_⟩
  · have honce := h.once
    rw [List.count_append, List.count_eq_zero_of_not_mem htail] at honce
    exact honce
  · rintro before after rfl e he
    exact h.unused before (after ++ tail) (by simp) e (List.mem_append_left tail he)

end Descriptors
