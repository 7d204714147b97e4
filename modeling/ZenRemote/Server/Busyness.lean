-- SUMMARY: How busy a channel reports to be: the stored count of its pending calls against the calls that are pending.
import Mathlib.Algebra.Ring.Int.Defs
import Mathlib.Algebra.Ring.Nat
import ZenRemote.Server.AsyncGrpcQueue

/-!
# Busyness

`Push` counts a call after it has started it, and a drain thread counts it off when it has
deleted the caller. The count is signed, has 32 bits, and is read as an unsigned number. So
it is off by one as long as `Push` is between the two, and a call that is completed in
between may be counted off before it is counted.
-/

namespace ZenRemote.Server

namespace AsyncGrpcQueue

namespace State

/-- `pending_count_`, an `std::atomic_int32_t`. -/
def storedCount (s : State) : Int32 := Int32.ofInt s.pendingCount

/-- `Channel::GetBusyness`. -/
def getBusyness (s : State) : UInt32 := s.storedCount.toUInt32

/-- The callers that were accepted, and whose drain step is not complete. -/
def outstanding (s : State) : Nat := s.inFlight.length + s.received.length + s.called.length + s.freed

end State

variable {s s' : State} {prober : Bool} {caller : Nat}

/-- The count is between zero and the number of callers that are outstanding, and what is
read of it is at most the number of calls. -/
structure CountsPending (s : State) : Prop where
  nonneg : 0 ≤ s.storedCount.toInt
  outstanding : s.storedCount.toInt ≤ s.outstanding
  busyness : s.getBusyness.toNat ≤ s.accepted

/-- The count lags behind by the call that `Push` has started. -/
structure Counted (s : State) : Prop where
  count : s.pendingCount + s.pushing.toNat = s.outstanding
  accepted : s.outstanding ≤ s.accepted

theorem counted_init : Counted (machine prober).init := ⟨rfl, Nat.le_refl 0⟩

/-- Neither faults nor what else a step records matter to the count. -/
theorem Counted.of_eq (h : Counted s) (hcount : s'.pendingCount = s.pendingCount)
    (hpushing : s'.pushing = s.pushing) (houtstanding : s'.outstanding = s.outstanding)
    (haccepted : s'.accepted = s.accepted) : Counted s' := by
  refine ⟨?_, ?_⟩
  · rw [hcount, hpushing, houtstanding]
    exact h.count
  · rw [houtstanding, haccepted]
    exact h.accepted

theorem Counted.fault (h : Counted s) (p : Bool) (fault : Fault) : Counted (s.fault p fault) := by
  unfold State.fault
  split
  · exact h.of_eq rfl rfl rfl rfl
  · exact h

theorem Counted.start (h : Counted s) : Counted s.start := by
  unfold State.start
  split
  · exact h.of_eq rfl rfl rfl rfl
  · exact h.of_eq rfl rfl rfl rfl

theorem Counted.terminate (h : Counted s) : Counted s.terminate := by
  unfold State.terminate
  split
  · split
    · exact h.of_eq rfl rfl rfl rfl
    · exact h.of_eq rfl rfl rfl rfl
  · exact h

theorem Counted.push (h : Counted s) (hlock : s.lockable) : Counted s.push := by
  obtain ⟨-, hidle⟩ := lockable_eq_true.mp hlock
  obtain ⟨hcount, haccepted⟩ := h
  unfold State.push
  split
  · apply Counted.fault
    rw [hidle] at hcount
    simp only [State.outstanding] at hcount haccepted
    refine ⟨?_, ?_⟩
    · simp only [State.outstanding, List.length_append, List.length_singleton, Bool.toNat_true]
      simp only [Bool.toNat_false] at hcount
      omega
    · simp only [State.outstanding, List.length_append, List.length_singleton]
      omega
  · exact ⟨hcount, haccepted⟩

theorem outstanding_next (hcaller : caller ∈ s.inFlight) :
    (s.next caller).outstanding = s.outstanding := by
  have hlength := List.length_erase_add_one hcaller
  simp only [State.outstanding, State.next, List.length_append, List.length_singleton]
  omega

theorem Counted.finish (h : Counted s) (hcaller : caller ∈ s.received) :
    Counted (s.finish prober caller) := by
  have hlength := List.length_erase_add_one hcaller
  obtain ⟨hcount, haccepted⟩ := h
  simp only [State.outstanding] at hcount haccepted
  apply Counted.fault
  refine ⟨?_, ?_⟩
  · simp only [State.outstanding, List.length_append, List.length_singleton]
    omega
  · simp only [State.outstanding, List.length_append, List.length_singleton]
    omega

theorem outstanding_delete (hcaller : caller ∈ s.called) :
    (s.delete caller).outstanding = s.outstanding := by
  have hlength := List.length_erase_add_one hcaller
  simp only [State.outstanding, State.delete]
  omega

theorem Counted.decrement (h : Counted s) (hfreed : 0 < s.freed) : Counted s.decrement := by
  obtain ⟨hcount, haccepted⟩ := h
  apply Counted.fault
  simp only [State.outstanding] at hcount haccepted
  refine ⟨?_, ?_⟩
  · simp only [State.outstanding]
    omega
  · simp only [State.outstanding]
    omega

theorem Counted.step (h : Counted s) {l : Label} (hstep : s.step prober l = some s') : Counted s' := by
  cases step_cases hstep with
  | start hlock => exact h.start
  | push hlock => exact h.push hlock
  | count hpushing =>
    obtain ⟨hcount, haccepted⟩ := h
    rw [hpushing] at hcount
    exact ⟨(Int.add_zero _).trans hcount, haccepted⟩
  | terminate hlock => exact h.terminate
  | destroy hlock => exact h.terminate.of_eq rfl rfl rfl rfl
  | destroyManager hdestroyed => exact h.of_eq rfl rfl rfl rfl
  | next caller hcaller hwaiting => exact h.of_eq rfl rfl (outstanding_next hcaller) rfl
  | finish caller hcaller => exact h.finish hcaller
  | delete caller hcaller => exact h.of_eq rfl rfl (outstanding_delete hcaller) rfl
  | decrement hfreed => exact h.decrement hfreed
  | exit hshutdown hdrained hwaiting => exact h.of_eq rfl rfl rfl rfl

-- ---------------------------------------------------------------------------
-- The stored count
-- ---------------------------------------------------------------------------

theorem pendingCount_fault (s : State) (p : Bool) (fault : Fault) :
    (s.fault p fault).pendingCount = s.pendingCount := by
  unfold State.fault
  split
  · rfl
  · rfl

theorem pendingCount_terminate : s.terminate.pendingCount = s.pendingCount := by
  unfold State.terminate
  split
  · split
    · rfl
    · rfl
  · rfl

/-- The two steps that count. -/
theorem pendingCount_step {l : Label} (hstep : s.step prober l = some s') :
    l = .count ∧ s.pushing = true ∧ s'.pendingCount = s.pendingCount + 1 ∨
      l = .decrement ∧ 0 < s.freed ∧ s'.pendingCount = s.pendingCount - 1 ∨
        l ≠ .count ∧ l ≠ .decrement ∧ s'.pendingCount = s.pendingCount := by
  cases step_cases hstep with
  | count hpushing => exact .inl ⟨rfl, hpushing, rfl⟩
  | decrement hfreed => exact .inr (.inl ⟨rfl, hfreed, pendingCount_fault ..⟩)
  | start hlock =>
    refine .inr (.inr ⟨nofun, nofun, ?_⟩)
    unfold State.start
    split
    · rfl
    · rfl
  | push hlock =>
    refine .inr (.inr ⟨nofun, nofun, ?_⟩)
    unfold State.push
    split
    · exact pendingCount_fault ..
    · rfl
  | terminate hlock | destroy hlock => exact .inr (.inr ⟨nofun, nofun, pendingCount_terminate⟩)
  | finish caller hcaller => exact .inr (.inr ⟨nofun, nofun, pendingCount_fault ..⟩)
  | destroyManager hdestroyed => exact .inr (.inr ⟨nofun, nofun, rfl⟩)
  | next caller hcaller hwaiting | delete caller hcaller | exit hshutdown hdrained hwaiting =>
    exact .inr (.inr ⟨nofun, nofun, rfl⟩)

/-- As long as the count fits its 32 bits or has just left them. -/
theorem Counted.countsPending_iff (h : Counted s) (hle : s.pendingCount ≤ 2 ^ 31) :
    CountsPending s ↔ 0 ≤ s.pendingCount ∧ s.pendingCount < 2 ^ 31 := by
  obtain ⟨hcount, haccepted⟩ := h
  have hlow : -1 ≤ s.pendingCount := by
    have hpushing := Bool.toNat_le s.pushing
    omega
  have hpast : s.pendingCount = 2 ^ 31 → s.storedCount.toInt = -2 ^ 31 := by
    intro heq
    rw [State.storedCount, heq]
    rfl
  constructor
  · intro hcounts
    have hnonneg := hcounts.nonneg
    have hlt : s.pendingCount < 2 ^ 31 := by
      refine Int.lt_iff_le_and_ne.mpr ⟨hle, fun heq => ?_⟩
      rw [hpast heq] at hnonneg
      exact absurd hnonneg (by decide)
    rw [State.storedCount, Int32.toInt_ofInt_of_le (by omega) hlt] at hnonneg
    exact ⟨hnonneg, hlt⟩
  · rintro ⟨hnonneg, hlt⟩
    have hstored : s.storedCount.toInt = s.pendingCount :=
      Int32.toInt_ofInt_of_le (by omega) hlt
    have hread : s.getBusyness.toNat = s.pendingCount.toNat := by
      have hstored' : 0 ≤ s.storedCount := by
        rw [Int32.le_iff_toInt_le, hstored]
        exact hnonneg
      rw [State.getBusyness, Int32.toNat_toUInt32_of_le hstored', Int32.toNatClampNeg, hstored]
    refine ⟨?_, ?_, ?_⟩
    · rw [hstored]
      exact hnonneg
    · rw [hstored]
      omega
    · omega

-- ---------------------------------------------------------------------------
-- Runs
-- ---------------------------------------------------------------------------

/-- No call is counted off while `Push` is about to count the only call that is
outstanding, and fewer than 2^31 calls are outstanding when one is counted. -/
def CountedFirst (s : State) : Label → Prop
  | .decrement => s.pushing → 1 < s.outstanding
  | .count => s.outstanding < 2 ^ 31
  | .start | .push | .terminate | .destroy | .destroyManager | .next _ | .finish _ | .delete _
  | .exit => True

theorem countsPending_init : CountsPending (machine prober).init := by
  have hpos : (0 : Int) < 2 ^ 31 := by decide
  exact (counted_init.countsPending_iff (Int.le_of_lt hpos)).mpr ⟨Int.le_refl 0, hpos⟩

/-- The step keeps the count in its range exactly if it meets the condition. -/
theorem countsPending_step_iff {l : Label} (h : Counted s) (hnonneg : 0 ≤ s.pendingCount)
    (hlt : s.pendingCount < 2 ^ 31) (hstep : s.step prober l = some s') :
    CountsPending s' ↔ CountedFirst s l := by
  have hcount := h.count
  have houtstanding := h.accepted
  obtain ⟨rfl, hpushing, hs'⟩ | ⟨rfl, hfreed, hs'⟩ | ⟨hcounts, hdecrements, hs'⟩ :=
    pendingCount_step hstep
  · rw [(h.step hstep).countsPending_iff (by omega), hs', CountedFirst]
    rw [hpushing, Bool.toNat_true] at hcount
    omega
  · have hpos : 0 < s.outstanding := Nat.lt_of_lt_of_le hfreed (Nat.le_add_left ..)
    rw [(h.step hstep).countsPending_iff (by omega), hs', CountedFirst]
    cases hpushing : s.pushing with
    | false =>
      rw [hpushing, Bool.toNat_false] at hcount
      exact iff_of_true (by omega) nofun
    | true =>
      rw [hpushing, Bool.toNat_true] at hcount
      have hcond : (true = true → 1 < s.outstanding) ↔ 1 < s.outstanding := ⟨fun h => h rfl, fun h _ => h⟩
      rw [hcond]
      omega
  · have hfree : CountedFirst s l := by
      cases l with
      | count => exact absurd rfl hcounts
      | decrement => exact absurd rfl hdecrements
      | _ => trivial
    rw [(h.step hstep).countsPending_iff (by omega), hs']
    exact iff_of_true ⟨hnonneg, hlt⟩ hfree

/-- The count is right in every state that a run passes, exactly if every call is counted
first. -/
theorem countsPending_run {ls : List Label} (hrun : (machine prober).run ls = some s) :
    (machine prober).Always CountsPending ls ↔ (machine prober).Along CountedFirst ls := by
  have hpos : (0 : Int) < 2 ^ 31 := by decide
  apply Machine.always_iff_along (J := fun s => Counted s ∧ s.pendingCount < 2 ^ 31)
    ⟨counted_init, hpos⟩ countsPending_init ?_ ?_ hrun
  · rintro s l s' ⟨h, hlt⟩ hcounts hstep hcounts'
    have hle : s'.pendingCount ≤ 2 ^ 31 := by
      obtain ⟨-, -, hs'⟩ | ⟨-, -, hs'⟩ | ⟨-, -, hs'⟩ := pendingCount_step hstep
      · omega
      · omega
      · omega
    exact ⟨h.step hstep, (((h.step hstep).countsPending_iff hle).mp hcounts').2⟩
  · rintro s l s' ⟨h, hlt⟩ hcounts hstep
    exact countsPending_step_iff h ((h.countsPending_iff (by omega)).mp hcounts).1 hlt hstep

/-- One call is completed while `Push` is about to count another. -/
def completedWhilePushing : List Label :=
  [.start, .push, .count, .next 0, .finish 0, .push, .delete 0, .decrement, .count]

theorem countsPending_completedWhilePushing : ∃ s,
    (machine false).run completedWhilePushing = some s ∧
      ((machine false).Always CountsPending completedWhilePushing ↔
        (machine false).Along CountedFirst completedWhilePushing) := by
  obtain ⟨s, hs⟩ : ∃ s, (machine false).run completedWhilePushing = some s := ⟨_, rfl⟩
  exact ⟨s, hs, countsPending_run hs⟩

/-- The only call is completed before it is counted. -/
def completedBeforeCounted : List Label := [.start, .push, .next 0, .finish 0, .delete 0, .decrement]

theorem not_countsPending_completedBeforeCounted :
    ∃ s, (machine false).run completedBeforeCounted = some s ∧ s.getBusyness = 4294967295 ∧
      s.accepted = 1 ∧ ¬ CountsPending s :=
  ⟨_, rfl, by decide, rfl, fun h => absurd h.nonneg (by decide)⟩

end AsyncGrpcQueue

end ZenRemote.Server
