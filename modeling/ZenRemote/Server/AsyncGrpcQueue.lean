-- SUMMARY: The server's asynchronous gRPC queue: calls, their completion on the drain threads, termination and destruction.
import Mathlib.Data.List.Nodup
import Mathlib.Data.List.Perm.Lattice
import ZenRemote.Lib.Machine

/-!
# The asynchronous gRPC queue

A caller that the queue accepts is owned by its call on the completion queue. A drain
thread takes the completion of the call, finishes the caller, deletes it, and counts it
off in the queue object. Termination shuts the completion queue down and detaches the drain
thread, which keeps the completion queue alive but not the queue object.
-/

namespace ZenRemote.Server

namespace AsyncGrpcQueue

/-- A step that has done what must not be done. -/
inductive Fault where
  | startedOnShutDownQueue (caller : Nat)
  | usedDestroyedQueue
  | usedDestroyedNotifier
  deriving DecidableEq, Repr

/-- Callers are numbered in the order in which they are accepted. -/
structure State where
  enabled : Bool := false
  /-- `thread_.joinable()`. -/
  joinable : Bool := false
  pendingCount : Int := 0
  /-- `Push` has started its call and is about to count it. It holds `mtx_`. -/
  pushing : Bool := false
  destroyed : Bool := false
  /-- The `PeerManager` that the callers of its prober notify. -/
  managerDestroyed : Bool := false
  shutdown : Bool := false
  /-- The calls whose completion no thread has taken yet. -/
  inFlight : List Nat := []
  /-- The drain threads that have not returned. Each is waiting or has one caller in hand. -/
  threads : Nat := 0
  /-- Callers whose completion has been taken. -/
  received : List Nat := []
  /-- Callers whose `Finish` has returned. -/
  called : List Nat := []
  /-- The number of threads that have deleted their caller. -/
  freed : Nat := 0
  accepted : Nat := 0
  finished : List Nat := []
  deleted : List Nat := []
  faults : List Fault := []
  deriving DecidableEq, Repr

inductive Label where
  | start
  /-- `Push` up to the start of the call. -/
  | push
  | count
  | terminate
  | destroy
  | destroyManager
  /-- A drain thread takes a completion from the completion queue. -/
  | next (caller : Nat)
  | finish (caller : Nat)
  | delete (caller : Nat)
  | decrement
  /-- The completion queue is drained, and a drain thread returns. -/
  | exit
  deriving DecidableEq, Repr

namespace State

/-- A thread can take `mtx_` of the queue object. -/
def lockable (s : State) : Bool := !s.destroyed && !s.pushing

def waiting (s : State) : Nat := s.threads - (s.received.length + s.called.length + s.freed)

def fault (s : State) (p : Bool) (fault : Fault) : State :=
  if p then { s with faults := s.faults ++ [fault] } else s

def start (s : State) : State :=
  if s.joinable then { s with enabled := true }
  else { s with enabled := true, joinable := true, threads := s.threads + 1 }

/-- A queue that is not enabled drops the caller. -/
def push (s : State) : State :=
  if s.enabled then
    { s with
      pushing := true
      inFlight := s.inFlight ++ [s.accepted]
      accepted := s.accepted + 1 }.fault s.shutdown (.startedOnShutDownQueue s.accepted)
  else s

def terminate (s : State) : State :=
  if s.enabled then
    if s.joinable then { s with enabled := false, shutdown := true, joinable := false }
    else { s with enabled := false }
  else s

def next (s : State) (caller : Nat) : State :=
  { s with inFlight := s.inFlight.erase caller, received := s.received ++ [caller] }

/-- `Finish` of a caller; that of the prober uses the notifier of the manager. -/
def finish (s : State) (prober : Bool) (caller : Nat) : State :=
  { s with
    received := s.received.erase caller
    called := s.called ++ [caller]
    finished := s.finished ++ [caller] }.fault (prober && s.managerDestroyed) .usedDestroyedNotifier

def delete (s : State) (caller : Nat) : State :=
  { s with
    called := s.called.erase caller
    freed := s.freed + 1
    deleted := s.deleted ++ [caller] }

def decrement (s : State) : State :=
  { s with freed := s.freed - 1, pendingCount := s.pendingCount - 1 }.fault s.destroyed
    .usedDestroyedQueue

/-- `prober` tells whether this is the queue of the port-forward prober, which the destructor
of its `PeerManager` joins first; the queue is local to the prober's thread. -/
def step (prober : Bool) (s : State) : Label → Option State
  | .start => if s.lockable then some s.start else none
  | .push => if s.lockable then some s.push else none
  | .count =>
    if s.pushing then some { s with pushing := false, pendingCount := s.pendingCount + 1 } else none
  | .terminate => if s.lockable then some s.terminate else none
  | .destroy => if s.lockable then some { s.terminate with destroyed := true } else none
  | .destroyManager => if s.destroyed then some { s with managerDestroyed := true } else none
  | .next caller => if caller ∈ s.inFlight ∧ 0 < s.waiting then some (s.next caller) else none
  | .finish caller => if caller ∈ s.received then some (s.finish prober caller) else none
  | .delete caller => if caller ∈ s.called then some (s.delete caller) else none
  | .decrement => if 0 < s.freed then some s.decrement else none
  | .exit =>
    if s.shutdown ∧ s.inFlight = [] ∧ 0 < s.waiting then some { s with threads := s.threads - 1 }
    else none

/-- Every accepted caller has been handled to the end. -/
def isDrained (s : State) : Bool :=
  s.inFlight.isEmpty && s.received.isEmpty && s.called.isEmpty && s.freed = 0

end State

def machine (prober : Bool) : Machine State Label where
  init := {}
  step := State.step prober

-- ---------------------------------------------------------------------------
-- Accounts
-- ---------------------------------------------------------------------------

variable {s s' : State} {prober : Bool} {caller : Nat}

/-- No caller is finished or deleted twice, and one whose completion has been handled has been
both; and nothing is done that must not be done. -/
structure Sound (s : State) : Prop where
  finished : s.finished.Nodup
  deleted : s.deleted.Nodup
  deletedFinished : ∀ c ∈ s.deleted, c ∈ s.finished
  accepted : ∀ c ∈ s.finished, c < s.accepted
  handled : ∀ c < s.accepted, c ∉ s.inFlight → c ∉ s.received → c ∉ s.called →
    c ∈ s.finished ∧ c ∈ s.deleted
  faults : s.faults = []

/-- Every accepted caller is in flight, in the hands of a drain thread, or finished; and
when the queue object has gone, none is left. -/
structure Invariant (s : State) : Prop where
  accounted : (s.inFlight ++ s.received ++ s.finished).Perm (List.range s.accepted)
  finished : (s.called ++ s.deleted).Perm s.finished
  drained : s.destroyed → s.isDrained
  pushing : s.pushing → ¬ s.destroyed
  manager : s.managerDestroyed → s.destroyed
  faults : s.faults = []

theorem Invariant.sound (h : Invariant s) : Sound s where
  finished := (h.accounted.nodup_iff.mpr List.nodup_range).of_append_right
  deleted :=
    (h.finished.nodup_iff.mpr (h.accounted.nodup_iff.mpr List.nodup_range).of_append_right).of_append_right
  deletedFinished := fun _ hc => h.finished.subset (List.mem_append_right _ hc)
  accepted := fun _ hc => List.mem_range.mp (h.accounted.subset (List.mem_append_right _ hc))
  handled := by
    intro c hc hflight hreceived hcalled
    have hfinished : c ∈ s.finished := by
      have hmem := h.accounted.symm.subset (List.mem_range.mpr hc)
      simpa [hflight, hreceived] using hmem
    have hdeleted := h.finished.symm.subset hfinished
    exact ⟨hfinished, (List.mem_append.mp hdeleted).resolve_left hcalled⟩
  faults := h.faults

theorem invariant_init : Invariant (machine prober).init where
  accounted := List.Perm.refl _
  finished := List.Perm.refl _
  drained := nofun
  pushing := nofun
  manager := nofun
  faults := rfl

theorem isDrained_eq_true :
    s.isDrained ↔ s.inFlight = [] ∧ s.received = [] ∧ s.called = [] ∧ s.freed = 0 := by
  simp [State.isDrained, and_assoc]

-- ---------------------------------------------------------------------------
-- Steps
-- ---------------------------------------------------------------------------

/-- No call is started on a completion queue that has been shut down, and the queue object
is not destroyed before every accepted caller has been handled to the end. -/
def Orderly (s : State) : Label → Prop
  | .push => ¬ (s.enabled ∧ s.shutdown)
  | .destroy => s.isDrained
  | _ => True

/-- The states that a step can lead to. -/
inductive Stepped (prober : Bool) (s : State) : Label → State → Prop
  | start (hlock : s.lockable) : Stepped prober s .start s.start
  | push (hlock : s.lockable) : Stepped prober s .push s.push
  | count (hpushing : s.pushing) :
      Stepped prober s .count { s with pushing := false, pendingCount := s.pendingCount + 1 }
  | terminate (hlock : s.lockable) : Stepped prober s .terminate s.terminate
  | destroy (hlock : s.lockable) : Stepped prober s .destroy { s.terminate with destroyed := true }
  | destroyManager (hdestroyed : s.destroyed) :
      Stepped prober s .destroyManager { s with managerDestroyed := true }
  | next (caller : Nat) (hcaller : caller ∈ s.inFlight) (hwaiting : 0 < s.waiting) :
      Stepped prober s (.next caller) (s.next caller)
  | finish (caller : Nat) (hcaller : caller ∈ s.received) :
      Stepped prober s (.finish caller) (s.finish prober caller)
  | delete (caller : Nat) (hcaller : caller ∈ s.called) :
      Stepped prober s (.delete caller) (s.delete caller)
  | decrement (hfreed : 0 < s.freed) : Stepped prober s .decrement s.decrement
  | exit (hshutdown : s.shutdown) (hdrained : s.inFlight = []) (hwaiting : 0 < s.waiting) :
      Stepped prober s .exit { s with threads := s.threads - 1 }

theorem step_cases {l : Label} (hstep : s.step prober l = some s') : Stepped prober s l s' := by
  cases l with
  | start =>
    obtain ⟨hlock, hs'⟩ := Option.ite_none_right_eq_some.mp hstep
    exact Option.some.inj hs' ▸ .start hlock
  | push =>
    obtain ⟨hlock, hs'⟩ := Option.ite_none_right_eq_some.mp hstep
    exact Option.some.inj hs' ▸ .push hlock
  | count =>
    obtain ⟨hpushing, hs'⟩ := Option.ite_none_right_eq_some.mp hstep
    exact Option.some.inj hs' ▸ .count hpushing
  | terminate =>
    obtain ⟨hlock, hs'⟩ := Option.ite_none_right_eq_some.mp hstep
    exact Option.some.inj hs' ▸ .terminate hlock
  | destroy =>
    obtain ⟨hlock, hs'⟩ := Option.ite_none_right_eq_some.mp hstep
    exact Option.some.inj hs' ▸ .destroy hlock
  | destroyManager =>
    obtain ⟨hdestroyed, hs'⟩ := Option.ite_none_right_eq_some.mp hstep
    exact Option.some.inj hs' ▸ .destroyManager hdestroyed
  | next caller =>
    obtain ⟨⟨hcaller, hwaiting⟩, hs'⟩ := Option.ite_none_right_eq_some.mp hstep
    exact Option.some.inj hs' ▸ .next caller hcaller hwaiting
  | finish caller =>
    obtain ⟨hcaller, hs'⟩ := Option.ite_none_right_eq_some.mp hstep
    exact Option.some.inj hs' ▸ .finish caller hcaller
  | delete caller =>
    obtain ⟨hcaller, hs'⟩ := Option.ite_none_right_eq_some.mp hstep
    exact Option.some.inj hs' ▸ .delete caller hcaller
  | decrement =>
    obtain ⟨hfreed, hs'⟩ := Option.ite_none_right_eq_some.mp hstep
    exact Option.some.inj hs' ▸ .decrement hfreed
  | exit =>
    obtain ⟨⟨hshutdown, hdrained, hwaiting⟩, hs'⟩ := Option.ite_none_right_eq_some.mp hstep
    exact Option.some.inj hs' ▸ .exit hshutdown hdrained hwaiting

/-- An element moves from one list to the end of another. -/
theorem perm_move {l l' : List Nat} (h : caller ∈ l) :
    (l.erase caller ++ (l' ++ [caller])).Perm (l ++ l') := by
  rw [← List.append_assoc]
  refine List.perm_append_comm.trans ?_
  exact (List.perm_cons_erase h).symm.append_right l'

@[simp] theorem fault_false (s : State) (fault : Fault) : s.fault false fault = s := rfl

theorem Invariant.start (h : Invariant s) : Invariant s.start := by
  unfold State.start
  split <;> exact ⟨h.accounted, h.finished, h.drained, h.pushing, h.manager, h.faults⟩

theorem Invariant.terminate (h : Invariant s) : Invariant s.terminate := by
  unfold State.terminate
  split
  · split <;> exact ⟨h.accounted, h.finished, h.drained, h.pushing, h.manager, h.faults⟩
  · exact h

theorem isDrained_terminate : s.terminate.isDrained = s.isDrained := by
  unfold State.terminate
  split
  · split <;> rfl
  · rfl

theorem lockable_eq_true : s.lockable ↔ s.destroyed = false ∧ s.pushing = false := by
  simp [State.lockable]

theorem Invariant.push (h : Invariant s) (hlock : s.lockable) (horderly : ¬ (s.enabled ∧ s.shutdown)) :
    Invariant s.push := by
  obtain ⟨hdestroyed, -⟩ := lockable_eq_true.mp hlock
  unfold State.push
  split
  · rename_i henabled
    have hopen : s.shutdown = false := by simpa [henabled] using horderly
    rw [hopen, fault_false]
    refine ⟨?_, h.finished, fun hgone => ?_, fun _ => Bool.eq_false_iff.mp hdestroyed, h.manager, h.faults⟩
    · rw [List.range_succ]
      refine List.Perm.trans ?_ (h.accounted.append_right _)
      simp only [List.append_assoc]
      exact (List.perm_append_comm.trans (List.append_assoc .. ▸ List.Perm.refl _)).append_left _
    · exact absurd hgone (Bool.eq_false_iff.mp hdestroyed)
  · exact h

theorem Invariant.next (h : Invariant s) (hcaller : caller ∈ s.inFlight) :
    Invariant (s.next caller) where
  accounted := ((perm_move hcaller).append_right _).trans h.accounted
  finished := h.finished
  drained := by
    intro hgone
    have hnone := (isDrained_eq_true.mp (h.drained hgone)).1
    simp [hnone] at hcaller
  pushing := h.pushing
  manager := h.manager
  faults := h.faults

theorem Invariant.finish (h : Invariant s) (hcaller : caller ∈ s.received) :
    Invariant (s.finish prober caller) := by
  have hkept : s.managerDestroyed = false := by
    by_contra hgone
    rw [Bool.not_eq_false] at hgone
    obtain ⟨-, hnone, -⟩ := isDrained_eq_true.mp (h.drained (h.manager hgone))
    simp [hnone] at hcaller
  have hnotify : (prober && s.managerDestroyed) = false := by rw [hkept, Bool.and_false]
  unfold State.finish
  rw [hnotify, fault_false]
  refine ⟨?_, ?_, fun hgone => ?_, h.pushing, h.manager, h.faults⟩
  · refine List.Perm.trans ?_ h.accounted
    simp only [List.append_assoc]
    exact (perm_move hcaller).append_left _
  · rw [List.append_assoc]
    refine List.Perm.trans ?_ (h.finished.append_right _)
    rw [List.append_assoc]
    exact List.perm_append_comm.append_left _
  · obtain ⟨-, hnone, -⟩ := isDrained_eq_true.mp (h.drained hgone)
    simp [hnone] at hcaller

theorem Invariant.delete (h : Invariant s) (hcaller : caller ∈ s.called) :
    Invariant (s.delete caller) where
  accounted := h.accounted
  finished := (perm_move hcaller).trans h.finished
  drained := by
    intro hgone
    obtain ⟨-, -, hnone, -⟩ := isDrained_eq_true.mp (h.drained hgone)
    simp [hnone] at hcaller
  pushing := h.pushing
  manager := h.manager
  faults := h.faults

theorem Invariant.decrement (h : Invariant s) (hfreed : 0 < s.freed) : Invariant s.decrement := by
  have hkept : s.destroyed = false := by
    by_contra hgone
    obtain ⟨-, -, -, hnone⟩ := isDrained_eq_true.mp (h.drained (by simpa using hgone))
    omega
  unfold State.decrement
  rw [State.fault, if_neg (Bool.eq_false_iff.mp hkept)]
  exact ⟨h.accounted, h.finished, fun hgone => absurd hgone (Bool.eq_false_iff.mp hkept), h.pushing,
    h.manager, h.faults⟩

theorem Invariant.step (h : Invariant s) {l : Label} (horderly : Orderly s l)
    (hstep : s.step prober l = some s') : Invariant s' := by
  cases step_cases hstep with
  | start hlock => exact h.start
  | push hlock => exact h.push hlock horderly
  | count hpushing => exact ⟨h.accounted, h.finished, h.drained, nofun, h.manager, h.faults⟩
  | terminate hlock => exact h.terminate
  | destroy hlock =>
    have hidle : s.terminate.pushing = false := by
      unfold State.terminate
      split
      · split <;> exact (lockable_eq_true.mp hlock).2
      · exact (lockable_eq_true.mp hlock).2
    exact ⟨h.terminate.accounted, h.terminate.finished, fun _ => isDrained_terminate.trans horderly,
      fun hpushing => absurd hpushing (Bool.eq_false_iff.mp hidle), fun _ => rfl, h.terminate.faults⟩
  | destroyManager hdestroyed =>
    exact ⟨h.accounted, h.finished, h.drained, h.pushing, fun _ => hdestroyed, h.faults⟩
  | next caller hcaller hwaiting => exact h.next hcaller
  | finish caller hcaller => exact h.finish hcaller
  | delete caller hcaller => exact h.delete hcaller
  | decrement hfreed => exact h.decrement hfreed
  | exit hshutdown hdrained hwaiting =>
    exact ⟨h.accounted, h.finished, h.drained, h.pushing, h.manager, h.faults⟩

/-- In every state that a run reaches whose steps are all orderly, for either kind of queue. -/
theorem sound_run {ls : List Label} (halong : (machine prober).Along Orderly ls)
    (hrun : (machine prober).run ls = some s) : Sound s :=
  (halong.invariant (I := Invariant) invariant_init
    (fun _ _ _ h horderly hstep => h.step horderly hstep) hrun).sound

/-- Two calls of the prober overlap termination; the queue goes when both are handled. -/
def drainedBeforeDestroyed : List Label :=
  [.start, .push, .count, .push, .next 1, .count, .finish 1, .terminate, .delete 1, .decrement,
    .next 0, .finish 0, .delete 0, .decrement, .exit, .destroy, .destroyManager]

theorem sound_drainedBeforeDestroyed :
    ∃ s, (machine true).run drainedBeforeDestroyed = some s ∧ Sound s := by
  obtain ⟨s, hrun⟩ : ∃ s, (machine true).run drainedBeforeDestroyed = some s := ⟨_, rfl⟩
  have halong : (machine true).Along Orderly drainedBeforeDestroyed :=
    ⟨trivial, nofun, trivial, nofun, trivial, trivial, trivial, trivial, trivial, trivial, trivial,
      trivial, trivial, trivial, trivial, rfl, trivial, trivial⟩
  exact ⟨s, hrun, sound_run halong hrun⟩

/-- The queue is destroyed while the call of its only caller is in flight. -/
def destroyedInFlight : List Label :=
  [.start, .push, .count, .terminate, .destroy, .next 0, .finish 0, .delete 0, .decrement]

/-- The same for the prober, whose manager is destroyed next. -/
def managerDestroyedInFlight : List Label :=
  [.start, .push, .count, .terminate, .destroy, .destroyManager, .next 0, .finish 0]

def startedAgain : List Label := [.start, .terminate, .start, .push]

theorem not_sound_destroyedInFlight_startedAgain :
    (∃ s, (machine false).run destroyedInFlight = some s ∧ ¬ Sound s) ∧
      (∃ s, (machine true).run managerDestroyedInFlight = some s ∧ ¬ Sound s) ∧
        ∃ s, (machine false).run startedAgain = some s ∧ ¬ Sound s :=
  ⟨⟨_, rfl, fun h => absurd h.faults (by decide)⟩, ⟨_, rfl, fun h => absurd h.faults (by decide)⟩,
    ⟨_, rfl, fun h => absurd h.faults (by decide)⟩⟩

end AsyncGrpcQueue

end ZenRemote.Server
