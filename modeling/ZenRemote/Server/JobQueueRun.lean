-- SUMMARY: Whole runs of the job queue: who performs which job, and that no wake-up of the worker is lost.
import Mathlib.Data.List.Perm.Lattice
import Mathlib.Data.List.Nodup
import ZenRemote.Lib.Machine
import ZenRemote.Server.JobQueue

/-!
# Runs of the job queue

A job is pushed once, since its pointer is moved into the queue. Between its section under
the lock and its end, a push still has to notify the worker or, after termination, to cancel
the job itself; the thread that terminates the queue still has to notify the worker and to
join it.
-/

namespace ZenRemote.Server

universe u

namespace JobQueue

/-- How far the call of `Terminate` is that has stopped the queue. -/
inductive Terminator where
  | none
  | notifying
  | joining
  | returned
  deriving DecidableEq, Repr

/-- The queue, the threads around it, and the calls of `Perform` so far. -/
structure State (β : Type u) where
  queue : JobQueue β := {}
  /-- The worker, in its wait, is going to take the lock. -/
  notified : Bool := true
  /-- The number of pushes that are about to notify the worker. -/
  notifying : Nat := 0
  /-- The jobs that their pushing threads are about to cancel. -/
  inline : List β := []
  terminator : Terminator := .none
  /-- The jobs pushed so far, and those of them that were enqueued, in the order of the pushes. -/
  pushed : List β := []
  enqueued : List β := []
  /-- The job and the `cancel` argument of each call of `Perform`. -/
  performed : List (β × Bool) := []
  /-- The uncancelled calls that have returned. -/
  returned : List β := []
  deriving DecidableEq, Repr

inductive Label (β : Type u) where
  | push (job : β)
  | notify
  | performInline (job : β)
  | wake
  | wakeSpuriously
  /-- The uncancelled `Perform` returns. -/
  | finish
  | terminate
  | terminateNotify
  | join
  deriving DecidableEq, Repr

/-- A step that some thread takes by itself, once it is in the queue's code. -/
def Label.isInternal {β : Type u} : Label β → Bool
  | .push _ | .terminate | .wakeSpuriously => false
  | _ => true

variable {β : Type u}

namespace State

def push (s : State β) (job : β) : State β :=
  let queue := (s.queue.push job).1
  let cancelled := (s.queue.push job).2
  if s.queue.running then
    { s with
      queue
      notifying := s.notifying + 1
      pushed := s.pushed ++ [job]
      enqueued := s.enqueued ++ [job] }
  else { s with queue, inline := s.inline ++ cancelled, pushed := s.pushed ++ [job] }

/-- The worker has gone through its loop. -/
def after (s : State β) (out : JobQueue β × List β) : State β :=
  { s with
    queue := out.1
    notified := false
    performed := s.performed ++ (out.1.current.toList.map (·, false) ++ out.2.map (·, true)) }

/-- A `Terminate` that finds the queue stopped returns at once. -/
def terminate (s : State β) : State β :=
  if s.queue.running then { s with queue := s.queue.terminate, terminator := .notifying } else s

/-- The jobs performed with `cancel` unset, in the order in which they were begun. -/
def uncancelled (s : State β) : List β := (s.performed.filter fun call => !call.2).map Prod.fst

variable [DecidableEq β]

/-- `cond_.notify_one`, which only reaches a worker that waits. -/
def notifyOne (s : State β) : State β :=
  { s with notified := s.notified || s.queue.worker = .waiting }

def step (s : State β) : Label β → Option (State β)
  | .push job => if job ∈ s.pushed then none else some (s.push job)
  | .notify =>
    if 0 < s.notifying then some { s with notifying := s.notifying - 1 }.notifyOne else none
  | .performInline job =>
    if job ∈ s.inline then
      some { s with inline := s.inline.erase job, performed := s.performed ++ [(job, true)] }
    else none
  | .wake => if s.notified then s.queue.wake.map s.after else none
  | .wakeSpuriously => s.queue.wake.map s.after
  | .finish =>
    s.queue.finish.map { s with returned := s.returned ++ s.queue.current.toList }.after
  | .terminate => some s.terminate
  | .terminateNotify =>
    if s.terminator = .notifying then some { s with terminator := .joining }.notifyOne else none
  | .join =>
    if s.terminator = .joining ∧ s.queue.worker = .exited then
      some { s with terminator := .returned }
    else none

/-- No thread is left inside the queue's code, except for a worker in its wait. -/
def Quiet (s : State β) : Prop := ∀ l : Label β, l.isInternal → s.step l = none

end State

/-- Starts when `StartWorkerThread` returns. -/
def machine (β : Type u) [DecidableEq β] : Machine (State β) (Label β) where
  init := {}
  step := State.step

/-- What a step does. -/
inductive Stepped [DecidableEq β] (s : State β) : Label β → State β → Prop
  | push {job : β} (hnew : job ∉ s.pushed) : Stepped s (.push job) (s.push job)
  | notify (hnotifying : 0 < s.notifying) :
      Stepped s .notify { s with notifying := s.notifying - 1 }.notifyOne
  | performInline {job : β} (hjob : job ∈ s.inline) :
      Stepped s (.performInline job)
        { s with inline := s.inline.erase job, performed := s.performed ++ [(job, true)] }
  | wake (hnotified : s.notified) (hworker : s.queue.worker = .waiting) :
      Stepped s .wake (s.after s.queue.resume)
  | wakeSpuriously (hworker : s.queue.worker = .waiting) : Stepped s .wakeSpuriously (s.after s.queue.resume)
  | finish {job : β} (hworker : s.queue.worker = .performing job) :
      Stepped s .finish ({ s with returned := s.returned ++ s.queue.current.toList }.after
        { s.queue with queue := s.queue.queue.tail }.resume)
  | terminate : Stepped s .terminate s.terminate
  | terminateNotify (hterminator : s.terminator = .notifying) :
      Stepped s .terminateNotify { s with terminator := .joining }.notifyOne
  | join (hterminator : s.terminator = .joining) (hexited : s.queue.worker = .exited) :
      Stepped s .join { s with terminator := .returned }

variable {s s' : State β}

theorem wake_eq_some {q : JobQueue β} {out : JobQueue β × List β} (h : q.wake = some out) :
    q.worker = .waiting ∧ out = q.resume := by
  unfold wake at h
  split at h
  · rename_i hworker
    exact ⟨hworker, (Option.some.inj h).symm⟩
  · cases h

theorem finish_eq_some {q : JobQueue β} {out : JobQueue β × List β} (h : q.finish = some out) :
    ∃ job, q.worker = .performing job ∧ out = { q with queue := q.queue.tail }.resume := by
  unfold finish at h
  split at h
  · rename_i job hworker
    exact ⟨job, hworker, (Option.some.inj h).symm⟩
  · cases h

theorem step_cases [DecidableEq β] {l : Label β} (hstep : s.step l = some s') : Stepped s l s' := by
  cases l with
  | push job =>
    obtain ⟨hnew, hs'⟩ := Option.ite_none_left_eq_some.mp hstep
    exact Option.some.inj hs' ▸ .push hnew
  | notify =>
    obtain ⟨hnotifying, hs'⟩ := Option.ite_none_right_eq_some.mp hstep
    exact Option.some.inj hs' ▸ .notify hnotifying
  | performInline job =>
    obtain ⟨hjob, hs'⟩ := Option.ite_none_right_eq_some.mp hstep
    exact Option.some.inj hs' ▸ .performInline hjob
  | wake =>
    obtain ⟨hnotified, hs'⟩ := Option.ite_none_right_eq_some.mp hstep
    obtain ⟨out, hwake, rfl⟩ := Option.map_eq_some_iff.mp hs'
    obtain ⟨hworker, rfl⟩ := wake_eq_some hwake
    exact .wake hnotified hworker
  | wakeSpuriously =>
    obtain ⟨out, hwake, rfl⟩ := Option.map_eq_some_iff.mp hstep
    obtain ⟨hworker, rfl⟩ := wake_eq_some hwake
    exact .wakeSpuriously hworker
  | finish =>
    obtain ⟨out, hfinish, rfl⟩ := Option.map_eq_some_iff.mp hstep
    obtain ⟨job, hworker, rfl⟩ := finish_eq_some hfinish
    exact .finish hworker
  | terminate => exact Option.some.inj hstep ▸ .terminate
  | terminateNotify =>
    obtain ⟨hterminator, hs'⟩ := Option.ite_none_right_eq_some.mp hstep
    exact Option.some.inj hs' ▸ .terminateNotify hterminator
  | join =>
    obtain ⟨⟨hterminator, hexited⟩, hs'⟩ := Option.ite_none_right_eq_some.mp hstep
    exact Option.some.inj hs' ▸ .join hterminator hexited

-- ---------------------------------------------------------------------------
-- What a section of the worker does
-- ---------------------------------------------------------------------------

/-- The jobs in the queue that have not been begun. -/
def pending (q : JobQueue β) : List β := q.queue.drop q.current.toList.length

theorem resume_cases (q : JobQueue β) :
    (q.running ∧ q.queue = [] ∧ q.resume = ({ q with worker := .waiting }, [])) ∨
      (∃ job rest, q.running ∧ q.queue = job :: rest ∧
        q.resume = ({ q with worker := .performing job }, [])) ∨
      (q.running = false ∧ q.resume = ({ q with queue := [], worker := .exited }, q.queue)) := by
  unfold resume
  split
  · rename_i hrunning
    cases hqueue : q.queue with
    | nil => exact .inl ⟨hrunning, rfl, rfl⟩
    | cons job rest => exact .inr (.inl ⟨job, rest, hrunning, rfl, rfl⟩)
  · rename_i hstopped
    exact .inr (.inr ⟨by simpa using hstopped, rfl⟩)

/-- Every job of the queue is begun, cancelled or left. -/
theorem queue_eq_resume (q : JobQueue β) :
    q.resume.1.current.toList ++ q.resume.2 ++ q.resume.1.pending = q.queue := by
  obtain ⟨-, hqueue, hresume⟩ | ⟨job, rest, -, hqueue, hresume⟩ | ⟨-, hresume⟩ := q.resume_cases
  · simp [hresume, pending, current, hqueue]
  · simp [hresume, pending, current, hqueue]
  · simp [hresume, pending, current]

/-- What the queue holds is left in it or cancelled. -/
theorem queue_append_resume (q : JobQueue β) : q.resume.1.queue ++ q.resume.2 = q.queue := by
  obtain ⟨-, -, hresume⟩ | ⟨_, _, -, -, hresume⟩ | ⟨-, hresume⟩ := q.resume_cases <;>
    simp [hresume]

theorem running_resume (q : JobQueue β) : q.resume.1.running = q.running := by
  obtain ⟨-, -, hresume⟩ | ⟨_, _, -, -, hresume⟩ | ⟨-, hresume⟩ := q.resume_cases <;> rw [hresume]

/-- A worker that goes back to its wait has found nothing to do. -/
theorem waiting_resume {q : JobQueue β} (h : q.resume.1.worker = .waiting) :
    q.resume.1.queue = [] ∧ q.running := by
  obtain ⟨hrunning, hqueue, hresume⟩ | ⟨job, rest, -, -, hresume⟩ | ⟨-, hresume⟩ := q.resume_cases
  · rw [hresume]
    exact ⟨hqueue, hrunning⟩
  · rw [hresume] at h
    cases h
  · rw [hresume] at h
    cases h

theorem exited_resume {q : JobQueue β} (h : q.resume.1.worker = .exited) :
    q.resume.1.queue = [] := by
  obtain ⟨-, -, hresume⟩ | ⟨job, rest, -, -, hresume⟩ | ⟨-, hresume⟩ := q.resume_cases
  · rw [hresume] at h
    cases h
  · rw [hresume] at h
    cases h
  · rw [hresume]

/-- What the threads in the queue's code still have to do. -/
def measure (s : State β) : Nat :=
  2 * s.notifying + s.inline.length + 2 * s.queue.queue.length + s.notified.toNat +
    match s.terminator with
    | .notifying => 3
    | .joining => 1
    | .none | .returned => 0

theorem measure_after (s : State β) (q : JobQueue β) :
    measure (s.after q.resume) + 2 * (s.queue.queue.length + q.resume.2.length) + s.notified.toNat =
      measure s + 2 * q.queue.length := by
  have hlength := congrArg List.length q.queue_append_resume
  rw [List.length_append] at hlength
  simp only [measure, State.after, Bool.toNat_false]
  omega

-- ---------------------------------------------------------------------------
-- What a push does
-- ---------------------------------------------------------------------------

theorem push_of_running {job : β} (hrunning : s.queue.running) :
    s.push job = { s with
      queue := { s.queue with queue := s.queue.queue ++ [job] }
      notifying := s.notifying + 1
      pushed := s.pushed ++ [job]
      enqueued := s.enqueued ++ [job] } := by
  simp [State.push, JobQueue.push, hrunning]

theorem push_of_stopped {job : β} (hstopped : ¬ s.queue.running) :
    s.push job = { s with inline := s.inline ++ [job], pushed := s.pushed ++ [job] } := by
  simp [State.push, JobQueue.push, hstopped]

-- ---------------------------------------------------------------------------
-- The invariant
-- ---------------------------------------------------------------------------

/-- Every job pushed is performed, waits in the queue or is about to be cancelled by the
thread that pushed it; and a worker that waits unnotified has nothing to do, unless
somebody is about to notify it. -/
structure Invariant (s : State β) : Prop where
  order : s.queue.InPushOrder s.enqueued s.uncancelled
  serial : s.uncancelled = s.returned ++ s.queue.current.toList
  accounted : (s.performed.map Prod.fst ++ s.queue.pending ++ s.inline).Perm s.pushed
  distinct : s.pushed.Nodup
  enqueued : s.enqueued <+: s.pushed
  running : s.queue.running → s.enqueued = s.pushed
  exited : s.queue.worker = .exited → s.queue.queue = []
  awake : s.queue.worker = .waiting → s.notified = false →
    (s.queue.queue = [] ∨ 0 < s.notifying) ∧ (s.queue.running ∨ s.terminator = .notifying)
  terminator : s.queue.running ↔ s.terminator = .none
  returned : s.terminator = .returned → s.queue.worker = .exited

theorem invariant_init : Invariant ({} : State β) where
  order := inPushOrder_new
  serial := rfl
  accounted := List.Perm.refl _
  distinct := List.nodup_nil
  enqueued := List.prefix_refl _
  running := fun _ => rfl
  exited := nofun
  awake := nofun
  terminator := ⟨fun _ => rfl, fun _ => rfl⟩
  returned := nofun

theorem uncancelled_after (s : State β) (out : JobQueue β × List β) :
    (s.after out).uncancelled = s.uncancelled ++ out.1.current.toList := by
  simp [State.after, State.uncancelled, List.filter_append, List.filter_map, Function.comp_def]

/-- The worker goes through its loop with `q`, whose front is not a job it has begun. -/
theorem Invariant.after (h : Invariant s) {q : JobQueue β} {returned : List β}
    (horder : q.resume.1.InPushOrder s.enqueued
      (s.uncancelled ++ q.resume.1.current.toList))
    (hserial : s.uncancelled = returned) (hqueue : q.queue = s.queue.pending)
    (hrunning : q.running = s.queue.running) (hexited : s.queue.worker ≠ .exited) :
    Invariant ({ s with returned := returned }.after q.resume) where
  order := by
    rw [uncancelled_after]
    exact horder
  serial := by
    rw [uncancelled_after]
    exact congrArg (· ++ _) hserial
  accounted := by
    have hbegun : ((q.resume.1.current.toList.map (·, false)) ++ q.resume.2.map (·, true)).map Prod.fst =
        q.resume.1.current.toList ++ q.resume.2 := by
      simp [Function.comp_def]
    have hsplit := q.queue_eq_resume
    rw [hqueue] at hsplit
    show (((s.performed ++ _).map Prod.fst ++ q.resume.1.pending) ++ s.inline).Perm _
    rw [List.map_append, hbegun, List.append_assoc, ← List.append_assoc, List.append_assoc (s.performed.map Prod.fst), hsplit]
    exact h.accounted
  distinct := h.distinct
  enqueued := h.enqueued
  running := fun hrun => h.running (hrunning ▸ q.running_resume ▸ hrun)
  exited := exited_resume
  awake := by
    intro hwaiting _
    obtain ⟨hempty, hrun⟩ := waiting_resume hwaiting
    exact ⟨.inl hempty, .inl (q.running_resume.trans hrun)⟩
  terminator := by
    show q.resume.1.running ↔ _
    rw [q.running_resume, hrunning]
    exact h.terminator
  returned := fun hreturned => absurd (h.returned hreturned) hexited

theorem Invariant.resumed (h : Invariant s) (hworker : s.queue.worker = .waiting) :
    Invariant (s.after s.queue.resume) := by
  have hwake : s.queue.wake = some s.queue.resume := by simp [wake, hworker]
  have hserial : s.uncancelled = s.returned := by
    simpa [current, hworker] using h.serial
  exact h.after (h.order.wake hwake) hserial (by simp [pending, current, hworker]) rfl (by simp [hworker])

theorem Invariant.finished (h : Invariant s) {job : β} (hworker : s.queue.worker = .performing job) :
    Invariant ({ s with returned := s.returned ++ s.queue.current.toList }.after
      { s.queue with queue := s.queue.queue.tail }.resume) := by
  have hfinish : s.queue.finish = some { s.queue with queue := s.queue.queue.tail }.resume := by
    simp [finish, hworker]
  exact h.after (h.order.finish hfinish) h.serial (by simp [pending, current, hworker]) rfl (by simp [hworker])

theorem Invariant.queue_of_performing (h : Invariant s) {job : β}
    (hworker : s.queue.worker = .performing job) : ∃ rest, s.queue.queue = job :: rest := by
  obtain ⟨rest, hqueue, -, -⟩ := h.order.pending (by simp [hworker])
  exact ⟨rest, by simpa [current, hworker] using hqueue⟩

theorem Invariant.push (h : Invariant s) {job : β} (hnew : job ∉ s.pushed) :
    Invariant (s.push job) := by
  have hdistinct : (s.pushed ++ [job]).Nodup :=
    h.distinct.append (List.nodup_singleton job) (List.disjoint_singleton.mpr hnew)
  have horder := h.order.push job
  by_cases hrunning : s.queue.running
  · have hqueue : (s.queue.push job).1 = { s.queue with queue := s.queue.queue ++ [job] } := by
      simp [JobQueue.push, hrunning]
    have hall := h.running hrunning
    have hlength : s.queue.current.toList.length ≤ s.queue.queue.length := by
      cases hworker : s.queue.worker with
      | waiting | exited => simp [current, hworker]
      | performing job =>
        obtain ⟨rest, hrest⟩ := h.queue_of_performing hworker
        simp [current, hworker, hrest]
    rw [push_of_running hrunning]
    rw [hqueue] at horder
    refine ⟨horder, h.serial, ?_, hdistinct, ?_, fun _ => congrArg (· ++ [job]) hall, ?_, ?_,
      h.terminator, h.returned⟩
    · have hpending : ({ s.queue with queue := s.queue.queue ++ [job] } : JobQueue β).pending =
          s.queue.pending ++ [job] := List.drop_append_of_le_length hlength
      rw [hpending, ← List.append_assoc]
      refine List.Perm.trans ?_ (h.accounted.append_right _)
      simp only [List.append_assoc]
      exact (List.perm_append_comm.append_left _).append_left _
    · exact congrArg (· ++ [job]) hall ▸ List.prefix_refl _
    · intro hexited
      exact absurd hrunning (by simp [h.order.stopped hexited])
    · exact fun hwaiting hnotified => ⟨.inr (Nat.succ_pos _), (h.awake hwaiting hnotified).2⟩
  · have hqueue : (s.queue.push job).1 = s.queue := by
      simp [JobQueue.push, hrunning]
    rw [push_of_stopped hrunning]
    rw [hqueue] at horder
    refine ⟨h.order, h.serial, ?_, hdistinct, h.enqueued.trans (List.prefix_append _ _),
      fun hrun => absurd hrun hrunning, h.exited, h.awake, h.terminator, h.returned⟩
    rw [← List.append_assoc]
    exact h.accounted.append_right _

theorem Invariant.terminate (h : Invariant s) : Invariant s.terminate := by
  unfold State.terminate
  split
  · rename_i hrunning
    refine ⟨h.order.terminate, h.serial, h.accounted, h.distinct, h.enqueued, nofun, h.exited, ?_,
      ⟨nofun, nofun⟩, nofun⟩
    exact fun hwaiting hnotified => ⟨(h.awake hwaiting hnotified).1, .inr rfl⟩
  · exact h

theorem Invariant.join (h : Invariant s) (hterminator : s.terminator = .joining)
    (hexited : s.queue.worker = .exited) : Invariant { s with terminator := .returned } := by
  have hstopped : ¬ s.queue.running := by
    rw [h.terminator, hterminator]
    exact nofun
  exact ⟨h.order, h.serial, h.accounted, h.distinct, h.enqueued, h.running, h.exited,
    fun hwaiting => absurd (hexited.symm.trans hwaiting) nofun,
    ⟨fun hrun => absurd hrun hstopped, nofun⟩, fun _ => hexited⟩

theorem Invariant.nodup_performed (h : Invariant s) : (s.performed.map Prod.fst).Nodup := by
  have hnodup := h.accounted.nodup_iff.mpr h.distinct
  rw [List.append_assoc] at hnodup
  exact hnodup.of_append_left

theorem Invariant.performed_subset (h : Invariant s) {job : β}
    (hjob : job ∈ s.performed.map Prod.fst) : job ∈ s.pushed :=
  h.accounted.subset (List.mem_append_left _ (List.mem_append_left _ hjob))

variable [DecidableEq β] {l : Label β}

theorem Invariant.notify (h : Invariant s) :
    Invariant { s with notifying := s.notifying - 1 }.notifyOne := by
  refine ⟨h.order, h.serial, h.accounted, h.distinct, h.enqueued, h.running, h.exited, ?_, h.terminator, h.returned⟩
  intro hwaiting hnotified
  simp [State.notifyOne, show s.queue.worker = .waiting from hwaiting] at hnotified

theorem Invariant.performInline (h : Invariant s) {job : β} (hjob : job ∈ s.inline) :
    Invariant { s with
      inline := s.inline.erase job, performed := s.performed ++ [(job, true)] } := by
  have huncancelled : ({ s with
      inline := s.inline.erase job, performed := s.performed ++ [(job, true)] } : State β).uncancelled =
        s.uncancelled := by
    simp [State.uncancelled, List.filter_append]
  refine ⟨?_, huncancelled.trans h.serial, ?_, h.distinct, h.enqueued, h.running, h.exited, h.awake, h.terminator, h.returned⟩
  · rw [huncancelled]
    exact h.order
  · refine List.Perm.trans ?_ h.accounted
    simp only [List.map_append, List.map_cons, List.map_nil, List.append_assoc]
    refine List.Perm.append_left _ ?_
    exact (List.perm_append_comm_assoc ..).trans
      (List.Perm.append_left _ (List.perm_cons_erase hjob).symm)

theorem Invariant.terminateNotify (h : Invariant s) (hterminator : s.terminator = .notifying) :
    Invariant { s with terminator := .joining }.notifyOne := by
  have hstopped : ¬ s.queue.running := by
    rw [h.terminator, hterminator]
    exact nofun
  refine ⟨h.order, h.serial, h.accounted, h.distinct, h.enqueued, h.running, h.exited, ?_,
    ⟨fun hrun => absurd hrun hstopped, nofun⟩, nofun⟩
  intro hwaiting hnotified
  simp [State.notifyOne, show s.queue.worker = .waiting from hwaiting] at hnotified

theorem Invariant.step (h : Invariant s) (hstep : s.step l = some s') : Invariant s' := by
  cases step_cases hstep with
  | push hnew => exact h.push hnew
  | notify _ => exact h.notify
  | performInline hjob => exact h.performInline hjob
  | wake _ hworker | wakeSpuriously hworker => exact h.resumed hworker
  | finish hworker => exact h.finished hworker
  | terminate => exact h.terminate
  | terminateNotify hterminator => exact h.terminateNotify hterminator
  | join hterminator hexited => exact h.join hterminator hexited

-- ---------------------------------------------------------------------------
-- No thread is stuck
-- ---------------------------------------------------------------------------

theorem measure_notifyOne (s : State β) : measure s.notifyOne ≤ measure s + 1 := by
  have hnotified := Bool.toNat_le (s.notified || s.queue.worker = .waiting)
  simp only [measure, State.notifyOne]
  omega

theorem Invariant.measure_lt (h : Invariant s) (hl : l.isInternal) (hstep : s.step l = some s') :
    measure s' < measure s := by
  cases step_cases hstep with
  | push _ | terminate | wakeSpuriously _ => cases hl
  | notify hnotifying =>
    refine Nat.lt_of_le_of_lt (measure_notifyOne _) ?_
    simp only [measure]
    omega
  | performInline hjob =>
    have hlength := List.length_erase_of_mem hjob
    have hpos := List.length_pos_of_mem hjob
    simp only [measure]
    omega
  | wake hnotified _ =>
    have hle := measure_after s s.queue
    rw [hnotified, Bool.toNat_true] at hle
    omega
  | finish hworker =>
    obtain ⟨rest, hqueue⟩ := h.queue_of_performing hworker
    have hle := measure_after { s with returned := s.returned ++ s.queue.current.toList }
      { s.queue with queue := s.queue.queue.tail }
    have hsame : measure { s with returned := s.returned ++ s.queue.current.toList } = measure s := rfl
    rw [hsame] at hle
    simp only [hqueue, List.tail_cons, List.length_cons] at hle ⊢
    omega
  | terminateNotify hterminator =>
    refine Nat.lt_of_le_of_lt (measure_notifyOne _) ?_
    simp only [measure, hterminator]
    omega
  | join hterminator _ =>
    simp only [measure, hterminator]
    omega

/-- When everything has come to rest, the queue is empty and nobody is left to cancel a job. -/
theorem Invariant.pending_of_quiet (h : Invariant s) (hquiet : s.Quiet) :
    s.queue.pending = [] ∧ s.inline = [] := by
  have hnotifying : s.notifying = 0 := by
    by_contra hne
    have hnone := hquiet .notify rfl
    simp [State.step, Nat.pos_of_ne_zero hne] at hnone
  have hterminator : s.terminator ≠ .notifying := by
    intro heq
    have hnone := hquiet .terminateNotify rfl
    simp [State.step, heq] at hnone
  constructor
  · cases hworker : s.queue.worker with
    | exited => simp [pending, h.exited hworker]
    | performing job =>
      have hnone := hquiet .finish rfl
      simp [State.step, finish, hworker] at hnone
    | waiting =>
      have hnotified : s.notified = false := by
        have hnone := hquiet .wake rfl
        simpa [State.step, wake, hworker] using hnone
      have hempty := (h.awake hworker hnotified).1.resolve_right (by omega)
      simp [pending, hempty]
  · by_contra hne
    obtain ⟨job, hjob⟩ := List.exists_mem_of_ne_nil _ hne
    have hnone := hquiet (.performInline job) rfl
    simp [State.step, hjob] at hnone

-- ---------------------------------------------------------------------------
-- What the queue promises
-- ---------------------------------------------------------------------------

/-- No job is performed twice, and each has been performed when everything has come to rest,
which is never more than finitely many steps away. The jobs that are not cancelled are a
prefix of those enqueued before termination, begun one after another and each at the front
of the queue. -/
structure PerformsOnce (s : State β) : Prop where
  once : (s.performed.map Prod.fst).Nodup
  onlyPushed : ∀ job ∈ s.performed.map Prod.fst, job ∈ s.pushed
  settles : ∃ ls s', (∀ l ∈ ls, Label.isInternal l) ∧ (machine β).runFrom s ls = some s' ∧ s'.Quiet
  bounded : ∀ ls s', (∀ l ∈ ls, Label.isInternal l) → (machine β).runFrom s ls = some s' →
    ls.length ≤ measure s
  quiet : s.Quiet → ∀ job ∈ s.pushed, job ∈ s.performed.map Prod.fst
  enqueued : s.enqueued <+: s.pushed ∧ (s.terminator = .none → s.enqueued = s.pushed)
  inOrder : s.uncancelled <+: s.enqueued
  oneByOne : s.uncancelled = s.returned ++ s.queue.current.toList
  late : ∀ job cancel, job ∉ s.enqueued → (job, cancel) ∈ s.performed → cancel = true
  front : ∀ job, s.queue.worker = .performing job → s.queue.queue.head? = some job
  terminated : s.terminator = .returned → s.queue.queue = []

theorem Invariant.performsOnce (h : Invariant s) : PerformsOnce s where
  once := h.nodup_performed
  onlyPushed := fun _ => h.performed_subset
  settles := Machine.exists_settled (P := fun l : Label β => l.isInternal)
    (fun _ _ _ h hl hstep => ⟨h.step hstep, h.measure_lt hl hstep⟩) h
  bounded := fun _ _ => Machine.length_le_of_measure (P := fun l : Label β => l.isInternal)
    (fun _ _ _ h hl hstep => ⟨h.step hstep, h.measure_lt hl hstep⟩) h
  quiet := by
    intro hquiet job hjob
    obtain ⟨hpending, hinline⟩ := h.pending_of_quiet hquiet
    have hmem := h.accounted.symm.subset hjob
    simpa only [hpending, hinline, List.append_nil] using hmem
  enqueued := ⟨h.enqueued, fun hterminator => h.running (h.terminator.mpr hterminator)⟩
  inOrder := h.order.begun
  oneByOne := h.serial
  late := by
    intro job cancel hlate hmem
    by_contra huncancelled
    rw [Bool.not_eq_true] at huncancelled
    subst huncancelled
    have hbegun : job ∈ s.uncancelled :=
      List.mem_map.mpr ⟨(job, false), List.mem_filter.mpr ⟨hmem, rfl⟩, rfl⟩
    exact hlate (h.order.begun.subset hbegun)
  front := by
    intro job hworker
    obtain ⟨rest, hqueue⟩ := h.queue_of_performing hworker
    rw [hqueue, List.head?_cons]
  terminated := fun hreturned => h.exited (h.returned hreturned)

theorem terminator_step (hreturned : s.terminator = .returned) (hinv : Invariant s)
    (hstep : s.step l = some s') : s'.terminator = .returned := by
  cases step_cases hstep with
  | push _ =>
    unfold State.push
    split <;> exact hreturned
  | terminate =>
    unfold State.terminate
    split
    · rename_i hrunning
      exact absurd (hinv.terminator.mp hrunning) (by simp [hreturned])
    · exact hreturned
  | notify _ | performInline _ | wake _ _ | wakeSpuriously _ | finish _ => exact hreturned
  | terminateNotify hterminator => exact absurd (hreturned.symm.trans hterminator) nofun
  | join _ _ => rfl

/-- After `Terminate` has returned, no job is performed uncancelled. -/
theorem Invariant.uncancelled_step (h : Invariant s) (hreturned : s.terminator = .returned)
    (hstep : s.step l = some s') : s'.uncancelled = s.uncancelled := by
  have hexited := h.returned hreturned
  cases step_cases hstep with
  | push _ =>
    unfold State.push
    split <;> rfl
  | notify _ | terminateNotify _ | join _ _ => rfl
  | performInline _ => simp [State.uncancelled]
  | wake _ hworker | wakeSpuriously hworker | finish hworker =>
    exact absurd (hexited.symm.trans hworker) nofun
  | terminate =>
    unfold State.terminate
    split <;> rfl

theorem invariant_run {ls : List (Label β)} (hrun : (machine β).run ls = some s) : Invariant s :=
  Machine.run_invariant invariant_init (fun _ _ _ h hstep => h.step hstep) hrun

/-- In every state that is reached; and once `Terminate` has returned, the queue stays empty. -/
theorem performsOnce_run {ls : List (Label β)} (hrun : (machine β).run ls = some s) :
    PerformsOnce s ∧ (s.terminator = .returned →
      ∀ ls' s', (machine β).runFrom s ls' = some s' → s'.queue.queue = []) := by
  have h := invariant_run hrun
  refine ⟨h.performsOnce, fun hreturned ls' s' hrun' => ?_⟩
  have hlater := Machine.runFrom_invariant (I := fun s => Invariant s ∧ s.terminator = .returned)
    (fun _ _ _ hs hstep => ⟨hs.1.step hstep, terminator_step hs.2 hs.1 hstep⟩) ⟨h, hreturned⟩ hrun'
  exact hlater.1.performsOnce.terminated hlater.2

/-- One job is performed while the queue is terminated, one is cancelled by the worker, and
one by its pushing thread. -/
def terminatedWhilePerforming : List (Label Nat) :=
  [.push 0, .notify, .wake, .push 1, .terminate, .push 2, .notify, .terminateNotify, .finish,
    .join, .performInline 2]

theorem performsOnce_terminatedWhilePerforming :
    ∃ s, (machine Nat).run terminatedWhilePerforming = some s ∧
      s.performed = [(0, false), (1, true), (2, true)] ∧ s.terminator = .returned ∧ PerformsOnce s ∧
        (s.terminator = .returned →
          ∀ ls' s', (machine Nat).runFrom s ls' = some s' → s'.queue.queue = []) :=
  ⟨_, rfl, rfl, rfl, performsOnce_run (rfl : (machine Nat).run terminatedWhilePerforming = some _)⟩

end JobQueue

end ZenRemote.Server
