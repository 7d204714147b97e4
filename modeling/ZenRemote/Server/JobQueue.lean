-- SUMMARY: The server's job queue: its worker thread, pushes from any thread, and termination, one mutex section a step.

/-!
# The job queue

One worker thread performs the jobs in the order in which they were pushed. It
leaves a job at the front of the queue while it performs it, with the lock
released. Every function below is one section under `queue_mtx_`; a section
returns the jobs it cancels.
-/

namespace ZenRemote.Server

universe u

/-- Where the worker thread of a `JobQueue` is. -/
inductive Worker (β : Type u) where
  /-- In `cond_.wait`. -/
  | waiting
  /-- In `job->Perform(false)`. -/
  | performing (job : β)
  /-- The thread function has returned. -/
  | exited
  deriving DecidableEq, Repr

/-- A queue whose worker thread has been started. -/
structure JobQueue (β : Type u) where
  queue : List β := []
  running : Bool := true
  worker : Worker β := .waiting
  deriving DecidableEq, Repr

namespace JobQueue

variable {β : Type u}

/-- After termination a job is cancelled by the pushing thread itself. -/
def push (q : JobQueue β) (job : β) : JobQueue β × List β :=
  if q.running then ({ q with queue := q.queue ++ [job] }, []) else (q, [job])

/-- The worker holds the lock at the wait: it goes on waiting, takes the front
job, or leaves the loop and cancels what is left. -/
def resume (q : JobQueue β) : JobQueue β × List β :=
  if q.running then
    match q.queue with
    | [] => ({ q with worker := .waiting }, [])
    | job :: _ => ({ q with worker := .performing job }, [])
  else ({ q with queue := [], worker := .exited }, q.queue)

/-- The worker is woken in `cond_.wait`, by a notification or spuriously. -/
def wake (q : JobQueue β) : Option (JobQueue β × List β) :=
  match q.worker with
  | .waiting => some q.resume
  | _ => none

/-- `Perform` has returned: the worker takes the lock, pops the job and loops. -/
def finish (q : JobQueue β) : Option (JobQueue β × List β) :=
  match q.worker with
  | .performing _ => some { q with queue := q.queue.tail }.resume
  | _ => none

/-- The section of `Terminate`. What follows it joins the worker. -/
def terminate (q : JobQueue β) : JobQueue β := { q with running := false }

/-- The job the worker has just begun, after `resume`. -/
def current (q : JobQueue β) : Option β :=
  match q.worker with
  | .performing job => some job
  | _ => none

-- ---------------------------------------------------------------------------
-- Order
-- ---------------------------------------------------------------------------

/-- How the queue stands to the jobs pushed so far and those begun so far: what
has been begun and what waits behind it are a prefix of what was pushed, and all
of it as long as the queue runs. -/
structure InPushOrder (pushed begun : List β) (q : JobQueue β) : Prop where
  pending : q.worker ≠ .exited →
    ∃ rest, q.queue = q.current.toList ++ rest ∧ begun ++ rest <+: pushed ∧
      (q.running → begun ++ rest = pushed)
  begun : begun <+: pushed
  stopped : q.worker = .exited → q.running = false

theorem inPushOrder_new : InPushOrder [] [] ({} : JobQueue β) :=
  ⟨fun _ => ⟨[], rfl, List.prefix_refl _, fun _ => rfl⟩, List.prefix_refl _, nofun⟩

theorem InPushOrder.push {pushed begun : List β} {q : JobQueue β} (h : InPushOrder pushed begun q)
    (job : β) : InPushOrder (pushed ++ [job]) begun (q.push job).1 := by
  have hbegun := h.begun.trans (List.prefix_append pushed [job])
  unfold JobQueue.push
  split
  · rename_i hrunning
    refine ⟨fun hne => ?_, hbegun, h.stopped⟩
    obtain ⟨rest, hqueue, -, hall⟩ := h.pending hne
    have hpushed : begun ++ (rest ++ [job]) = pushed ++ [job] := by
      rw [← List.append_assoc, hall hrunning]
    refine ⟨rest ++ [job], ?_, hpushed ▸ List.prefix_refl _, fun _ => hpushed⟩
    show q.queue ++ [job] = q.current.toList ++ (rest ++ [job])
    rw [hqueue, List.append_assoc]
  · rename_i hstopped
    refine ⟨fun hne => ?_, hbegun, h.stopped⟩
    obtain ⟨rest, hqueue, hpre, -⟩ := h.pending hne
    exact ⟨rest, hqueue, hpre.trans (List.prefix_append _ _), fun hr => absurd hr hstopped⟩

theorem InPushOrder.terminate {pushed begun : List β} {q : JobQueue β}
    (h : InPushOrder pushed begun q) : InPushOrder pushed begun q.terminate := by
  refine ⟨fun hne => ?_, h.begun, fun _ => rfl⟩
  obtain ⟨rest, hqueue, hpre, -⟩ := h.pending hne
  exact ⟨rest, hqueue, hpre, fun hr => absurd hr (by simp [JobQueue.terminate])⟩

/-- The worker holds the lock and the front job, if it had one, is popped. -/
theorem inPushOrder_resume {pushed begun : List β} {q : JobQueue β}
    (hpre : begun ++ q.queue <+: pushed) (hall : q.running → begun ++ q.queue = pushed) :
    InPushOrder pushed (begun ++ q.resume.1.current.toList) q.resume.1 := by
  have hbegun : begun <+: pushed := (List.prefix_append _ _).trans hpre
  unfold resume
  split
  · rename_i hrunning
    cases hq : q.queue with
    | nil =>
      rw [hq] at hpre hall
      refine ⟨fun _ => ⟨[], rfl, ?_, ?_⟩, ?_, nofun⟩
      · simpa [current] using hpre
      · simpa [current] using hall
      · simpa [current] using hbegun
    | cons job rest =>
      rw [hq] at hpre hall
      refine ⟨fun _ => ⟨rest, rfl, ?_, ?_⟩, ?_, nofun⟩
      · simpa [current] using hpre
      · simpa [current] using hall
      · refine List.IsPrefix.trans ?_ hpre
        exact ⟨rest, by simp [current]⟩
  · rename_i hstopped
    refine ⟨fun hne => absurd rfl hne, by simpa [current] using hbegun, fun _ => ?_⟩
    simpa using hstopped

theorem InPushOrder.wake {pushed begun : List β} {q : JobQueue β} {out : JobQueue β × List β}
    (h : InPushOrder pushed begun q) (hwake : q.wake = some out) :
    InPushOrder pushed (begun ++ out.1.current.toList) out.1 := by
  unfold JobQueue.wake at hwake
  split at hwake
  · rename_i hworker
    obtain rfl := Option.some.inj hwake
    obtain ⟨rest, hqueue, hpre, hall⟩ := h.pending (by simp [hworker])
    have hrest : q.queue = rest := by simpa [current, hworker] using hqueue
    exact inPushOrder_resume (hrest ▸ hpre) (hrest ▸ hall)
  · contradiction

theorem InPushOrder.finish {pushed begun : List β} {q : JobQueue β} {out : JobQueue β × List β}
    (h : InPushOrder pushed begun q) (hfinish : q.finish = some out) :
    InPushOrder pushed (begun ++ out.1.current.toList) out.1 := by
  unfold JobQueue.finish at hfinish
  split at hfinish
  · rename_i job hworker
    obtain rfl := Option.some.inj hfinish
    obtain ⟨rest, hqueue, hpre, hall⟩ := h.pending (by simp [hworker])
    have hrest : q.queue.tail = rest := by simp [hqueue, current, hworker]
    exact inPushOrder_resume (q := { q with queue := q.queue.tail }) (hrest ▸ hpre) (hrest ▸ hall)
  · contradiction

end JobQueue

end ZenRemote.Server
