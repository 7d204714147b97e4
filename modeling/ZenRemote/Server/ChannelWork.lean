-- SUMMARY: The jobs of a server channel, the closures they perform, and the client buffers that the closures own.
import ZenRemote.Server.JobQueueRun

/-!
# The work of a channel

An API call puts its arguments into a closure, and the closure into a job. A client buffer
among the arguments is owned by the closure: it is destroyed with it, when the job is popped
or cancelled by its pushing thread, or at once when the channel has gone before the push.
The destructor of a buffer writes to a pipe, and the loop then releases the data.
-/

namespace ZenRemote.Server

/-- The buffers that API calls have been given, each with the number of its call. -/
structure Buffers where
  created : List Nat := []
  /-- The event sources that are registered with the loop. -/
  sources : List Nat := []
  /-- The destructor has run, and a byte is in the pipe. -/
  destroyed : List Nat := []
  /-- `on_release` has been called. -/
  released : List Nat := []
  /-- Reads of `data()` after the destruction. -/
  lateReads : List Nat := []
  deriving DecidableEq, Repr

namespace Buffers

def create (b : Buffers) (n : Nat) : Buffers :=
  { b with created := b.created ++ [n], sources := b.sources ++ [n] }

/-- The closure of call `n` reads the data of its buffer, if it has one. -/
def read (b : Buffers) (n : Nat) : Buffers :=
  if n ∈ b.created ∧ n ∈ b.destroyed then { b with lateReads := b.lateReads ++ [n] } else b

def destroy (b : Buffers) (n : Nat) : Buffers :=
  if n ∈ b.created then { b with destroyed := b.destroyed ++ [n] } else b

/-- The loop finds the pipe readable. The callback releases the data and removes its source. -/
def dispatch (b : Buffers) (n : Nat) : Option Buffers :=
  if n ∈ b.sources ∧ n ∈ b.destroyed then
    some { b with sources := b.sources.erase n, released := b.released ++ [n] }
  else none

end Buffers

/-- How far the worker is in the closure of the job in its hands. -/
inductive Progress where
  | entered
  /-- `channel_weak.lock()` has succeeded. -/
  | locked
  /-- The request is built, with the data of the buffer. -/
  | built
  /-- `PushGrpcCaller` has returned. -/
  | pushed
  | returned
  deriving DecidableEq, Repr

def Progress.isHolding : Progress → Bool
  | .entered | .returned => false
  | .locked | .built | .pushed => true

/-- API calls, and with them closures and jobs, are numbered. -/
structure ChannelWork where
  jobs : JobQueue.State Nat := {}
  progress : Progress := .entered
  /-- The jobs that the worker still has to cancel after its loop. -/
  cancelling : List Nat := []
  /-- The API calls that have locked their weak pointer and are about to push. -/
  locked : List Nat := []
  requested : Nat := 0
  /-- The closures that have been destroyed. -/
  ended : List Nat := []
  buffers : Buffers := {}
  deriving DecidableEq, Repr

namespace ChannelWork

/-- The job in the worker's hands, and whether it is cancelled. -/
def inHand (w : ChannelWork) : Option (Nat × Bool) :=
  match w.jobs.queue.worker with
  | .performing job => some (job, false)
  | .waiting | .exited => w.cancelling.head?.map (·, true)

def endClosure (w : ChannelWork) (n : Nat) : ChannelWork :=
  { w with ended := w.ended ++ [n], buffers := w.buffers.destroy n }

/-- The worker has gone through the loop of its thread. -/
def resumed (w : ChannelWork) (out : JobQueue Nat × List Nat) : ChannelWork :=
  { w with jobs := w.jobs.after out, progress := .entered, cancelling := out.2 }

/-- The closure is made, with a buffer or without. If the channel has gone, it is destroyed
at once. -/
def request (w : ChannelWork) (buffer alive : Bool) : ChannelWork :=
  let n := w.requested
  let w := { w with
    requested := n + 1
    buffers := if buffer then w.buffers.create n else w.buffers }
  if alive then { w with locked := w.locked ++ [n] } else w.endClosure n

def push (w : ChannelWork) (job : Nat) : Option ChannelWork :=
  if job ∈ w.locked then
    (w.jobs.step (.push job)).map fun jobs => { w with jobs, locked := w.locked.erase job }
  else none

/-- A step of the queue that no closure has part in. -/
def stepJobs (w : ChannelWork) (l : JobQueue.Label Nat) : Option ChannelWork :=
  (w.jobs.step l).map fun jobs => { w with jobs }

/-- The pushing thread cancels the job, and its closure ends with the push. -/
def performInline (w : ChannelWork) (job : Nat) : Option ChannelWork :=
  (w.jobs.step (.performInline job)).map fun jobs => { w with jobs }.endClosure job

def wake (w : ChannelWork) : Option ChannelWork := w.jobs.queue.wake.map w.resumed

/-- The closure locks its weak pointer, and returns if the channel has gone. -/
def lock (w : ChannelWork) (alive : Bool) : Option ChannelWork :=
  if w.inHand.isSome ∧ w.progress = .entered then
    some { w with progress := if alive then .locked else .returned }
  else none

def build (w : ChannelWork) : Option ChannelWork :=
  match w.inHand, w.progress with
  | some (job, false), .locked => some { w with progress := .built, buffers := w.buffers.read job }
  | _, _ => none

def pushCaller (w : ChannelWork) : Option ChannelWork :=
  if w.progress = .built then some { w with progress := .pushed } else none

/-- The closure returns, and its reference to the channel is dropped. -/
def leave (w : ChannelWork) : Option ChannelWork :=
  match w.inHand, w.progress with
  | some (_, true), .locked => some { w with progress := .returned }
  | some (_, false), .pushed => some { w with progress := .returned }
  | _, _ => none

/-- The performed job is popped and destroyed, and the worker loops. -/
def finish (w : ChannelWork) : Option ChannelWork :=
  match w.jobs.queue.worker, w.progress with
  | .performing job, .returned =>
    w.jobs.queue.finish.map ({ w with
      jobs := { w.jobs with returned := w.jobs.returned ++ [job] } }.endClosure job).resumed
  | _, _ => none

/-- The cancelled job is popped and destroyed. -/
def pop (w : ChannelWork) : Option ChannelWork :=
  match w.cancelling, w.progress with
  | job :: rest, .returned => some ({ w with progress := .entered, cancelling := rest }.endClosure job)
  | _, _ => none

def terminate (w : ChannelWork) : ChannelWork := { w with jobs := w.jobs.terminate }

/-- The worker's thread function has returned, and the join with it. -/
def join (w : ChannelWork) : Option ChannelWork :=
  if w.cancelling = [] then w.stepJobs .join else none

def dispatch (w : ChannelWork) (n : Nat) : Option ChannelWork :=
  (w.buffers.dispatch n).map fun buffers => { w with buffers }

/-- The references to the channel that API calls hold until their push is over. -/
def borrowed (w : ChannelWork) : Nat :=
  w.locked.length + w.jobs.notifying + w.jobs.inline.length

inductive Label where
  /-- An API call; `buffer` tells whether it is given one. -/
  | request (buffer : Bool)
  | push (job : Nat)
  | notify
  | performInline (job : Nat)
  | wake
  | wakeSpuriously
  | lock
  | build
  | pushCaller
  | leave
  | finish
  | pop
  | terminateNotify
  | join
  | dispatch (buffer : Nat)
  deriving DecidableEq, Repr

/-- A step that follows by itself once its thread is at it. -/
def Label.isInternal : Label → Bool
  | .request _ | .wakeSpuriously => false
  | _ => true

/-- A step, while the channel can be locked or cannot. -/
def step (w : ChannelWork) (alive : Bool) : Label → Option ChannelWork
  | .request buffer => some (w.request buffer alive)
  | .push job => w.push job
  | .notify => w.stepJobs .notify
  | .performInline job => w.performInline job
  | .wake => if w.jobs.notified then w.wake else none
  | .wakeSpuriously => w.wake
  | .lock => w.lock alive
  | .build => w.build
  | .pushCaller => w.pushCaller
  | .leave => w.leave
  | .finish => w.finish
  | .pop => w.pop
  | .terminateNotify => w.stepJobs .terminateNotify
  | .join => w.join
  | .dispatch n => w.dispatch n

/-- Every thread is at rest, but for the worker in its wait. -/
def Quiet (w : ChannelWork) (alive : Bool) : Prop := ∀ l : Label, l.isInternal → w.step alive l = none

end ChannelWork

-- ---------------------------------------------------------------------------
-- Buffers
-- ---------------------------------------------------------------------------

/-- A buffer goes with the closure of its call. It is released once, after that, and its
data is not read any more. -/
structure Buffers.Follow (b : Buffers) (requested : Nat) (ended : List Nat) : Prop where
  known : ∀ n ∈ b.created, n < requested
  distinct : b.created.Nodup
  destroyed : b.destroyed = ended.filter fun n => n ∈ b.created
  sources : (b.released ++ b.sources).Perm b.created
  released : ∀ n ∈ b.released, n ∈ b.destroyed
  lateReads : b.lateReads = []

namespace Buffers

variable {b b' : Buffers} {requested n : Nat} {ended : List Nat}

theorem follow_new : Follow {} 0 [] where
  known := nofun
  distinct := List.nodup_nil
  destroyed := rfl
  sources := List.Perm.refl _
  released := nofun
  lateReads := rfl

theorem Follow.pass (h : Follow b requested ended) : Follow b (requested + 1) ended :=
  ⟨fun n hn => Nat.lt_succ_of_lt (h.known n hn), h.distinct, h.destroyed, h.sources, h.released,
    h.lateReads⟩

theorem Follow.create (h : Follow b requested ended) (hended : requested ∉ ended) :
    Follow (b.create requested) (requested + 1) ended where
  known := by
    intro n hn
    rcases List.mem_append.mp hn with hn | hn
    · exact Nat.lt_succ_of_lt (h.known n hn)
    · rw [List.mem_singleton.mp hn]
      exact Nat.lt_succ_self _
  distinct := by
    refine h.distinct.append (List.nodup_singleton _) (List.disjoint_singleton.mpr ?_)
    exact fun hn => Nat.lt_irrefl _ (h.known _ hn)
  destroyed := by
    refine h.destroyed.trans (List.filter_congr fun n hn => ?_)
    have hne : n ≠ requested := fun heq => hended (heq ▸ hn)
    simp [Buffers.create, hne]
  sources := by
    show (b.released ++ (b.sources ++ [requested])).Perm _
    rw [← List.append_assoc]
    exact h.sources.append_right _
  released := h.released
  lateReads := h.lateReads

theorem Follow.destroy (h : Follow b requested ended) :
    Follow (b.destroy n) requested (ended ++ [n]) := by
  unfold Buffers.destroy
  split
  · rename_i hcreated
    refine ⟨h.known, h.distinct, ?_, h.sources, ?_, h.lateReads⟩
    · rw [List.filter_append, ← h.destroyed]
      simp [hcreated]
    · exact fun n hn => List.mem_append_left _ (h.released n hn)
  · rename_i hcreated
    refine ⟨h.known, h.distinct, ?_, h.sources, h.released, h.lateReads⟩
    rw [List.filter_append, ← h.destroyed]
    simp [hcreated]

theorem Follow.read (h : Follow b requested ended) (hended : n ∉ ended) :
    Follow (b.read n) requested ended := by
  have hkept : n ∉ b.destroyed := by
    rw [h.destroyed]
    exact fun hn => hended (List.mem_of_mem_filter hn)
  rw [Buffers.read, if_neg fun hboth => hkept hboth.2]
  exact h

theorem Follow.dispatch (h : Follow b requested ended) (hdispatch : b.dispatch n = some b') :
    Follow b' requested ended := by
  obtain ⟨⟨hsource, hdestroyed⟩, hb'⟩ := Option.ite_none_right_eq_some.mp hdispatch
  cases hb'
  refine ⟨h.known, h.distinct, h.destroyed, ?_, ?_, h.lateReads⟩
  · refine List.Perm.trans ?_ h.sources
    rw [List.append_assoc]
    exact (List.perm_cons_erase hsource).symm.append_left _
  · intro m hm
    rcases List.mem_append.mp hm with hm | hm
    · exact h.released m hm
    · rw [List.mem_singleton.mp hm]
      exact hdestroyed

end Buffers

-- ---------------------------------------------------------------------------
-- Closures
-- ---------------------------------------------------------------------------

namespace ChannelWork

/-- Every closure is in the hands of its API call, in the queue, about to be cancelled, or
destroyed. -/
structure Invariant (w : ChannelWork) : Prop where
  jobs : JobQueue.Invariant w.jobs
  closures : (w.locked ++ w.jobs.inline ++ w.jobs.queue.queue ++ w.cancelling ++ w.ended).Perm
    (List.range w.requested)
  unpushed : ∀ n ∈ w.locked, n ∉ w.jobs.pushed
  known : ∀ n ∈ w.jobs.pushed, n < w.requested
  buffers : w.buffers.Follow w.requested w.ended
  idle : w.inHand = none → w.progress = .entered
  performing : w.progress = .built ∨ w.progress = .pushed →
    ∃ job, w.jobs.queue.worker = .performing job
  cancelling : w.cancelling ≠ [] → w.jobs.queue.worker = .exited
  joined : w.jobs.terminator = .returned → w.cancelling = []

variable {w w' : ChannelWork} {n : Nat}

theorem inHand_uncancelled {job : Nat} (h : w.inHand = some (job, false)) :
    w.jobs.queue.worker = .performing job := by
  unfold inHand at h
  split at h
  · rename_i hworker
    cases h
    exact hworker
  · simp at h
  · simp at h

theorem build_eq_some (hbuild : w.build = some w') :
    ∃ job, w.jobs.queue.worker = .performing job ∧ w.progress = .locked ∧
      w' = { w with progress := .built, buffers := w.buffers.read job } := by
  unfold ChannelWork.build at hbuild
  split at hbuild
  · rename_i job hhand hprogress
    exact ⟨job, inHand_uncancelled hhand, hprogress, (Option.some.inj hbuild).symm⟩
  · cases hbuild

theorem leave_eq_some (hleave : w.leave = some w') :
    w.inHand.isSome ∧ w.progress.isHolding ∧ w' = { w with progress := .returned } := by
  unfold ChannelWork.leave at hleave
  split at hleave
  · rename_i hhand hprogress
    cases hleave
    exact ⟨by simp [hhand], by simp [hprogress, Progress.isHolding], rfl⟩
  · rename_i hhand hprogress
    cases hleave
    exact ⟨by simp [hhand], by simp [hprogress, Progress.isHolding], rfl⟩
  · cases hleave

/-- What a step does. -/
inductive Stepped (w : ChannelWork) (alive : Bool) : Label → ChannelWork → Prop
  | request (buffer : Bool) : Stepped w alive (.request buffer) (w.request buffer alive)
  | push {job : Nat} (hlocked : job ∈ w.locked) (hnew : job ∉ w.jobs.pushed) :
      Stepped w alive (.push job) { w with jobs := w.jobs.push job, locked := w.locked.erase job }
  | performInline {job : Nat} (hjob : job ∈ w.jobs.inline) :
      Stepped w alive (.performInline job)
        ({ w with
          jobs := { w.jobs with
            inline := w.jobs.inline.erase job
            performed := w.jobs.performed ++ [(job, true)] } }.endClosure job)
  | notify (hnotifying : 0 < w.jobs.notifying) :
      Stepped w alive .notify { w with jobs := { w.jobs with notifying := w.jobs.notifying - 1 }.notifyOne }
  | wake (hnotified : w.jobs.notified) (hworker : w.jobs.queue.worker = .waiting) :
      Stepped w alive .wake (w.resumed w.jobs.queue.resume)
  | wakeSpuriously (hworker : w.jobs.queue.worker = .waiting) :
      Stepped w alive .wakeSpuriously (w.resumed w.jobs.queue.resume)
  | lock (hhand : w.inHand.isSome) (hprogress : w.progress = .entered) :
      Stepped w alive .lock { w with progress := if alive then .locked else .returned }
  | build {job : Nat} (hworker : w.jobs.queue.worker = .performing job) (hprogress : w.progress = .locked) :
      Stepped w alive .build { w with progress := .built, buffers := w.buffers.read job }
  | pushCaller (hprogress : w.progress = .built) : Stepped w alive .pushCaller { w with progress := .pushed }
  | leave (hhand : w.inHand.isSome) (hholding : w.progress.isHolding) :
      Stepped w alive .leave { w with progress := .returned }
  | finish {job : Nat} (hworker : w.jobs.queue.worker = .performing job) (hprogress : w.progress = .returned) :
      Stepped w alive .finish
        (({ w with jobs := { w.jobs with returned := w.jobs.returned ++ [job] } }.endClosure job).resumed
          { w.jobs.queue with queue := w.jobs.queue.queue.tail }.resume)
  | pop {job : Nat} {rest : List Nat} (hcancelling : w.cancelling = job :: rest)
      (hprogress : w.progress = .returned) :
      Stepped w alive .pop ({ w with progress := .entered, cancelling := rest }.endClosure job)
  | terminateNotify (hterminator : w.jobs.terminator = .notifying) :
      Stepped w alive .terminateNotify { w with jobs := { w.jobs with terminator := .joining }.notifyOne }
  | join (hnone : w.cancelling = []) (hterminator : w.jobs.terminator = .joining)
      (hexited : w.jobs.queue.worker = .exited) :
      Stepped w alive .join { w with jobs := { w.jobs with terminator := .returned } }
  | dispatch {n : Nat} {buffers : Buffers} (hbuffers : w.buffers.dispatch n = some buffers) :
      Stepped w alive (.dispatch n) { w with buffers }

theorem wake_eq_some (hwake : w.wake = some w') :
    w.jobs.queue.worker = .waiting ∧ w' = w.resumed w.jobs.queue.resume := by
  obtain ⟨out, hout, rfl⟩ := Option.map_eq_some_iff.mp hwake
  obtain ⟨hworker, rfl⟩ := JobQueue.wake_eq_some hout
  exact ⟨hworker, rfl⟩

theorem step_cases {alive : Bool} {l : Label} (hstep : w.step alive l = some w') : Stepped w alive l w' := by
  cases l with
  | request buffer => exact Option.some.inj hstep ▸ .request buffer
  | push job =>
    obtain ⟨hlocked, hpush⟩ := Option.ite_none_right_eq_some.mp hstep
    obtain ⟨jobs, hjobs, rfl⟩ := Option.map_eq_some_iff.mp hpush
    cases JobQueue.step_cases hjobs with
    | push hnew => exact .push hlocked hnew
  | notify =>
    obtain ⟨jobs, hjobs, rfl⟩ := Option.map_eq_some_iff.mp hstep
    cases JobQueue.step_cases hjobs with
    | notify hnotifying => exact .notify hnotifying
  | performInline job =>
    obtain ⟨jobs, hjobs, rfl⟩ := Option.map_eq_some_iff.mp hstep
    cases JobQueue.step_cases hjobs with
    | performInline hjob => exact .performInline hjob
  | wake =>
    obtain ⟨hnotified, hwake⟩ := Option.ite_none_right_eq_some.mp hstep
    obtain ⟨hworker, rfl⟩ := wake_eq_some hwake
    exact .wake hnotified hworker
  | wakeSpuriously =>
    obtain ⟨hworker, rfl⟩ := wake_eq_some hstep
    exact .wakeSpuriously hworker
  | lock =>
    obtain ⟨⟨hhand, hprogress⟩, hw'⟩ := Option.ite_none_right_eq_some.mp hstep
    exact Option.some.inj hw' ▸ .lock hhand hprogress
  | build =>
    obtain ⟨job, hworker, hprogress, rfl⟩ := build_eq_some hstep
    exact .build hworker hprogress
  | pushCaller =>
    obtain ⟨hprogress, hw'⟩ := Option.ite_none_right_eq_some.mp hstep
    exact Option.some.inj hw' ▸ .pushCaller hprogress
  | leave =>
    obtain ⟨hhand, hholding, rfl⟩ := leave_eq_some hstep
    exact .leave hhand hholding
  | finish =>
    change w.finish = _ at hstep
    unfold ChannelWork.finish at hstep
    split at hstep
    · rename_i job hworker hprogress
      obtain ⟨out, hout, rfl⟩ := Option.map_eq_some_iff.mp hstep
      obtain ⟨-, -, rfl⟩ := JobQueue.finish_eq_some hout
      exact .finish hworker hprogress
    · cases hstep
  | pop =>
    change w.pop = _ at hstep
    unfold ChannelWork.pop at hstep
    split at hstep
    · rename_i job rest hcancelling hprogress
      exact Option.some.inj hstep ▸ .pop hcancelling hprogress
    · cases hstep
  | terminateNotify =>
    obtain ⟨jobs, hjobs, rfl⟩ := Option.map_eq_some_iff.mp hstep
    cases JobQueue.step_cases hjobs with
    | terminateNotify hterminator => exact .terminateNotify hterminator
  | join =>
    obtain ⟨hnone, hjoin⟩ := Option.ite_none_right_eq_some.mp hstep
    obtain ⟨jobs, hjobs, rfl⟩ := Option.map_eq_some_iff.mp hjoin
    cases JobQueue.step_cases hjobs with
    | join hterminator hexited => exact .join hnone hterminator hexited
  | dispatch n =>
    obtain ⟨buffers, hbuffers, rfl⟩ := Option.map_eq_some_iff.mp hstep
    exact .dispatch hbuffers

theorem invariant_init : Invariant ({} : ChannelWork) where
  jobs := JobQueue.invariant_init
  closures := List.Perm.refl _
  unpushed := nofun
  known := nofun
  buffers := Buffers.follow_new
  idle := fun _ => rfl
  performing := nofun
  cancelling := nofun
  joined := fun _ => rfl

theorem Invariant.nodup (h : Invariant w) :
    (w.locked ++ w.jobs.inline ++ w.jobs.queue.queue ++ w.cancelling ++ w.ended).Nodup :=
  h.closures.nodup_iff.mpr List.nodup_range

theorem Invariant.lt_requested (h : Invariant w) (hn : n ∈ w.ended) : n < w.requested :=
  List.mem_range.mp (h.closures.subset (List.mem_append_right _ hn))

theorem Invariant.request (h : Invariant w) (buffer alive : Bool) :
    Invariant (w.request buffer alive) := by
  have hrange : List.range (w.requested + 1) = List.range w.requested ++ [w.requested] := List.range_succ
  have hended : w.requested ∉ w.ended := fun hn => Nat.lt_irrefl _ (h.lt_requested hn)
  have hbuffers : Buffers.Follow (if buffer then w.buffers.create w.requested else w.buffers)
      (w.requested + 1) w.ended := by
    split
    · exact h.buffers.create hended
    · exact h.buffers.pass
  have hknown : ∀ n ∈ w.jobs.pushed, n < w.requested + 1 := fun n hn => Nat.lt_succ_of_lt (h.known n hn)
  cases alive with
  | true =>
    refine ⟨h.jobs, ?_, ?_, hknown, hbuffers, h.idle, h.performing, h.cancelling, h.joined⟩
    · refine List.perm_iff_count.mpr fun a => ?_
      have hcount := h.closures.count_eq a
      show ((w.locked ++ [w.requested]) ++ w.jobs.inline ++ w.jobs.queue.queue ++ w.cancelling ++
        w.ended).count a = (List.range (w.requested + 1)).count a
      simp only [hrange, List.count_append] at hcount ⊢
      omega
    · intro n hn
      rcases List.mem_append.mp hn with hn | hn
      · exact h.unpushed n hn
      · rw [List.mem_singleton.mp hn]
        exact fun hpushed => Nat.lt_irrefl _ (h.known _ hpushed)
  | false =>
    refine ⟨h.jobs, ?_, h.unpushed, hknown, hbuffers.destroy, h.idle, h.performing, h.cancelling, h.joined⟩
    show (_ ++ (w.ended ++ [w.requested])).Perm (List.range (w.requested + 1))
    rw [hrange, ← List.append_assoc]
    exact h.closures.append_right _

theorem Invariant.push (h : Invariant w) (hlocked : n ∈ w.locked) (hnew : n ∉ w.jobs.pushed) :
    Invariant { w with jobs := w.jobs.push n, locked := w.locked.erase n } := by
  have hinv := h.jobs.push hnew
  have hdistinct : w.locked.Nodup := by
    have hnodup := h.nodup
    simp only [List.append_assoc] at hnodup
    exact hnodup.of_append_left
  have hknown : n < w.requested := by
    refine List.mem_range.mp (h.closures.subset ?_)
    simp only [List.append_assoc]
    exact List.mem_append_left _ hlocked
  have herase : w.locked.Perm ([n] ++ w.locked.erase n) := List.perm_cons_erase hlocked
  have hpushed : ∀ {m}, m ∈ w.jobs.pushed ++ [n] → m ∈ w.jobs.pushed ∨ m = n := fun hm =>
    (List.mem_append.mp hm).imp_right List.mem_singleton.mp
  have hunpushed : ∀ m ∈ w.locked.erase n, m ∉ w.jobs.pushed ++ [n] := by
    intro m hm hpush
    rcases hpushed hpush with hpush | rfl
    · exact h.unpushed m (List.mem_of_mem_erase hm) hpush
    · exact hdistinct.not_mem_erase hm
  have hknown : ∀ m ∈ w.jobs.pushed ++ [n], m < w.requested := by
    intro m hm
    rcases hpushed hm with hm | rfl
    · exact h.known m hm
    · exact hknown
  by_cases hrunning : w.jobs.queue.running
  · rw [JobQueue.push_of_running hrunning] at hinv ⊢
    refine ⟨hinv, ?_, hunpushed, hknown, h.buffers, h.idle, h.performing, h.cancelling, h.joined⟩
    refine List.Perm.trans (List.perm_iff_count.mpr fun a => ?_) h.closures
    have hcount := herase.count_eq a
    simp only [List.count_append] at hcount ⊢
    omega
  · rw [JobQueue.push_of_stopped hrunning] at hinv ⊢
    refine ⟨hinv, ?_, hunpushed, hknown, h.buffers, h.idle, h.performing, h.cancelling, h.joined⟩
    refine List.Perm.trans (List.perm_iff_count.mpr fun a => ?_) h.closures
    have hcount := herase.count_eq a
    simp only [List.count_append] at hcount ⊢
    omega

/-- A change of the queue that leaves its jobs and its worker alone. -/
theorem Invariant.withJobs (h : Invariant w) {jobs : JobQueue.State Nat} (hjobs : JobQueue.Invariant jobs)
    (hinline : jobs.inline = w.jobs.inline) (hqueue : jobs.queue.queue = w.jobs.queue.queue)
    (hworker : jobs.queue.worker = w.jobs.queue.worker) (hpushed : jobs.pushed = w.jobs.pushed)
    (hreturned : jobs.terminator = .returned → w.cancelling = []) :
    Invariant { w with jobs } where
  jobs := hjobs
  closures := by
    show (w.locked ++ jobs.inline ++ jobs.queue.queue ++ w.cancelling ++ w.ended).Perm _
    rw [hinline, hqueue]
    exact h.closures
  unpushed := by
    show ∀ n ∈ w.locked, n ∉ jobs.pushed
    rw [hpushed]
    exact h.unpushed
  known := by
    show ∀ n ∈ jobs.pushed, n < w.requested
    rw [hpushed]
    exact h.known
  buffers := h.buffers
  idle := by
    intro hhand
    refine h.idle ?_
    rw [inHand] at hhand ⊢
    rw [← hworker]
    exact hhand
  performing := by
    show _ → ∃ job, jobs.queue.worker = _
    rw [hworker]
    exact h.performing
  cancelling := by
    show _ → jobs.queue.worker = _
    rw [hworker]
    exact h.cancelling
  joined := hreturned

theorem Invariant.terminate (h : Invariant w) : Invariant w.terminate := by
  have hinv := h.jobs.terminate
  unfold ChannelWork.terminate
  unfold JobQueue.State.terminate at hinv ⊢
  split
  · rename_i hrunning
    rw [if_pos hrunning] at hinv
    exact h.withJobs hinv rfl rfl rfl rfl nofun
  · exact h

theorem Invariant.performInline (h : Invariant w) (hjob : n ∈ w.jobs.inline) :
    Invariant ({ w with
      jobs := { w.jobs with
        inline := w.jobs.inline.erase n
        performed := w.jobs.performed ++ [(n, true)] } }.endClosure n) := by
  refine ⟨h.jobs.performInline hjob, ?_, h.unpushed, h.known, h.buffers.destroy, h.idle, h.performing,
    h.cancelling, h.joined⟩
  have herase : w.jobs.inline.Perm ([n] ++ w.jobs.inline.erase n) := List.perm_cons_erase hjob
  refine List.Perm.trans (List.perm_iff_count.mpr fun a => ?_) h.closures
  have hcount := herase.count_eq a
  simp only [endClosure, List.count_append] at hcount ⊢
  omega

/-- The worker goes through its loop with `q`, whose front is not a job it has begun. -/
theorem Invariant.resumed (h : Invariant w) {q : JobQueue Nat} {jobs : JobQueue.State Nat}
    {ended : List Nat} {buffers : Buffers} (hinv : JobQueue.Invariant (jobs.after q.resume))
    (hinline : jobs.inline = w.jobs.inline) (hpushed : jobs.pushed = w.jobs.pushed)
    (hterminator : jobs.terminator = w.jobs.terminator) (hworker : w.jobs.queue.worker ≠ .exited)
    (hclosures : (q.queue ++ ended).Perm (w.jobs.queue.queue ++ w.ended))
    (hbuffers : buffers.Follow w.requested ended) :
    Invariant ({ w with jobs, ended, buffers }.resumed q.resume) where
  jobs := hinv
  closures := by
    refine List.Perm.trans (List.perm_iff_count.mpr fun a => ?_) h.closures
    have hnone : w.cancelling = [] := by
      by_contra hsome
      exact hworker (h.cancelling hsome)
    have hcount := hclosures.count_eq a
    rw [← q.queue_append_resume] at hcount
    show (w.locked ++ jobs.inline ++ q.resume.1.queue ++ q.resume.2 ++ ended).count a = _
    simp only [hinline, hnone, List.count_append, List.count_nil] at hcount ⊢
    omega
  unpushed := by
    show ∀ n ∈ w.locked, n ∉ jobs.pushed
    rw [hpushed]
    exact h.unpushed
  known := by
    show ∀ n ∈ jobs.pushed, n < w.requested
    rw [hpushed]
    exact h.known
  buffers := hbuffers
  idle := fun _ => rfl
  performing := nofun
  cancelling := by
    intro hsome
    obtain ⟨-, -, hresume⟩ | ⟨_, _, -, -, hresume⟩ | ⟨-, hresume⟩ := q.resume_cases
    · exact absurd (congrArg Prod.snd hresume) hsome
    · exact absurd (congrArg Prod.snd hresume) hsome
    · exact congrArg (·.1.worker) hresume
  joined := by
    intro hreturned
    exact absurd (h.jobs.returned (hterminator ▸ hreturned)) hworker

theorem Invariant.wake (h : Invariant w) (hworker : w.jobs.queue.worker = .waiting) :
    Invariant (w.resumed w.jobs.queue.resume) :=
  h.resumed (h.jobs.resumed hworker) rfl rfl rfl (by simp [hworker]) (List.Perm.refl _) h.buffers

theorem Invariant.finish (h : Invariant w) {job : Nat} (hworker : w.jobs.queue.worker = .performing job) :
    Invariant (({ w with jobs := { w.jobs with returned := w.jobs.returned ++ [job] } }.endClosure job).resumed
      { w.jobs.queue with queue := w.jobs.queue.queue.tail }.resume) := by
  have hinv := h.jobs.finished hworker
  obtain ⟨rest, hqueue⟩ := h.jobs.queue_of_performing hworker
  have hcurrent : w.jobs.queue.current.toList = [job] := by simp [JobQueue.current, hworker]
  rw [hcurrent] at hinv
  refine h.resumed (w := w) hinv rfl rfl rfl (by simp [hworker]) ?_ h.buffers.destroy
  refine List.perm_iff_count.mpr fun a => ?_
  have hcount : (job :: rest).count a = ([job] ++ rest).count a := rfl
  simp only [hqueue, List.tail_cons, List.count_append] at hcount ⊢
  omega

theorem Invariant.lock (h : Invariant w) (hhand : w.inHand.isSome) (alive : Bool) :
    Invariant { w with progress := if alive then .locked else .returned } := by
  refine ⟨h.jobs, h.closures, h.unpushed, h.known, h.buffers, ?_, ?_, h.cancelling, h.joined⟩
  · intro hnone
    exact absurd hnone (Option.isSome_iff_ne_none.mp hhand)
  · cases alive with
    | true => exact nofun
    | false => exact nofun

/-- The closure in the worker's hands has not been destroyed. -/
theorem Invariant.not_ended (h : Invariant w) {job : Nat} (hworker : w.jobs.queue.worker = .performing job) :
    job ∉ w.ended := by
  obtain ⟨rest, hqueue⟩ := h.jobs.queue_of_performing hworker
  intro hended
  have hone := List.nodup_iff_count_le_one.mp h.nodup job
  have hpos := List.count_pos_iff.mpr hended
  simp only [hqueue, List.count_append, List.count_cons_self] at hone
  omega

theorem Invariant.build (h : Invariant w) {job : Nat} (hworker : w.jobs.queue.worker = .performing job)
    (hprogress : w.progress = .locked) :
    Invariant { w with progress := .built, buffers := w.buffers.read job } := by
  refine ⟨h.jobs, h.closures, h.unpushed, h.known, h.buffers.read (h.not_ended hworker), ?_,
    fun _ => ⟨job, hworker⟩, h.cancelling, h.joined⟩
  exact fun hnone => absurd (hprogress.symm.trans (h.idle hnone)) nofun

theorem Invariant.pushCaller (h : Invariant w) (hprogress : w.progress = .built) :
    Invariant { w with progress := .pushed } := by
  refine ⟨h.jobs, h.closures, h.unpushed, h.known, h.buffers, ?_, fun _ => h.performing (.inl hprogress),
    h.cancelling, h.joined⟩
  exact fun hnone => absurd (hprogress.symm.trans (h.idle hnone)) nofun

theorem Invariant.leave (h : Invariant w) (hhand : w.inHand.isSome) :
    Invariant { w with progress := .returned } :=
  ⟨h.jobs, h.closures, h.unpushed, h.known, h.buffers,
    fun hnone => absurd hnone (Option.isSome_iff_ne_none.mp hhand), nofun, h.cancelling, h.joined⟩

theorem Invariant.pop (h : Invariant w) {job : Nat} {rest : List Nat} (hcancelling : w.cancelling = job :: rest) :
    Invariant ({ w with progress := .entered, cancelling := rest }.endClosure job) := by
  refine ⟨h.jobs, ?_, h.unpushed, h.known, h.buffers.destroy, fun _ => rfl, nofun, ?_, ?_⟩
  · refine List.Perm.trans (List.perm_iff_count.mpr fun a => ?_) h.closures
    have hcount : (job :: rest).count a = ([job] ++ rest).count a := rfl
    simp only [endClosure, hcancelling, List.count_append] at hcount ⊢
    omega
  · exact fun _ => h.cancelling (by simp [hcancelling])
  · intro hreturned
    exact absurd (h.joined hreturned) (by simp [hcancelling])

theorem Invariant.step (h : Invariant w) {alive : Bool} {l : Label}
    (hstep : w.step alive l = some w') : Invariant w' := by
  cases step_cases hstep with
  | request buffer => exact h.request buffer alive
  | push hlocked hnew => exact h.push hlocked hnew
  | performInline hjob => exact h.performInline hjob
  | notify _ => exact h.withJobs h.jobs.notify rfl rfl rfl rfl h.joined
  | wake _ hworker | wakeSpuriously hworker => exact h.wake hworker
  | lock hhand _ => exact h.lock hhand alive
  | build hworker hprogress => exact h.build hworker hprogress
  | pushCaller hprogress => exact h.pushCaller hprogress
  | leave hhand _ => exact h.leave hhand
  | finish hworker _ => exact h.finish hworker
  | pop hcancelling _ => exact h.pop hcancelling
  | terminateNotify hterminator => exact h.withJobs (h.jobs.terminateNotify hterminator) rfl rfl rfl rfl nofun
  | join hnone hterminator hexited =>
    exact h.withJobs (h.jobs.join hterminator hexited) rfl rfl rfl rfl fun _ => hnone
  | dispatch hbuffers =>
    exact ⟨h.jobs, h.closures, h.unpushed, h.known, h.buffers.dispatch hbuffers, h.idle, h.performing,
      h.cancelling, h.joined⟩

-- ---------------------------------------------------------------------------
-- References to the channel
-- ---------------------------------------------------------------------------

/-- The references that a step takes for an API call, and those it leaves to it. -/
def Label.taken (alive : Bool) : Label → Nat
  | .request _ => alive.toNat
  | _ => 0

def Label.given : Label → Nat
  | .notify | .performInline _ => 1
  | _ => 0

theorem borrowed_step {alive : Bool} {l : Label} (hstep : w.step alive l = some w') :
    w'.borrowed + l.given = w.borrowed + l.taken alive := by
  cases step_cases hstep with
  | request buffer =>
    cases alive with
    | true =>
      show (w.locked ++ [w.requested]).length + w.jobs.notifying + w.jobs.inline.length + 0 = _
      simp only [borrowed, Label.taken, List.length_append, List.length_singleton, Bool.toNat_true]
      omega
    | false => rfl
  | push hlocked _ =>
    have hlength := List.length_erase_of_mem hlocked
    have hpos := List.length_pos_of_mem hlocked
    by_cases hrunning : w.jobs.queue.running
    · rw [JobQueue.push_of_running hrunning]
      simp only [borrowed, Label.taken, Label.given]
      omega
    · rw [JobQueue.push_of_stopped hrunning]
      simp only [borrowed, Label.taken, Label.given, List.length_append, List.length_singleton]
      omega
  | performInline hjob =>
    have hlength := List.length_erase_of_mem hjob
    have hpos := List.length_pos_of_mem hjob
    simp only [borrowed, Label.taken, Label.given, endClosure]
    omega
  | notify hnotifying =>
    simp only [borrowed, Label.taken, Label.given, JobQueue.State.notifyOne]
    omega
  | wake _ _ | wakeSpuriously _ | lock _ _ | build _ _ | pushCaller _ | leave _ _ | finish _ _ | pop _ _
  | terminateNotify _ | join _ _ _ | dispatch _ => rfl

@[simp] theorem borrowed_terminate : w.terminate.borrowed = w.borrowed := by
  unfold terminate JobQueue.State.terminate
  split <;> rfl

@[simp] theorem progress_terminate : w.terminate.progress = w.progress := rfl

/-- The worker keeps its reference until its closure returns. -/
theorem Invariant.holding_kept (h : Invariant w) {alive : Bool} {l : Label} (hl : l ≠ .leave)
    (hstep : w.step alive l = some w') (hholding : w.progress.isHolding) : w'.progress.isHolding := by
  have hfree : ∀ {progress : Progress}, progress.isHolding = false → w.progress ≠ progress := by
    rintro progress hfalse rfl
    exact absurd hholding (by simp [hfalse])
  have hbusy : w.jobs.queue.worker ≠ .waiting := by
    intro hworker
    have hnone : w.cancelling = [] := by
      by_contra hsome
      exact absurd (hworker.symm.trans (h.cancelling hsome)) nofun
    exact hfree rfl (h.idle (by simp [inHand, hworker, hnone]))
  cases step_cases hstep with
  | leave _ _ => exact absurd rfl hl
  | request buffer => cases alive <;> exact hholding
  | wake _ hworker | wakeSpuriously hworker => exact absurd hworker hbusy
  | lock _ hprogress | finish _ hprogress | pop _ hprogress => exact absurd hprogress (hfree rfl)
  | build _ _ | pushCaller _ => rfl
  | push _ _ | performInline _ | notify _ | terminateNotify _ | join _ _ _ | dispatch _ => exact hholding

/-- How far termination is changes only by its own steps. -/
theorem terminator_step {alive : Bool} {l : Label} (hstep : w.step alive l = some w') :
    w'.jobs.terminator = w.jobs.terminator ∨
      (w.jobs.terminator = .notifying ∧ w'.jobs.terminator = .joining) ∨
        (l = .join ∧ w.jobs.terminator = .joining ∧ w'.jobs.terminator = .returned) := by
  cases step_cases hstep with
  | request buffer => cases alive <;> exact .inl rfl
  | push _ _ =>
    by_cases hrunning : w.jobs.queue.running
    · rw [JobQueue.push_of_running hrunning]
      exact .inl rfl
    · rw [JobQueue.push_of_stopped hrunning]
      exact .inl rfl
  | terminateNotify hterminator => exact .inr (.inl ⟨hterminator, rfl⟩)
  | join _ hterminator _ => exact .inr (.inr ⟨rfl, hterminator, rfl⟩)
  | performInline _ | notify _ | wake _ _ | wakeSpuriously _ | lock _ _ | build _ _ | pushCaller _ | leave _ _
  | finish _ _ | pop _ _ | dispatch _ => exact .inl rfl

/-- After `Terminate` has returned, no closure is performed uncancelled. -/
theorem Invariant.uncancelled_step (h : Invariant w) (hreturned : w.jobs.terminator = .returned)
    {alive : Bool} {l : Label} (hstep : w.step alive l = some w') :
    w'.jobs.uncancelled = w.jobs.uncancelled := by
  have hexited := h.jobs.returned hreturned
  cases step_cases hstep with
  | request buffer => cases alive <;> rfl
  | push _ hnew => exact h.jobs.uncancelled_step (l := .push _) hreturned (if_neg hnew)
  | performInline hjob => exact h.jobs.uncancelled_step (l := .performInline _) hreturned (if_pos hjob)
  | wake _ hworker | wakeSpuriously hworker | finish hworker _ => exact absurd (hexited.symm.trans hworker) nofun
  | notify _ | lock _ _ | build _ _ | pushCaller _ | leave _ _ | pop _ _ | terminateNotify _ | join _ _ _
  | dispatch _ => rfl

/-- The worker comes to hold a reference only by locking a channel that is there. -/
theorem holding_step {alive : Bool} {l : Label} (hstep : w.step alive l = some w')
    (hholding : w'.progress.isHolding) : w.progress.isHolding ∨ alive := by
  cases step_cases hstep with
  | request buffer =>
    cases alive with
    | true => exact .inr rfl
    | false => exact .inl hholding
  | lock _ _ =>
    cases alive with
    | true => exact .inr rfl
    | false => cases hholding
  | build _ hprogress | pushCaller hprogress => exact .inl (by rw [hprogress]; rfl)
  | leave _ hheld => exact .inl hheld
  | wake _ _ | wakeSpuriously _ | finish _ _ | pop _ _ => cases hholding
  | push _ _ | performInline _ | notify _ | terminateNotify _ | join _ _ _ | dispatch _ => exact .inl hholding

-- ---------------------------------------------------------------------------
-- No thread is stuck
-- ---------------------------------------------------------------------------

/-- How much of the closure the worker still has to go through. -/
def rank (w : ChannelWork) : Nat :=
  if w.inHand.isSome then
    match w.progress with
    | .entered => 4
    | .locked => 3
    | .built => 2
    | .pushed => 1
    | .returned => 0
  else 0

/-- What the threads still have to do. -/
def measure (w : ChannelWork) : Nat :=
  8 * JobQueue.measure w.jobs + 8 * w.cancelling.length + w.rank + 40 * w.locked.length +
    w.buffers.sources.length

theorem rank_le (w : ChannelWork) : w.rank ≤ 4 := by
  unfold rank
  split
  · split <;> omega
  · exact Nat.zero_le _

theorem sources_destroy (b : Buffers) : (b.destroy n).sources = b.sources := by
  unfold Buffers.destroy
  split <;> rfl

theorem measure_endClosure (w : ChannelWork) (n : Nat) : (w.endClosure n).measure = w.measure := by
  show _ + (w.buffers.destroy n).sources.length = _
  rw [sources_destroy]
  rfl

theorem measure_withJobs {jobs : JobQueue.State Nat} (hlt : JobQueue.measure jobs < JobQueue.measure w.jobs)
    (hworker : jobs.queue.worker = w.jobs.queue.worker) :
    ({ w with jobs } : ChannelWork).measure < w.measure := by
  have hrank : ({ w with jobs } : ChannelWork).rank = w.rank := by
    unfold rank inHand
    rw [hworker]
  simp only [measure, hrank]
  omega

theorem measure_progress {progress : Progress} (hlt : ({ w with progress } : ChannelWork).rank < w.rank)
    {buffers : Buffers} (hsources : buffers.sources = w.buffers.sources) :
    ({ w with progress, buffers } : ChannelWork).measure < w.measure := by
  have hrank : ({ w with progress, buffers } : ChannelWork).rank = ({ w with progress } : ChannelWork).rank := rfl
  simp only [measure, hrank, hsources]
  omega

theorem measure_terminate (w : ChannelWork) : w.terminate.measure ≤ w.measure + 24 := by
  have hworker : w.terminate.jobs.queue.worker = w.jobs.queue.worker := by
    unfold terminate JobQueue.State.terminate
    split <;> rfl
  have hrank : w.terminate.rank = w.rank := by
    unfold rank inHand
    rw [hworker]
    rfl
  have hjobs : JobQueue.measure w.jobs.terminate ≤ JobQueue.measure w.jobs + 3 := by
    unfold JobQueue.State.terminate
    split
    · simp only [JobQueue.measure, JobQueue.terminate]
      omega
    · omega
  have hexpand : w.terminate.measure = 8 * JobQueue.measure w.jobs.terminate + 8 * w.cancelling.length +
      w.terminate.rank + 40 * w.locked.length + w.buffers.sources.length := rfl
  rw [hexpand, hrank]
  unfold measure
  omega

theorem measure_resumed (w : ChannelWork) (q : JobQueue Nat) :
    (w.resumed q.resume).measure + 8 * (2 * w.jobs.queue.queue.length + w.jobs.notified.toNat) ≤
      8 * (JobQueue.measure w.jobs + 2 * q.queue.length) + 4 + 40 * w.locked.length +
        w.buffers.sources.length := by
  have hjobs := JobQueue.measure_after w.jobs q
  have hrank := (w.resumed q.resume).rank_le
  have hexpand : (w.resumed q.resume).measure = 8 * JobQueue.measure (w.jobs.after q.resume) +
      8 * q.resume.2.length + (w.resumed q.resume).rank + 40 * w.locked.length +
        w.buffers.sources.length := rfl
  omega

theorem measure_push (hlocked : n ∈ w.locked) :
    ({ w with jobs := w.jobs.push n, locked := w.locked.erase n } : ChannelWork).measure < w.measure := by
  have hlength := List.length_erase_of_mem hlocked
  have hpos := List.length_pos_of_mem hlocked
  have hworker : (w.jobs.push n).queue.worker = w.jobs.queue.worker := by
    by_cases hrunning : w.jobs.queue.running
    · rw [JobQueue.push_of_running hrunning]
    · rw [JobQueue.push_of_stopped hrunning]
  have hjobs : JobQueue.measure (w.jobs.push n) ≤ JobQueue.measure w.jobs + 4 := by
    by_cases hrunning : w.jobs.queue.running
    · rw [JobQueue.push_of_running hrunning]
      simp only [JobQueue.measure, List.length_append, List.length_singleton]
      omega
    · rw [JobQueue.push_of_stopped hrunning]
      simp only [JobQueue.measure, List.length_append, List.length_singleton]
      omega
  have hrank : ({ w with jobs := w.jobs.push n, locked := w.locked.erase n } : ChannelWork).rank = w.rank := by
    unfold rank inHand
    rw [hworker]
  simp only [measure, hrank]
  omega

theorem Invariant.measure_finish (h : Invariant w) {job : Nat}
    (hworker : w.jobs.queue.worker = .performing job) :
    (({ w with jobs := { w.jobs with returned := w.jobs.returned ++ [job] } }.endClosure job).resumed
      { w.jobs.queue with queue := w.jobs.queue.queue.tail }.resume).measure < w.measure := by
  obtain ⟨rest, hqueue⟩ := h.jobs.queue_of_performing hworker
  have hle := measure_resumed ({ w with
    jobs := { w.jobs with returned := w.jobs.returned ++ [job] } }.endClosure job)
      { w.jobs.queue with queue := w.jobs.queue.queue.tail }
  have hsources : (w.buffers.destroy job).sources.length = w.buffers.sources.length :=
    congrArg List.length (sources_destroy _)
  have hmeasure : JobQueue.measure { w.jobs with returned := w.jobs.returned ++ [job] } =
      JobQueue.measure w.jobs := rfl
  simp only [endClosure, hqueue, List.length_cons, List.tail_cons, hsources, hmeasure] at hle ⊢
  simp only [measure] at hle ⊢
  omega

theorem Invariant.measure_lt (h : Invariant w) {alive : Bool} {l : Label} (hl : l.isInternal)
    (hstep : w.step alive l = some w') : w'.measure < w.measure := by
  have hsame : ∀ progress, ({ w with progress } : ChannelWork).inHand = w.inHand := fun _ => rfl
  cases step_cases hstep with
  | request _ | wakeSpuriously _ => cases hl
  | push hlocked _ => exact measure_push hlocked
  | performInline hjob =>
    rw [measure_endClosure]
    exact measure_withJobs (h.jobs.measure_lt (l := .performInline _) rfl (if_pos hjob)) rfl
  | notify hnotifying => exact measure_withJobs (h.jobs.measure_lt (l := .notify) rfl (if_pos hnotifying)) rfl
  | terminateNotify hterminator =>
    exact measure_withJobs (h.jobs.measure_lt (l := .terminateNotify) rfl (if_pos hterminator)) rfl
  | join _ hterminator hexited =>
    exact measure_withJobs (h.jobs.measure_lt (l := .join) rfl (if_pos ⟨hterminator, hexited⟩)) rfl
  | wake hnotified _ =>
    have hle := measure_resumed w w.jobs.queue
    rw [hnotified, Bool.toNat_true] at hle
    simp only [measure] at hle ⊢
    omega
  | finish hworker _ => exact h.measure_finish hworker
  | lock hhand hprogress =>
    refine measure_progress ?_ rfl
    cases alive <;> simp [rank, hsame, hhand, hprogress]
  | build hworker hprogress =>
    refine measure_progress ?_ ?_
    · simp [rank, inHand, hworker, hprogress]
    · unfold Buffers.read
      split <;> rfl
  | pushCaller hprogress =>
    obtain ⟨job, hworker⟩ := h.performing (.inl hprogress)
    refine measure_progress ?_ rfl
    simp [rank, inHand, hworker, hprogress]
  | leave hhand hholding =>
    refine measure_progress ?_ rfl
    cases hprogress : w.progress with
    | entered | returned => simp [hprogress, Progress.isHolding] at hholding
    | locked | built | pushed => simp [rank, hsame, hhand, hprogress]
  | @pop job rest hcancelling _ =>
    have hrank := ({ w with progress := .entered, cancelling := rest } : ChannelWork).rank_le
    rw [measure_endClosure]
    simp only [measure, hcancelling, List.length_cons] at hrank ⊢
    omega
  | dispatch hbuffers =>
    obtain ⟨⟨hsource, -⟩, hbuffers⟩ := Option.ite_none_right_eq_some.mp hbuffers
    cases hbuffers
    have hlength := List.length_erase_of_mem hsource
    have hpos := List.length_pos_of_mem hsource
    have hrank : ∀ buffers, ({ w with buffers } : ChannelWork).rank = w.rank := fun _ => rfl
    simp only [measure, hrank]
    omega

/-- A job in the worker's hands can be gone on with. -/
theorem Invariant.inHand_of_quiet (h : Invariant w) {alive : Bool} (hquiet : w.Quiet alive) : w.inHand = none := by
  by_contra hsome
  obtain ⟨⟨job, cancel⟩, hhand⟩ := Option.ne_none_iff_exists'.mp hsome
  cases hprogress : w.progress with
  | entered =>
    have hnone := hquiet .lock rfl
    simp [ChannelWork.step, ChannelWork.lock, hhand, hprogress] at hnone
  | locked =>
    cases cancel with
    | true =>
      have hnone := hquiet .leave rfl
      simp [ChannelWork.step, ChannelWork.leave, hhand, hprogress] at hnone
    | false =>
      have hnone := hquiet .build rfl
      simp [ChannelWork.step, ChannelWork.build, hhand, hprogress] at hnone
  | built =>
    have hnone := hquiet .pushCaller rfl
    simp [ChannelWork.step, ChannelWork.pushCaller, hprogress] at hnone
  | pushed =>
    obtain ⟨job, hworker⟩ := h.performing (.inr hprogress)
    have hnone := hquiet .leave rfl
    simp [ChannelWork.step, ChannelWork.leave, inHand, hworker, hprogress] at hnone
  | returned =>
    cases hworker : w.jobs.queue.worker with
    | performing job =>
      have hnone := hquiet .finish rfl
      simp [ChannelWork.step, ChannelWork.finish, JobQueue.finish, hworker, hprogress] at hnone
    | waiting | exited =>
      have hnone := hquiet .pop rfl
      cases hcancelling : w.cancelling with
      | nil => simp [inHand, hworker, hcancelling] at hhand
      | cons job rest => simp [ChannelWork.step, ChannelWork.pop, hcancelling, hprogress] at hnone

theorem cancelling_of_inHand (hhand : w.inHand = none) :
    w.cancelling = [] ∧ ∀ job, w.jobs.queue.worker ≠ .performing job := by
  unfold inHand at hhand
  split at hhand
  · cases hhand
  · rename_i hworker
    exact ⟨by simpa using hhand, by simp [hworker]⟩
  · rename_i hworker
    exact ⟨by simpa using hhand, by simp [hworker]⟩

theorem Invariant.quiet_jobs (h : Invariant w) {alive : Bool} (hquiet : w.Quiet alive) : w.jobs.Quiet := by
  obtain ⟨hcancelling, hworker⟩ := cancelling_of_inHand (h.inHand_of_quiet hquiet)
  intro l hl
  cases l with
  | push _ | terminate | wakeSpuriously => cases hl
  | notify => exact Option.map_eq_none_iff.mp (hquiet .notify rfl)
  | performInline job => exact Option.map_eq_none_iff.mp (hquiet (.performInline job) rfl)
  | terminateNotify => exact Option.map_eq_none_iff.mp (hquiet .terminateNotify rfl)
  | wake =>
    have hnone := hquiet .wake rfl
    show (if _ then _ else _) = none
    split
    · rename_i hnotified
      simp only [ChannelWork.step, hnotified, if_pos] at hnone
      rw [Option.map_eq_none_iff.mp hnone, Option.map_none]
    · rfl
  | finish =>
    show Option.map _ _ = none
    unfold JobQueue.finish
    split
    · rename_i job hperforming
      exact absurd hperforming (hworker job)
    · rfl
  | join =>
    have hnone := hquiet .join rfl
    simp only [ChannelWork.step, ChannelWork.join, hcancelling, if_pos] at hnone
    exact Option.map_eq_none_iff.mp hnone

/-- When everything has come to rest, every closure has been destroyed. -/
theorem Invariant.ended_of_quiet (h : Invariant w) {alive : Bool} (hquiet : w.Quiet alive) (hn : n < w.requested) :
    n ∈ w.ended := by
  obtain ⟨hcancelling, hworker⟩ := cancelling_of_inHand (h.inHand_of_quiet hquiet)
  obtain ⟨hpending, hinline⟩ := h.jobs.pending_of_quiet (h.quiet_jobs hquiet)
  have hcurrent : w.jobs.queue.current = none := by
    unfold JobQueue.current
    split
    · rename_i job hperforming
      exact absurd hperforming (hworker job)
    · rfl
  have hqueue : w.jobs.queue.queue = [] := by
    simpa [JobQueue.pending, hcurrent] using hpending
  have hlocked : w.locked = [] := by
    by_contra hsome
    obtain ⟨m, hm⟩ := List.exists_mem_of_ne_nil _ hsome
    have hnone := hquiet (.push m) rfl
    simp [ChannelWork.step, ChannelWork.push, hm, JobQueue.State.step, h.unpushed m hm] at hnone
  have hmem := h.closures.symm.subset (List.mem_range.mpr hn)
  simpa [hlocked, hinline, hqueue, hcancelling] using hmem

theorem Invariant.released_of_quiet (h : Invariant w) {alive : Bool} (hquiet : w.Quiet alive) (hn : n ∈ w.buffers.created) :
    n ∈ w.buffers.destroyed ∧ n ∈ w.buffers.released := by
  have hdestroyed : n ∈ w.buffers.destroyed := by
    rw [h.buffers.destroyed, List.mem_filter]
    exact ⟨h.ended_of_quiet hquiet (h.buffers.known n hn), decide_eq_true hn⟩
  refine ⟨hdestroyed, ?_⟩
  by_contra hkept
  have hsource : n ∈ w.buffers.sources :=
    (List.mem_append.mp (h.buffers.sources.symm.subset hn)).resolve_left hkept
  have hnone := hquiet (.dispatch n) rfl
  simp [ChannelWork.step, ChannelWork.dispatch, Buffers.dispatch, hsource, hdestroyed] at hnone

end ChannelWork

end ZenRemote.Server
