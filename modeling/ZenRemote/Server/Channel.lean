-- SUMMARY: A server channel: its job queue, request serials, gRPC queue, and disabling, one mutex section a step.
import ZenRemote.Core.Common
import ZenRemote.Server.JobQueue

/-!
# The server channel

A resource object of the server pushes a job to its channel for each request.
Performing the job takes the next serial of the channel, builds the request
context with it and starts one call through the gRPC queue. The channel is kept
alive by its user, so that the job can lock its weak reference.
-/

namespace ZenRemote.Server

universe u

/-- A call that has been started: the metadata and the job that asked for it. -/
structure Request (β : Type u) where
  context : RequestContext
  job : β
  deriving DecidableEq, Repr

/-- How far the worker is in the closure of an uncancelled resource job. -/
inductive JobProgress where
  | start
  /-- `SerialRequestContext` has been built. -/
  | context (c : RequestContext)
  /-- `PushGrpcCaller` has returned. -/
  | pushed
  deriving DecidableEq, Repr

structure Channel (β : Type u) where
  id : Nat
  sessionId : Nat
  jobQueue : JobQueue β := {}
  /-- `AsyncGrpcQueue::enabled_` of `grpc_queue_`. -/
  grpcEnabled : Bool := true
  enabled : Bool := true
  /-- A thread is in `Disable`, past `enabled_` and the section of `JobQueue::Terminate`. -/
  disabling : Bool := false
  /-- `serials_[kRequest]`. -/
  serial : Nat := 0
  progress : JobProgress := .start
  deriving DecidableEq, Repr

namespace Channel

variable {β : Type u}

def pushJob (ch : Channel β) (job : β) : Channel β :=
  { ch with jobQueue := (ch.jobQueue.push job).1 }

/-- `NewSerial(kRequest)`, and the context that `SerialRequestContext` builds with it. -/
def serialRequestContext (ch : Channel β) : RequestContext × Channel β :=
  (⟨ch.sessionId, ch.serial, ch.id⟩, { ch with serial := ch.serial + 1 })

/-- `AsyncGrpcQueue::Push` starts the call, or drops the caller once the queue is terminated. -/
def pushGrpcCaller (ch : Channel β) (request : Request β) : List (Request β) :=
  if ch.grpcEnabled then [request] else []

/-- The worker thread is woken in its wait. -/
def wake (ch : Channel β) : Option (Channel β) :=
  ch.jobQueue.wake.map fun out => { ch with jobQueue := out.1, progress := .start }

/-- The running job builds its context. -/
def buildContext (ch : Channel β) : Option (Channel β) :=
  match ch.jobQueue.worker, ch.progress with
  | .performing _, .start =>
    some { ch.serialRequestContext.2 with progress := .context ch.serialRequestContext.1 }
  | _, _ => none

/-- The running job pushes its caller. -/
def startCall (ch : Channel β) : Option (Channel β × List (Request β)) :=
  match ch.jobQueue.worker, ch.progress with
  | .performing job, .context c => some ({ ch with progress := .pushed }, ch.pushGrpcCaller ⟨c, job⟩)
  | _, _ => none

/-- The running job returns. -/
def finishJob (ch : Channel β) : Option (Channel β) :=
  match ch.progress with
  | .pushed => ch.jobQueue.finish.map fun out => { ch with jobQueue := out.1, progress := .start }
  | _ => none

/-- `Disable` up to the join in `JobQueue::Terminate`. It holds `mtx_`, so a
second call waits until the first one is through. -/
def disableBegin (ch : Channel β) : Option (Channel β) :=
  if ch.enabled ∧ ¬ ch.disabling then
    some { ch with jobQueue := ch.jobQueue.terminate, disabling := true }
  else none

/-- The worker is joined, and the rest of `Disable` follows. -/
def disableEnd (ch : Channel β) : Option (Channel β) :=
  match ch.jobQueue.worker with
  | .exited =>
    if ch.disabling then
      some { ch with grpcEnabled := false, enabled := false, disabling := false }
    else none
  | _ => none

-- ---------------------------------------------------------------------------
-- Serials
-- ---------------------------------------------------------------------------

/-- The number of calls started, or dropped, so far. -/
def callsPushed (ch : Channel β) : Nat :=
  match ch.progress with
  | .context c => c.serial
  | _ => ch.serial

/-- How channel `c` of session `sid` stands to the jobs pushed to it and begun
so far: every begun job has taken one serial, except for a running one that has
not built its context yet. -/
structure Orderly (c sid : Nat) (pushed begun : List β) (ch : Channel β) : Prop where
  order : ch.jobQueue.InPushOrder pushed begun
  id : ch.id = c
  sessionId : ch.sessionId = sid
  running : ∀ job, ch.jobQueue.worker = .performing job → begun.getLast? = some job
  start : ∀ job, ch.jobQueue.worker = .performing job → ch.progress = .start →
    ch.serial + 1 = begun.length
  taken : (∀ job, ch.jobQueue.worker ≠ .performing job) ∨ ch.progress ≠ .start →
    ch.serial = begun.length
  context : ∀ context, ch.progress = .context context →
    context = ⟨sid, context.serial, c⟩ ∧ context.serial + 1 = ch.serial ∧
      ∃ job, ch.jobQueue.worker = .performing job
  grpcEnabled : ch.jobQueue.worker ≠ .exited → ch.grpcEnabled

variable {c sid : Nat} {pushed begun : List β} {ch ch' : Channel β}

theorem orderly_new (c sid : Nat) :
    Orderly c sid [] [] ({ id := c, sessionId := sid } : Channel β) where
  order := JobQueue.inPushOrder_new
  id := rfl
  sessionId := rfl
  running := nofun
  start := nofun
  taken := fun _ => rfl
  context := nofun
  grpcEnabled := fun _ => rfl

/-- The worker goes through its loop with no job running. -/
theorem Orderly.resume (h : Orderly c sid pushed begun ch) {out : JobQueue β × List β}
    (horder : out.1.InPushOrder pushed (begun ++ out.1.current.toList))
    (hserial : ch.serial = begun.length) (hgrpc : ch.grpcEnabled) :
    Orderly c sid pushed (begun ++ out.1.current.toList)
      { ch with jobQueue := out.1, progress := .start } where
  order := horder
  id := h.id
  sessionId := h.sessionId
  running := by
    intro job hjob
    replace hjob : out.1.worker = .performing job := hjob
    simp [JobQueue.current, hjob]
  start := by
    intro job hjob _
    replace hjob : out.1.worker = .performing job := hjob
    simp [JobQueue.current, hjob, hserial]
  taken := by
    rintro (hne | hne)
    · cases hworker : out.1.worker with
      | performing job => exact absurd hworker (hne job)
      | waiting => simp [JobQueue.current, hworker, hserial]
      | exited => simp [JobQueue.current, hworker, hserial]
    · exact absurd rfl hne
  context := nofun
  grpcEnabled := fun _ => hgrpc

theorem Orderly.wake (h : Orderly c sid pushed begun ch)
    (hwake : ch.wake = some ch') :
    Orderly c sid pushed (begun ++ ch'.jobQueue.current.toList) ch' ∧
      ch'.callsPushed = ch.callsPushed := by
  obtain ⟨out, hout, rfl⟩ := Option.map_eq_some_iff.mp hwake
  have hworker : ch.jobQueue.worker = .waiting := by
    unfold JobQueue.wake at hout
    split at hout
    · assumption
    · contradiction
  have hserial := h.taken (.inl (by simp [hworker]))
  refine ⟨h.resume (h.order.wake hout) hserial (h.grpcEnabled (by simp [hworker])), ?_⟩
  unfold callsPushed
  split
  · contradiction
  split
  · rename_i context hprogress
    obtain ⟨-, -, job, hjob⟩ := h.context context hprogress
    simp [hworker] at hjob
  · rfl

theorem Orderly.finishJob (h : Orderly c sid pushed begun ch)
    (hfinish : ch.finishJob = some ch') :
    Orderly c sid pushed (begun ++ ch'.jobQueue.current.toList) ch' ∧
      ch'.callsPushed = ch.callsPushed := by
  unfold Channel.finishJob at hfinish
  split at hfinish
  · rename_i hprogress
    obtain ⟨out, hout, rfl⟩ := Option.map_eq_some_iff.mp hfinish
    have hworker : ch.jobQueue.worker ≠ .exited := by
      unfold JobQueue.finish at hout
      split at hout
      · rename_i hperforming
        simp [hperforming]
      · contradiction
    have hserial := h.taken (.inr (by simp [hprogress]))
    refine ⟨h.resume (h.order.finish hout) hserial (h.grpcEnabled hworker), ?_⟩
    simp [callsPushed, hprogress]
  · contradiction

theorem Orderly.buildContext (h : Orderly c sid pushed begun ch)
    (hbuild : ch.buildContext = some ch') :
    Orderly c sid pushed begun ch' ∧ ch'.callsPushed = ch.callsPushed := by
  unfold Channel.buildContext at hbuild
  split at hbuild
  · rename_i job hworker hprogress
    obtain rfl := Option.some.inj hbuild
    have hserial := h.start job hworker hprogress
    refine ⟨⟨h.order, h.id, h.sessionId, h.running, nofun, fun _ => hserial, ?_, h.grpcEnabled⟩, ?_⟩
    · rintro context ⟨⟩
      exact ⟨by simp [serialRequestContext, h.id, h.sessionId], rfl, job, hworker⟩
    · simp [callsPushed, hprogress, serialRequestContext]
  · contradiction

/-- Starting a call uses the serial after those of all earlier calls, and the
job that asked for it stands at this place among the jobs begun. -/
theorem Orderly.startCall {requests : List (Request β)}
    (h : Orderly c sid pushed begun ch) (hstart : ch.startCall = some (ch', requests)) :
    Orderly c sid pushed begun ch' ∧ ch'.callsPushed = ch.callsPushed + 1 ∧
      ∃ job, begun[ch.callsPushed]? = some job ∧
        requests = [⟨⟨sid, ch.callsPushed, c⟩, job⟩] := by
  unfold Channel.startCall at hstart
  split at hstart
  · rename_i job context hworker hprogress
    rw [Option.some.injEq, Prod.mk.injEq] at hstart
    obtain ⟨rfl, rfl⟩ := hstart
    obtain ⟨hcontext, hserial, -⟩ := h.context context hprogress
    have htaken := h.taken (.inr (by simp [hprogress]))
    have hpushed : ch.callsPushed = context.serial := by simp [callsPushed, hprogress]
    refine ⟨⟨h.order, h.id, h.sessionId, h.running, nofun, fun _ => htaken, nofun, h.grpcEnabled⟩, ?_, job, ?_, ?_⟩
    · rw [hpushed]
      exact hserial.symm
    · rw [hpushed, show context.serial = begun.length - 1 by omega, ← List.getLast?_eq_getElem?]
      exact h.running job hworker
    · rw [pushGrpcCaller, if_pos (h.grpcEnabled (by simp [hworker])), hpushed, ← hcontext]
  · contradiction

/-- Every job begun has started its call, except perhaps the last one. -/
theorem Orderly.length_le (h : Orderly c sid pushed begun ch) :
    begun.length ≤ ch.callsPushed + 1 := by
  by_cases htaken : (∀ job, ch.jobQueue.worker ≠ .performing job) ∨ ch.progress ≠ .start
  · have hserial := h.taken htaken
    unfold callsPushed
    split
    · rename_i context hprogress
      have := (h.context context hprogress).2.1
      omega
    · omega
  · simp only [ne_eq, not_or, Classical.not_forall, Classical.not_not] at htaken
    obtain ⟨⟨job, hjob⟩, hprogress⟩ := htaken
    have hserial := h.start job hjob hprogress
    simp only [callsPushed, hprogress]
    omega

theorem Orderly.pushJob (h : Orderly c sid pushed begun ch) (job : β) :
    Orderly c sid (pushed ++ [job]) begun (ch.pushJob job) := by
  have hworker : (ch.jobQueue.push job).1.worker = ch.jobQueue.worker := by
    unfold JobQueue.push
    split <;> rfl
  exact {
    order := h.order.push job
    id := h.id
    sessionId := h.sessionId
    running := fun j hj => h.running j (hworker ▸ hj)
    start := fun j hj => h.start j (hworker ▸ hj)
    taken := fun hj => h.taken (hj.imp (fun hne j => hworker ▸ hne j) fun hne => hne)
    context := fun context hc => by simpa [Channel.pushJob, hworker] using h.context context hc
    grpcEnabled := fun hne => h.grpcEnabled (hworker ▸ hne) }

theorem Orderly.disableBegin (h : Orderly c sid pushed begun ch)
    (hdisable : ch.disableBegin = some ch') :
    Orderly c sid pushed begun ch' ∧ ch'.callsPushed = ch.callsPushed := by
  unfold Channel.disableBegin at hdisable
  split at hdisable
  · obtain rfl := Option.some.inj hdisable
    exact ⟨⟨h.order.terminate, h.id, h.sessionId, h.running, h.start, h.taken, h.context, h.grpcEnabled⟩, rfl⟩
  · contradiction

/-- The gRPC queue is terminated only once the worker has exited. -/
theorem Orderly.disableEnd (h : Orderly c sid pushed begun ch)
    (hdisable : ch.disableEnd = some ch') :
    Orderly c sid pushed begun ch' ∧ ch'.callsPushed = ch.callsPushed := by
  unfold Channel.disableEnd at hdisable
  split at hdisable
  · rename_i hworker
    split at hdisable
    · obtain rfl := Option.some.inj hdisable
      exact ⟨⟨h.order, h.id, h.sessionId, h.running, h.start, h.taken, h.context, fun hne => absurd hworker hne⟩, rfl⟩
    · contradiction
  · contradiction

end Channel

end ZenRemote.Server
