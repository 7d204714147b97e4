-- SUMMARY: Delivering what is under way ends, and then the client has exactly the resources of the application.
import Mathlib.Algebra.BigOperators.Group.Finset.Basic
import ZenRemote.Mirror

/-!
# Convergence

When the application rests, and no channel has been disabled, every step of a worker, of
the network and of the update thread brings the system closer to a state in which nothing
is under way, and the rendering thread does not come in the way. There the mirror is
complete.
-/

namespace ZenRemote

open Client (CommandQueues Driver PoolState SerialCommandQueue)
open Server (Channel lifetimes)
open scoped List

universe u

namespace Server.Channel

variable {β : Type u} {ch ch' : Channel β} {c sid : Nat} {pushed begun : List β}

/-- How far the running job is, weighed by what is left to do. -/
def stage (ch : Channel β) : Nat :=
  match ch.jobQueue.worker, ch.progress with
  | .performing _, .start => 1
  | .performing _, .context _ => 2
  | .performing _, .pushed => 5
  | _, _ => 0

/-- An upper bound of the steps until the queue is empty; a started call counts for two. -/
def work (ch : Channel β) : Nat := 7 * ch.jobQueue.queue.length - ch.stage

/-- The running job is at the front of the queue. -/
theorem Orderly.length_pos (h : Orderly c sid pushed begun ch) {job : β}
    (hworker : ch.jobQueue.worker = .performing job) : 0 < ch.jobQueue.queue.length := by
  obtain ⟨rest, hqueue, -⟩ := h.order.pending (by simp [hworker])
  rw [hqueue]
  simp [JobQueue.current, hworker]

/-- A running channel of which no step of the worker is left has done all its jobs. -/
theorem Orderly.idle (h : Orderly c sid pushed begun ch) (hrunning : ch.jobQueue.running)
    (hbuild : ch.buildContext = none) (hstart : ch.startCall = none) (hfinish : ch.finishJob = none)
    (hwake : ch.jobQueue.queue ≠ [] → ch.wake = none) :
    ch.jobQueue.worker = .waiting ∧ ch.jobQueue.queue = [] := by
  have hworker : ch.jobQueue.worker = .waiting := by
    cases hworker : ch.jobQueue.worker with
    | waiting => rfl
    | exited =>
      have hstopped := h.order.stopped hworker
      rw [hrunning] at hstopped
      cases hstopped
    | performing job =>
      -- one of the three is possible, whatever the job has done so far
      cases hprogress : ch.progress with
      | start => simp [Channel.buildContext, hworker, hprogress] at hbuild
      | context context => simp [Channel.startCall, hworker, hprogress] at hstart
      | pushed => simp [Channel.finishJob, JobQueue.finish, hworker, hprogress] at hfinish
  refine ⟨hworker, Classical.byContradiction fun hqueue => ?_⟩
  have hnone := hwake hqueue
  simp [Channel.wake, JobQueue.wake, hworker] at hnone

/-- The worker goes on with the front job, if there is one. -/
theorem work_resume_le (ch : Channel β) {q : JobQueue β} (hrunning : q.running) :
    q.resume.1.running ∧ ({ ch with jobQueue := q.resume.1, progress := .start } : Channel β).work ≤
      7 * q.queue.length - min q.queue.length 1 := by
  cases hqueue : q.queue with
  | nil => simp [JobQueue.resume, hrunning, hqueue, work]
  | cons job rest => simp [JobQueue.resume, hrunning, hqueue, work, stage]

theorem work_wake (hrunning : ch.jobQueue.running) (hqueue : ch.jobQueue.queue ≠ [])
    (hwake : ch.wake = some ch') : ch'.jobQueue.running ∧ ch'.work < ch.work := by
  obtain ⟨out, hout, rfl⟩ := Option.map_eq_some_iff.mp hwake
  unfold JobQueue.wake at hout
  split at hout
  · rename_i hworker
    obtain rfl := Option.some.inj hout
    obtain ⟨hrunning', hle⟩ := work_resume_le ch hrunning
    have hpos := List.length_pos_iff.mpr hqueue
    have hwork : ch.work = 7 * ch.jobQueue.queue.length := by simp [work, stage, hworker]
    exact ⟨hrunning', by omega⟩
  · contradiction

theorem work_finishJob (h : Orderly c sid pushed begun ch) (hrunning : ch.jobQueue.running)
    (hfinish : ch.finishJob = some ch') : ch'.jobQueue.running ∧ ch'.work < ch.work := by
  unfold finishJob at hfinish
  split at hfinish
  · rename_i hprogress
    obtain ⟨out, hout, rfl⟩ := Option.map_eq_some_iff.mp hfinish
    unfold JobQueue.finish at hout
    split at hout
    · rename_i job hworker
      obtain rfl := Option.some.inj hout
      obtain ⟨hrunning', hle⟩ := work_resume_le ch
        (q := { ch.jobQueue with queue := ch.jobQueue.queue.tail }) hrunning
      have hpos := h.length_pos hworker
      have hwork : ch.work = 7 * ch.jobQueue.queue.length - 5 := by
        simp [work, stage, hworker, hprogress]
      refine ⟨hrunning', hle.trans_lt ?_⟩
      rw [hwork, List.length_tail]
      omega
    · contradiction
  · contradiction

theorem work_buildContext (h : Orderly c sid pushed begun ch) (hrunning : ch.jobQueue.running)
    (hbuild : ch.buildContext = some ch') : ch'.jobQueue.running ∧ ch'.work < ch.work := by
  unfold buildContext at hbuild
  split at hbuild
  · rename_i job hworker hprogress
    obtain rfl := Option.some.inj hbuild
    have hpos := h.length_pos hworker
    refine ⟨hrunning, ?_⟩
    simp only [work, stage, serialRequestContext, hworker, hprogress]
    omega
  · contradiction

theorem work_startCall (h : Orderly c sid pushed begun ch) (hrunning : ch.jobQueue.running)
    {requests : List (Request β)} (hstart : ch.startCall = some (ch', requests)) :
    ch'.jobQueue.running ∧ ch'.work + 2 * requests.length < ch.work := by
  obtain ⟨-, -, job, -, rfl⟩ := h.startCall hstart
  unfold startCall at hstart
  split at hstart
  · rename_i job context hworker hprogress
    rw [Option.some.injEq, Prod.mk.injEq] at hstart
    obtain ⟨rfl, -⟩ := hstart
    have hpos := h.length_pos hworker
    refine ⟨hrunning, ?_⟩
    simp only [work, stage, hworker, hprogress, List.length_singleton]
    omega
  · contradiction

/-- A running worker with nothing to do has begun all that was pushed. -/
theorem Orderly.begun_eq (h : Orderly c sid pushed begun ch) (hrunning : ch.jobQueue.running)
    (hworker : ch.jobQueue.worker = .waiting) (hqueue : ch.jobQueue.queue = []) :
    begun = pushed ∧ ch.callsPushed = begun.length := by
  obtain ⟨rest, hrest, -, hall⟩ := h.order.pending (by simp [hworker])
  rw [hqueue] at hrest
  have hnil : rest = [] := (List.append_eq_nil_iff.mp hrest.symm).2
  refine ⟨by simpa [hnil] using hall hrunning, ?_⟩
  have hserial := h.taken (.inl (by simp [hworker]))
  unfold callsPushed
  split
  · rename_i context hprogress
    obtain ⟨-, -, job, hjob⟩ := h.context context hprogress
    rw [hworker] at hjob
    cases hjob
  · exact hserial

end Server.Channel

-- ---------------------------------------------------------------------------
-- The link
-- ---------------------------------------------------------------------------

namespace EndToEnd

variable {γ : Type u} {sid : Nat} {s s' : State γ} {channels : List Nat}

/-- The work of the channels; a call in flight has to arrive and to be handled. -/
def work (channels : List Nat) (s : State γ) : Nat :=
  ∑ c ∈ channels.toFinset, (s.channels c).work + 2 * s.network.length

/-- A worker steps, unless it would only go on waiting. -/
def Works (s : State γ) : Label γ → Prop
  | .wake c => (s.channels c).jobQueue.queue ≠ []
  | .buildContext _ | .startCall _ | .finishJob _ => True
  | _ => False

def Running (s : State γ) : Prop := ∀ c, (s.channels c).jobQueue.running

theorem work_setChannel {c : Nat} {ch : Channel (Job γ)} (requests : List (Server.Request (Job γ)))
    (hc : c ∈ channels) (hlt : ch.work + 2 * requests.length < (s.channels c).work)
    (hchannels : s'.channels = Function.update s.channels c ch)
    (hnetwork : s'.network = s.network ++ requests) : work channels s' < work channels s := by
  have hmem : c ∈ channels.toFinset := List.mem_toFinset.mpr hc
  have hrest : ∑ c' ∈ channels.toFinset.erase c, (s'.channels c').work =
      ∑ c' ∈ channels.toFinset.erase c, (s.channels c').work := by
    refine Finset.sum_congr rfl fun c' hc' => ?_
    rw [hchannels, Function.update_of_ne (Finset.ne_of_mem_erase hc')]
  have hself : (s'.channels c).work = ch.work := by rw [hchannels, Function.update_self]
  unfold work
  rw [← Finset.add_sum_erase _ _ hmem, ← Finset.add_sum_erase _ _ hmem, hrest, hself, hnetwork,
    List.length_append]
  omega

/-- Only where something was pushed is there anything to do. -/
theorem ServerInv.mem_of_performing (h : ServerInv sid s) (hchannels : ∀ c, s.pushed c ≠ [] → c ∈ channels)
    {c : Nat} (hqueue : (s.channels c).jobQueue.queue ≠ []) (hworker : (s.channels c).jobQueue.worker ≠ .exited) :
    c ∈ channels := by
  refine hchannels c fun hnil => hqueue ?_
  obtain ⟨rest, hrest, hpre, -⟩ := (h.channels c).order.pending hworker
  have hbegun := (h.channels c).order.begun
  rw [hnil] at hpre hbegun
  have hrest' : rest = [] := (List.append_eq_nil_iff.mp (List.prefix_nil.mp hpre)).2
  rw [hrest, hrest', List.append_nil]
  cases hcurrent : (s.channels c).jobQueue.current with
  | none => rfl
  | some job =>
    have hperforming : (s.channels c).jobQueue.worker = .performing job := by
      unfold Server.JobQueue.current at hcurrent
      split at hcurrent
      · rename_i hperforming
        exact hperforming.trans (congrArg _ (Option.some.inj hcurrent))
      · contradiction
    have hlast := (h.channels c).running job hperforming
    rw [List.prefix_nil.mp hbegun] at hlast
    cases hlast

theorem Running.setChannel (h : Running s) {c : Nat} {ch : Channel (Job γ)} (hch : ch.jobQueue.running)
    (hchannels : s'.channels = Function.update s.channels c ch) : Running s' := by
  intro c'
  rw [hchannels]
  by_cases hc : c' = c
  · subst hc
    rw [Function.update_self]
    exact hch
  · rw [Function.update_of_ne hc]
    exact h c'

theorem work_step (h : ServerInv sid s) (hrunning : Running s)
    (hchannels : ∀ c, s.pushed c ≠ [] → c ∈ channels) {l : Label γ} (hl : Works s l)
    (hstep : s.step l = some s') : Running s' ∧ work channels s' < work channels s := by
  have hmem : ∀ c, (s.channels c).jobQueue.queue ≠ [] → c ∈ channels := by
    intro c hqueue
    refine h.mem_of_performing hchannels hqueue fun hexited => ?_
    have hstopped := (h.channels c).order.stopped hexited
    rw [hrunning c] at hstopped
    cases hstopped
  have hbusy : ∀ {c job}, (s.channels c).jobQueue.worker = .performing job → c ∈ channels := fun hjob =>
    hmem _ (List.length_pos_iff.mp ((h.channels _).length_pos hjob))
  cases l with
  | wake c =>
    obtain ⟨ch, hch, rfl⟩ := Option.map_eq_some_iff.mp hstep
    obtain ⟨hrunning', hlt⟩ := Channel.work_wake (hrunning c) hl hch
    exact ⟨hrunning.setChannel hrunning' rfl,
      work_setChannel [] (hmem c hl) hlt rfl (List.append_nil _).symm⟩
  | buildContext c =>
    obtain ⟨ch, hch, rfl⟩ := Option.map_eq_some_iff.mp hstep
    obtain ⟨hrunning', hlt⟩ := Channel.work_buildContext (h.channels c) (hrunning c) hch
    refine ⟨hrunning.setChannel hrunning' rfl,
      work_setChannel [] ?_ hlt rfl (List.append_nil _).symm⟩
    unfold Channel.buildContext at hch
    split at hch
    · exact hbusy ‹_›
    · contradiction
  | startCall c =>
    obtain ⟨⟨ch, requests⟩, hch, rfl⟩ := Option.map_eq_some_iff.mp hstep
    obtain ⟨hrunning', hlt⟩ := Channel.work_startCall (h.channels c) (hrunning c) hch
    refine ⟨hrunning.setChannel hrunning' rfl, work_setChannel requests ?_ hlt rfl rfl⟩
    unfold Channel.startCall at hch
    split at hch
    · exact hbusy ‹_›
    · contradiction
  | finishJob c =>
    obtain ⟨ch, hch, rfl⟩ := Option.map_eq_some_iff.mp hstep
    obtain ⟨hrunning', hlt⟩ := Channel.work_finishJob (h.channels c) (hrunning c) hch
    refine ⟨hrunning.setChannel hrunning' rfl,
      work_setChannel [] ?_ hlt rfl (List.append_nil _).symm⟩
    unfold Channel.finishJob at hch
    split at hch
    · obtain ⟨out, hout, -⟩ := Option.map_eq_some_iff.mp hch
      unfold Server.JobQueue.finish at hout
      split at hout
      · exact hbusy ‹_›
      · contradiction
    · contradiction
  | pushJob c payload | disableBegin c | disableEnd c | arrive i => exact hl.elim

/-- What is executed has arrived, each call as often. -/
theorem ClientInv.length_executed_le (hserver : ServerInv sid s) (h : ClientInv sid s)
    (hfew : (s.arrived.map (fun request => request.context.channel)).toFinset.card ≤ 100) :
    s.executed.length ≤ s.arrived.length := by
  classical
  refine List.Subperm.length_le (List.subperm_ext_iff.mpr fun r _ => ?_)
  set c := r.context.channel with hc
  have hcount : ∀ l : List (Server.Request (Job γ)),
      l.count r = (l.filter fun request => request.context.channel = c).count r := by
    intro l
    rw [List.count_filter]
    exact decide_eq_true rfl
  have hpushes : (CommandQueues.pushesOn c (s.arrived.map toCall)).map Prod.snd =
      s.arrived.filter fun request => request.context.channel = c := by
    rw [CommandQueues.pushesOn, List.filter_map, List.map_map, List.map_map]
    exact (List.map_congr_left fun _ _ => rfl).trans (List.map_id _)
  have hconserved := (SerialCommandQueue.run_accounts
    (CommandQueues.pushesOn c (s.arrived.map toCall))).conserved.map Prod.snd
  rw [List.map_append, hpushes] at hconserved
  rw [hcount s.executed, hcount s.arrived, h.executed c, executed_eq_privateQueue hserver hfew c,
    ← hconserved.count_eq, List.count_append]
  exact Nat.le_add_right _ _

/-- Nothing is under way, so everything pushed has been executed. -/
theorem executedOn_of_idle (hserver : ServerInv sid s) (hclient : ClientInv sid s)
    (hfew : (s.arrived.map (fun request => request.context.channel)).toFinset.card ≤ 100)
    (hrunning : Running s) (hnetwork : s.network = []) {c : Nat}
    (hworker : (s.channels c).jobQueue.worker = .waiting) (hqueue : (s.channels c).jobQueue.queue = []) :
    s.executedOn c = s.pushed c := by
  obtain ⟨hbegun, hcalls⟩ := (hserver.channels c).begun_eq (hrunning c) hworker hqueue
  rw [executedOn_eq_take hserver hclient hfew c, ← hbegun]
  refine List.take_of_length_le (not_lt.mp fun hlt => ?_)
  obtain ⟨request, hrequest, hchannel, hserial⟩ := hserver.complete c _ (hcalls ▸ hlt)
  rw [hnetwork, List.nil_append] at hrequest
  have hleast := (SerialCommandQueue.inOrder_of_nodup (distinctSerials hserver c)).least
  refine hleast.1 (List.mem_map.mpr ⟨(request.context.serial, request), ?_, hserial⟩)
  exact mem_pushesOn_toCall.mpr ⟨hrequest, hchannel, rfl⟩

end EndToEnd

-- ---------------------------------------------------------------------------
-- The mirror
-- ---------------------------------------------------------------------------

namespace Mirror

variable {gl : Driver} {sid : Nat} {s s' : State}

/-- A step of a worker, of the network or of the update thread. -/
def Delivers (s : State) : Label → Prop
  | .link (.arrive _) | .handle => True
  | .link l => EndToEnd.Works s.link l
  | .application _ | .mergeNew | .applyRemovals | .executeNext => False

/-- A step of the rendering thread. -/
def Label.isRendering : Label → Bool
  | .mergeNew | .applyRemovals | .executeNext => true
  | .application _ | .link _ | .handle => false

/-- What is under way goes on, and the rendering thread does. -/
def GoesOn (s : State) (l : Label) : Prop := (Delivers s l ∨ l.isRendering = true) ∧ KeepsRemoval s l

/-- At most a new traversal can begin, and committed closures can be executed. -/
def Settled (gl : Driver) (sid : Nat) (s : State) : Prop :=
  ∀ l, Delivers s l ∨ l = .applyRemovals → KeepsRemoval s l → (machine gl sid).step s l = none

/-- The rendering thread is between the two sections of a traversal. -/
def State.merging (s : State) : Bool :=
  match s.pool with
  | .ok pool => pool.merging
  | .error _ => false

theorem merging_eq {pool : PoolState} (hpool : s.pool = .ok pool) : s.merging = pool.merging := by
  rw [State.merging, hpool]

def work (s : State) : Nat :=
  EndToEnd.work s.application.channels s.link + (s.link.arrived.length - s.handled.length)

/-- The application rests, and no channel is disabled. -/
structure Rests (sid : Nat) (application : Server.Application) (s : State) : Prop where
  inv : Inv sid s
  running : EndToEnd.Running s.link
  application : s.application = application

variable {application : Server.Application}

theorem Inv.length_executed_le (h : Inv sid s) :
    s.handled.length + s.handlers.length ≤ s.link.arrived.length := by
  have hle := EndToEnd.ClientInv.length_executed_le h.link.server h.link.client h.fewChannels
  rwa [h.link.executed, List.length_append] at hle

theorem delivers_of_works {l : EndToEnd.Label Client.Request} (hl : EndToEnd.Works s.link l) :
    Delivers s (.link l) ∧ s.linkStep l = s.link.step l := by
  cases l with
  | wake c | buildContext c | startCall c | finishJob c => exact ⟨hl, rfl⟩
  | pushJob c payload | disableBegin c | disableEnd c | arrive i => exact hl.elim

theorem arrived_step_of_works {link link' : EndToEnd.State Client.Request}
    {l : EndToEnd.Label Client.Request} (hl : EndToEnd.Works link l) (hstep : link.step l = some link') :
    link'.arrived = link.arrived := by
  cases l with
  | wake c | buildContext c | startCall c | finishJob c =>
    obtain ⟨out, -, rfl⟩ := Option.map_eq_some_iff.mp hstep
    rfl
  | pushJob c payload | disableBegin c | disableEnd c | arrive i => exact hl.elim

theorem Rests.link_of_works (h : Rests sid application s) {l : EndToEnd.Label Client.Request}
    {link : EndToEnd.State Client.Request} (hl : EndToEnd.Works s.link l)
    (hstep : s.linkStep l = some link) :
    Rests sid application { s with
      link, handlers := s.handlers ++ link.executed.drop s.link.executed.length } ∧
      EndToEnd.work s.application.channels link + (link.arrived.length - s.handled.length) < work s := by
  have hpushed : ∀ c, s.link.pushed c ≠ [] → c ∈ s.application.channels := fun c hne =>
    h.inv.sound.channels c fun hnil => hne (List.map_eq_nil_iff.mp hnil)
  obtain ⟨-, hlink⟩ := linkStep_eq_some hstep
  obtain ⟨hrunning, hlt⟩ := EndToEnd.work_step h.inv.link.server h.running hpushed hl hlink
  rw [arrived_step_of_works hl hlink]
  exact ⟨⟨h.inv.linkStep hstep, hrunning, h.application⟩, Nat.add_lt_add_right hlt _⟩

theorem Rests.deliver (h : Rests sid application s) {l : Label} (hl : Delivers s l) (hkeeps : KeepsRemoval s l)
    (hstep : (machine gl sid).step s l = some s') : Rests sid application s' ∧ work s' < work s := by
  cases step_cases hstep with
  | application hop => exact hl.elim
  | mergeNew _ _ | applyRemovals _ _ | executeNext _ _ => exact hl.elim
  | handle hhandlers hpool _ =>
    refine ⟨⟨h.inv.handle hhandlers hpool (hkeeps.not_removesNew hhandlers hpool), h.running,
      h.application⟩, ?_⟩
    have hle := h.inv.length_executed_le
    rw [hhandlers, List.length_cons] at hle
    simp only [work, List.length_append, List.length_singleton]
    omega
  | @link l link hlink =>
    cases l with
    | arrive i =>
      obtain ⟨-, harrive⟩ := linkStep_eq_some hlink
      obtain ⟨request, hi, rfl⟩ := Option.map_eq_some_iff.mp harrive
      refine ⟨⟨h.inv.linkStep hlink, h.running, h.application⟩, ?_⟩
      have hlt : i < s.link.network.length := (List.getElem?_eq_some_iff.mp hi).1
      have hnetwork : (s.link.network.eraseIdx i).length = s.link.network.length - 1 :=
        List.length_eraseIdx_of_lt hlt
      simp only [work, EndToEnd.work, EndToEnd.State.arrive, hnetwork, List.length_append,
        List.length_singleton]
      omega
    | pushJob c payload => cases hlink
    | wake c | buildContext c | startCall c | finishJob c | disableBegin c | disableEnd c =>
      refine h.link_of_works ?_ hlink
      exact hl

theorem Rests.merging_deliver (h : Rests sid application s) {l : Label} (hl : Delivers s l)
    (hkeeps : KeepsRemoval s l) (hstep : (machine gl sid).step s l = some s') : s'.merging = s.merging := by
  obtain ⟨hrests, -⟩ := h.deliver hl hkeeps hstep
  cases step_cases hstep with
  | application hop => exact hl.elim
  | mergeNew _ _ | applyRemovals _ _ | executeNext _ _ => exact hl.elim
  | link hlink => rfl
  | handle hhandlers hpool _ =>
    obtain ⟨pool', hpool', -⟩ := hrests.inv.pool
    rw [merging_eq hpool', merging_eq hpool]
    exact PoolState.merging_handle hpool'

/-- The rendering thread neither adds work nor does any. -/
theorem Rests.render (h : Rests sid application s) {l : Label} (hl : l.isRendering = true)
    (hkeeps : KeepsRemoval s l) (hstep : (machine gl sid).step s l = some s') :
    Rests sid application s' ∧ work s' = work s := by
  have hproper : Proper s l := by
    cases l with
    | application op => cases hl
    | link _ | handle | mergeNew | applyRemovals | executeNext => trivial
  have hinv := h.inv.step hproper hkeeps hstep
  cases step_cases hstep with
  | application hop => cases hl
  | link hlink => cases hl
  | handle _ _ _ => cases hl
  | mergeNew _ _ | applyRemovals _ _ | executeNext _ _ => exact ⟨⟨hinv, h.running, h.application⟩, rfl⟩

theorem Rests.step (h : Rests sid application s) {l : Label} (hl : GoesOn s l)
    (hstep : (machine gl sid).step s l = some s') :
    Rests sid application s' ∧ work s' + (!l.isRendering).toNat ≤ work s := by
  obtain ⟨hdelivers | hrendering, hkeeps⟩ := hl
  · obtain ⟨hrests, hlt⟩ := h.deliver hdelivers hkeeps hstep
    exact ⟨hrests, (Nat.add_le_add_left (Bool.toNat_le _) _).trans hlt⟩
  · obtain ⟨hrests, heq⟩ := h.render hrendering hkeeps hstep
    rw [hrendering]
    exact ⟨hrests, heq.le⟩

/-- Nothing is under way where nothing can go on. A handler that waits for a lock waits for
the second section of a traversal. -/
theorem Rests.idle (h : Rests sid application s) (hsettled : Settled gl sid s) :
    s.handlers = [] ∧ s.link.network = [] ∧ s.merging = false ∧ ∀ c,
      (s.link.channels c).jobQueue.worker = .waiting ∧ (s.link.channels c).jobQueue.queue = [] := by
  obtain ⟨pool, hpool, -⟩ := h.inv.pool
  have hmerging : pool.merging = false := by
    have hremovals := hsettled .applyRemovals (.inr rfl) trivial
    simp only [machine, State.step, hpool, ite_eq_right_iff, reduceCtorEq, imp_false] at hremovals
    exact Bool.eq_false_iff.mpr hremovals
  have hhandlers : s.handlers = [] := by
    cases hhandlers : s.handlers with
    | nil => rfl
    | cons r rest =>
      have hkeeps : KeepsRemoval s .handle := by
        intro r _ pool' hpool' hremoves
        rw [hpool] at hpool'
        obtain rfl := Option.some.inj hpool'
        exact Bool.eq_false_iff.mp hmerging hremoves.1
      have hhandle := hsettled .handle (.inl trivial) hkeeps
      simp [machine, State.step, hhandlers, hpool, PoolState.waits, hmerging] at hhandle
  have hlink : ∀ l, EndToEnd.Works s.link l → s.link.step l = none := by
    intro l hl
    obtain ⟨hdelivers, hlink⟩ := delivers_of_works hl
    exact hlink ▸ Option.map_eq_none_iff.mp (hsettled (.link l) (.inl hdelivers) trivial)
  refine ⟨hhandlers, ?_, (merging_eq hpool).trans hmerging, fun c => ?_⟩
  · cases hnetwork : s.link.network with
    | nil => rfl
    | cons request rest =>
      have harrive := hsettled (.link (.arrive 0)) (.inl trivial) trivial
      simp [machine, State.step, State.linkStep, hhandlers, EndToEnd.State.step, hnetwork] at harrive
  · refine (h.inv.link.server.channels c).idle (h.running c) ?_ ?_ ?_ fun hqueue => ?_
    · exact Option.map_eq_none_iff.mp (hlink (.buildContext c) trivial)
    · exact Option.map_eq_none_iff.mp (hlink (.startCall c) trivial)
    · exact Option.map_eq_none_iff.mp (hlink (.finishJob c) trivial)
    · exact Option.map_eq_none_iff.mp (hlink (.wake c) hqueue)

/-- The client has exactly the application's resources, once it has traversed the virtual
objects. -/
structure Converged (application : Server.Application) (s : State) : Prop where
  rests : s.application = application
  handled : ∀ c, s.handledOn c = s.pushedOn c
  pool : ∃ pool, s.pool = .ok pool ∧ pool.merging = false ∧ ∀ k id,
    pool.forEachVirtualObject.Holds k id ↔ ∃ c, ⟨c, k, id⟩ ∈ application.resources

theorem Rests.converged (h : Rests sid application s) (hsettled : Settled gl sid s) :
    Converged application s := by
  obtain ⟨hhandlers, hnetwork, hmerging, hidle⟩ := h.idle hsettled
  have hhandled : ∀ c, s.handledOn c = s.pushedOn c := by
    intro c
    have hexecuted := EndToEnd.executedOn_of_idle h.inv.link.server h.inv.link.client
      h.inv.fewChannels h.running hnetwork (hidle c).1 (hidle c).2
    have heq := executedOn_eq h.inv.link.executed c
    rw [hexecuted, hhandlers] at heq
    exact (List.append_nil _).symm.trans heq.symm
  obtain ⟨pool, hpool, hinv⟩ := h.inv.pool
  rw [merging_eq hpool] at hmerging
  refine ⟨h.application, hhandled, pool, hpool, hmerging, fun k id => ?_⟩
  have htraversed : pool.traversed = pool.forEachVirtualObject := by
    rw [PoolState.traversed, hmerging]
    rfl
  rw [← htraversed, PoolState.holds_traversed hinv.between, ← h.application]
  refine (hinv.mirrors (k, id)).trans (exists_congr fun c => ?_)
  rw [h.inv.sound.resources, hhandled]

theorem Rests.settle (h : Rests sid application s) {l : Label}
    (hl : (Delivers s l ∨ l = .applyRemovals) ∧ KeepsRemoval s l)
    (hstep : (machine gl sid).step s l = some s') :
    Rests sid application s' ∧ work s' + s'.merging.toNat < work s + s.merging.toNat := by
  obtain ⟨hdelivers | rfl, hkeeps⟩ := hl
  · obtain ⟨hrests, hlt⟩ := h.deliver hdelivers hkeeps hstep
    rw [h.merging_deliver hdelivers hkeeps hstep]
    exact ⟨hrests, Nat.add_lt_add_right hlt _⟩
  · obtain ⟨hrests, hwork⟩ := h.render rfl hkeeps hstep
    refine ⟨hrests, ?_⟩
    cases step_cases hstep with
    | applyRemovals hpool hmerging =>
      rw [hwork, merging_eq hpool, hmerging]
      exact Nat.lt_succ_self _

end Mirror

end ZenRemote
