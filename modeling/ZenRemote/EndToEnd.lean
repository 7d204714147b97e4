-- SUMMARY: The channels of a session end to end: jobs pushed on the server, calls in flight, handlers run on the client.
import Mathlib.Logic.Function.Basic
import ZenRemote.Client.Session
import ZenRemote.Client.SessionContext
import ZenRemote.Lib.Machine
import ZenRemote.Server.Channel

/-!
# End to end

The server pushes jobs to its channels, the network delivers each started call
at most once, late and in any order, and the client holds commands back until
their turn has come. The session stays current throughout. A call carries its
context in its metadata, and as long as the numbers fit in 64 bits the client
reads what the server has written.
-/

namespace ZenRemote

open Client (CommandQueues PushArgs SerialCommandQueue)
open Server (Channel Request)
open scoped List

universe u

namespace EndToEnd

variable {γ : Type u}

/-- A job has its number among the jobs pushed to its channel, and a payload. -/
abbrev Job (γ : Type u) := Nat × γ

/-- Next to the two parties and the calls in flight, the state records what was
pushed to and begun on each channel, what has arrived, and what was executed. -/
structure State (γ : Type u) where
  channels : Nat → Channel (Job γ)
  network : List (Request (Job γ)) := []
  session : Client.Session (Request (Job γ)) Unit
  pushed : Nat → List (Job γ) := fun _ => []
  uncancelled : Nat → List (Job γ) := fun _ => []
  arrived : List (Request (Job γ)) := []
  executed : List (Request (Job γ)) := []

inductive Label (γ : Type u) where
  | pushJob (c : Nat) (payload : γ)
  | wake (c : Nat)
  | buildContext (c : Nat)
  | startCall (c : Nat)
  | finishJob (c : Nat)
  | disableBegin (c : Nat)
  | disableEnd (c : Nat)
  /-- The `i`-th call in flight arrives. -/
  | arrive (i : Nat)

/-- `Proceed` of the caller of an arrived call, with a current session, once it has
the context: the call is answered `ABORTED` or its command is pushed. -/
def receive {Pool : Type} (session : Client.Session (Request (Job γ)) Pool)
    (request : Request (Job γ)) :
    Client.Session (Request (Job γ)) Pool × List (Nat × Request (Job γ)) :=
  if session.id ≠ request.context.session then (session, [])
  else session.pushCommand request.context.serial request.context.channel request

/-- `Proceed`, which reads the context from the metadata. -/
def proceed {Pool : Type} (session : Client.Session (Request (Job γ)) Pool) (metadata : Metadata)
    (job : Job γ) : Client.Session (Request (Job γ)) Pool × List (Nat × Request (Job γ)) :=
  match Client.isSessionContext metadata ⟨0, 0, 0⟩ with
  | (false, _) => (session, [])
  | (true, ids) => receive session ⟨ids.toRequestContext, job⟩

namespace State

def setChannel (s : State γ) (c : Nat) (ch : Channel (Job γ)) : State γ :=
  { s with channels := Function.update s.channels c ch }

/-- The worker of channel `c` has been through its loop, and may have begun a job. -/
def setWorker (s : State γ) (c : Nat) (ch : Channel (Job γ)) : State γ :=
  { s.setChannel c ch with
    uncancelled := Function.update s.uncancelled c
      (s.uncancelled c ++ ch.jobQueue.current.toList) }

def pushJob (s : State γ) (c : Nat) (payload : γ) : State γ :=
  let job := ((s.pushed c).length, payload)
  { s.setChannel c ((s.channels c).pushJob job) with
    pushed := Function.update s.pushed c (s.pushed c ++ [job]) }

def arrive (s : State γ) (i : Nat) (request : Request (Job γ)) : State γ :=
  let (session, executed) := receive s.session request
  { s with
    network := s.network.eraseIdx i
    session
    arrived := s.arrived ++ [request]
    executed := s.executed ++ executed.map Prod.snd }

def step (s : State γ) : Label γ → Option (State γ)
  | .pushJob c payload => some (s.pushJob c payload)
  | .wake c => (s.channels c).wake.map (s.setWorker c)
  | .buildContext c => (s.channels c).buildContext.map (s.setChannel c)
  | .startCall c => (s.channels c).startCall.map fun (ch, requests) =>
    { s.setChannel c ch with network := s.network ++ requests }
  | .finishJob c => (s.channels c).finishJob.map (s.setWorker c)
  | .disableBegin c => (s.channels c).disableBegin.map (s.setChannel c)
  | .disableEnd c => (s.channels c).disableEnd.map (s.setChannel c)
  | .arrive i => s.network[i]?.map (s.arrive i)

/-- The jobs whose handlers have run, for one channel. -/
def executedOn (s : State γ) (c : Nat) : List (Job γ) :=
  (s.executed.filter (fun request => request.context.channel = c)).map Request.job

def hasArrived (s : State γ) (c : Nat) (job : Job γ) : Bool :=
  s.arrived.any fun request => request.context.channel = c ∧ request.job.1 = job.1

end State

/-- The channels of the session `sid`. -/
def machine (γ : Type u) (sid : Nat) : Machine (State γ) (Label γ) where
  init :=
    { channels := fun c => { id := c, sessionId := sid }
      session := { id := sid, resources := () } }
  step := State.step

-- ---------------------------------------------------------------------------
-- The invariant
-- ---------------------------------------------------------------------------

/-- The `PushCommand` call an arrived request leads to. -/
def toCall (request : Request (Job γ)) : PushArgs (Request (Job γ)) :=
  ⟨request.context.serial, request.context.channel, request⟩

/-- Server side: each channel works through its jobs in order, and the calls
started on it carry the serials `0, 1, …` of the jobs begun, each serial once. -/
structure ServerInv (sid : Nat) (s : State γ) : Prop where
  channels : ∀ c, (s.channels c).Orderly c sid (s.pushed c) (s.uncancelled c)
  numbered : ∀ c, (s.pushed c).map Prod.fst = List.range (s.pushed c).length
  started : ∀ request ∈ s.network ++ s.arrived, request.context.session = sid ∧
    request.context.serial < (s.channels request.context.channel).callsPushed ∧
    (s.uncancelled request.context.channel)[request.context.serial]? = some request.job
  distinct : ((s.network ++ s.arrived).map
    fun request => (request.context.channel, request.context.serial)).Nodup
  complete : ∀ c, ∀ k < (s.channels c).callsPushed,
    ∃ request ∈ s.network ++ s.arrived, request.context.channel = c ∧ request.context.serial = k

/-- Client side: the queues and the executed commands are those of the
`PushCommand` calls of the arrived requests. -/
structure ClientInv (sid : Nat) (s : State γ) : Prop where
  id : s.session.id = sid
  queues : s.session.commandQueues = (CommandQueues.run (s.arrived.map toCall)).queues
  executed : ∀ c, s.executed.filter (fun request => request.context.channel = c) =
    ((CommandQueues.run (s.arrived.map toCall)).executed c).map Prod.snd

section Server

variable {sid : Nat} {s s' : State γ} {c : Nat} {ch : Channel (Job γ)}

private theorem getElem?_of_prefix {α : Type u} {l l' : List α} (h : l <+: l') {i : Nat} {a : α}
    (hi : l[i]? = some a) : l'[i]? = some a := by
  obtain ⟨hlt, rfl⟩ := List.getElem?_eq_some_iff.mp hi
  exact List.prefix_iff_getElem?.mp h i hlt

/-- A step of channel `c` that starts no call. -/
theorem ServerInv.setChannel (h : ServerInv sid s) {pushed uncancelled : List (Job γ)}
    (horderly : ch.Orderly c sid pushed uncancelled)
    (hnumbered : pushed.map Prod.fst = List.range pushed.length)
    (hbegun : s.uncancelled c <+: uncancelled)
    (hcalls : ch.callsPushed = (s.channels c).callsPushed) :
    ServerInv sid { s.setChannel c ch with
      pushed := Function.update s.pushed c pushed
      uncancelled := Function.update s.uncancelled c uncancelled } := by
  have hcalls' : ∀ c', (Function.update s.channels c ch c').callsPushed =
      (s.channels c').callsPushed := by
    intro c'
    by_cases hc : c' = c
    · subst hc
      simpa using hcalls
    · simp [hc]
  refine ⟨fun c' => ?_, fun c' => ?_, fun request hmem => ?_, h.distinct, fun c' k hk => ?_⟩
  · by_cases hc : c' = c
    · subst hc
      simpa [State.setChannel] using horderly
    · simpa [State.setChannel, hc] using h.channels c'
  · by_cases hc : c' = c
    · subst hc
      simpa using hnumbered
    · simpa [hc] using h.numbered c'
  · obtain ⟨hsession, hlt, hjob⟩ := h.started request hmem
    refine ⟨hsession, (hcalls' _).symm ▸ hlt, ?_⟩
    by_cases hc : request.context.channel = c
    · subst hc
      simpa using getElem?_of_prefix hbegun hjob
    · simpa [hc] using hjob
  · exact h.complete c' k (hcalls' c' ▸ hk)

/-- A step of channel `c` that begins no job and starts no call. -/
theorem ServerInv.setChannel_idle (h : ServerInv sid s)
    (horderly : ch.Orderly c sid (s.pushed c) (s.uncancelled c) ∧
      ch.callsPushed = (s.channels c).callsPushed) :
    ServerInv sid (s.setChannel c ch) := by
  have := h.setChannel horderly.1 (h.numbered c) (List.prefix_refl _) horderly.2
  rwa [Function.update_eq_self, Function.update_eq_self] at this

theorem ServerInv.setWorker (h : ServerInv sid s)
    (horderly : ch.Orderly c sid (s.pushed c) (s.uncancelled c ++ ch.jobQueue.current.toList) ∧
      ch.callsPushed = (s.channels c).callsPushed) :
    ServerInv sid (s.setWorker c ch) := by
  have := h.setChannel horderly.1 (h.numbered c) (List.prefix_append _ _) horderly.2
  rwa [Function.update_eq_self] at this

theorem ServerInv.pushJob (h : ServerInv sid s) (c : Nat) (payload : γ) :
    ServerInv sid (s.pushJob c payload) := by
  have hnumbered : (s.pushed c ++ [((s.pushed c).length, payload)]).map Prod.fst =
      List.range (s.pushed c ++ [((s.pushed c).length, payload)]).length := by
    rw [List.map_append, h.numbered c, List.length_append]
    exact List.range_succ.symm
  have := h.setChannel ((h.channels c).pushJob ((s.pushed c).length, payload)) hnumbered
    (List.prefix_refl _) rfl
  rwa [Function.update_eq_self] at this

theorem ServerInv.startCall (h : ServerInv sid s) {requests : List (Request (Job γ))}
    (hstart : (s.channels c).startCall = some (ch, requests)) :
    ServerInv sid { s.setChannel c ch with network := s.network ++ requests } := by
  obtain ⟨horderly, hcalls, job, hjob, rfl⟩ := (h.channels c).startCall hstart
  set n := (s.channels c).callsPushed with hn
  set request₀ : Request (Job γ) := ⟨⟨sid, n, c⟩, job⟩ with hrequest₀
  have hperm : s.network ++ [request₀] ++ s.arrived ~ request₀ :: (s.network ++ s.arrived) := by
    rw [List.append_assoc]
    exact List.perm_middle
  have hle : ∀ c', (s.channels c').callsPushed ≤
      (Function.update s.channels c ch c').callsPushed := by
    intro c'
    by_cases hc : c' = c
    · subst hc
      rw [Function.update_self, hcalls]
      omega
    · rw [Function.update_of_ne hc]
  refine ⟨fun c' => ?_, h.numbered, fun request hmem => ?_, ?_, fun c' k hk => ?_⟩
  · by_cases hc : c' = c
    · subst hc
      simpa [State.setChannel] using horderly
    · simpa [State.setChannel, hc] using h.channels c'
  · rcases List.mem_cons.mp (hperm.mem_iff.mp hmem) with rfl | hmem
    · refine ⟨rfl, ?_, hjob⟩
      show n < (Function.update s.channels c ch c).callsPushed
      rw [Function.update_self, hcalls]
      exact Nat.lt_succ_self n
    · obtain ⟨hsession, hlt, hjob'⟩ := h.started request hmem
      exact ⟨hsession, hlt.trans_le (hle _), hjob'⟩
  · refine (hperm.map _).nodup_iff.mpr (List.nodup_cons.mpr ⟨fun hmem => ?_, h.distinct⟩)
    obtain ⟨request, hrequest, heq⟩ := List.mem_map.mp hmem
    obtain ⟨hchannel, hserial⟩ := Prod.mk.inj heq
    have hlt := (h.started request hrequest).2.1
    rw [hchannel, hserial] at hlt
    exact lt_irrefl _ hlt
  · by_cases hnew : c' = c ∧ k = n
    · obtain ⟨rfl, rfl⟩ := hnew
      exact ⟨request₀, hperm.mem_iff.mpr (List.mem_cons_self ..), rfl, rfl⟩
    · have hk' : k < (s.channels c').callsPushed := by
        by_cases hc : c' = c
        · subst hc
          have : k < ch.callsPushed := by simpa [State.setChannel] using hk
          omega
        · simpa [State.setChannel, hc] using hk
      obtain ⟨request, hmem, hrequest⟩ := h.complete c' k hk'
      exact ⟨request, hperm.mem_iff.mpr (List.mem_cons_of_mem _ hmem), hrequest⟩

theorem ServerInv.arrive (h : ServerInv sid s) {i : Nat} {request : Request (Job γ)}
    (hi : s.network[i]? = some request) : ServerInv sid (s.arrive i request) := by
  have hperm : s.network.eraseIdx i ++ (s.arrived ++ [request]) ~ s.network ++ s.arrived := by
    obtain ⟨hlt, rfl⟩ := List.getElem?_eq_some_iff.mp hi
    calc s.network.eraseIdx i ++ (s.arrived ++ [s.network[i]])
      _ = s.network.eraseIdx i ++ s.arrived ++ [s.network[i]] := (List.append_assoc ..).symm
      _ ~ s.network[i] :: s.network.eraseIdx i ++ s.arrived := List.perm_append_singleton _ _
      _ ~ s.network ++ s.arrived := (List.getElem_cons_eraseIdx_perm hlt).append_right _
  refine ⟨h.channels, h.numbered, fun r hr => h.started r (hperm.mem_iff.mp hr),
    (hperm.map _).nodup_iff.mpr h.distinct, fun c k hk => ?_⟩
  obtain ⟨r, hmem, hr⟩ := h.complete c k hk
  exact ⟨r, hperm.mem_iff.mpr hmem, hr⟩

theorem ServerInv.step (h : ServerInv sid s) {l : Label γ} (hstep : s.step l = some s') :
    ServerInv sid s' := by
  cases l with
  | pushJob c payload =>
    obtain rfl := Option.some.inj hstep
    exact h.pushJob c payload
  | wake c =>
    obtain ⟨ch, hch, rfl⟩ := Option.map_eq_some_iff.mp hstep
    exact h.setWorker ((h.channels c).wake hch)
  | buildContext c =>
    obtain ⟨ch, hch, rfl⟩ := Option.map_eq_some_iff.mp hstep
    exact h.setChannel_idle ((h.channels c).buildContext hch)
  | startCall c =>
    obtain ⟨⟨ch, requests⟩, hch, rfl⟩ := Option.map_eq_some_iff.mp hstep
    exact h.startCall hch
  | finishJob c =>
    obtain ⟨ch, hch, rfl⟩ := Option.map_eq_some_iff.mp hstep
    exact h.setWorker ((h.channels c).finishJob hch)
  | disableBegin c =>
    obtain ⟨ch, hch, rfl⟩ := Option.map_eq_some_iff.mp hstep
    exact h.setChannel_idle ((h.channels c).disableBegin hch)
  | disableEnd c =>
    obtain ⟨ch, hch, rfl⟩ := Option.map_eq_some_iff.mp hstep
    exact h.setChannel_idle ((h.channels c).disableEnd hch)
  | arrive i =>
    obtain ⟨request, hi, rfl⟩ := Option.map_eq_some_iff.mp hstep
    exact h.arrive hi

end Server

section Client

variable {sid : Nat} {s s' : State γ}

/-- The commands of channel `c` that the client holds or has executed are
requests of this channel that have arrived. -/
theorem mem_pushesOn_toCall {arrived : List (Request (Job γ))} {c : Nat}
    {e : Nat × Request (Job γ)} :
    e ∈ CommandQueues.pushesOn c (arrived.map toCall) ↔
      e.2 ∈ arrived ∧ e.2.context.channel = c ∧ e.1 = e.2.context.serial := by
  simp only [CommandQueues.pushesOn, List.mem_map, List.mem_filter, decide_eq_true_iff]
  constructor
  · rintro ⟨call, ⟨⟨request, hrequest, rfl⟩, hc⟩, rfl⟩
    exact ⟨hrequest, hc, rfl⟩
  · rintro ⟨hrequest, hc, hserial⟩
    exact ⟨toCall e.2, ⟨⟨e.2, hrequest, rfl⟩, hc⟩, Prod.ext hserial.symm rfl⟩

theorem ClientInv.arrive (h : ClientInv sid s) {i : Nat} {request : Request (Job γ)}
    (hsession : request.context.session = sid) : ClientInv sid (s.arrive i request) := by
  have hreceive : receive s.session request =
      s.session.pushCommand request.context.serial request.context.channel request := by
    rw [receive, if_neg (by simp [h.id, hsession])]
  set run := CommandQueues.run (s.arrived.map toCall) with hrun
  have hrun' : CommandQueues.run ((s.arrived ++ [request]).map toCall) =
      run.push (toCall request) := by
    rw [List.map_append, List.map_singleton, CommandQueues.run_concat]
  set executed := (run.queues.pushCommand request.context.serial request.context.channel request).2
    with hexecuted
  -- what is executed now has been pushed to the channel of the request
  have hhome : ∀ e ∈ executed, e.2.context.channel = request.context.channel := by
    intro e he
    have hmem := (CommandQueues.mem_pushesOn ((s.arrived ++ [request]).map toCall)
      request.context.channel).2 e
    rw [hrun', mem_pushesOn_toCall] at hmem
    exact (hmem (by simp [CommandQueues.Run.push, toCall, ← hexecuted, he])).2.1
  refine ⟨?_, ?_, fun c => ?_⟩
  · simp only [State.arrive, hreceive]
    exact h.id
  · simp only [State.arrive, hreceive, hrun', Client.Session.pushCommand, h.queues]
    rfl
  · simp only [State.arrive, hreceive, Client.Session.pushCommand, h.queues, hrun',
      List.filter_append, h.executed c, ← hrun, ← hexecuted, CommandQueues.Run.push, toCall]
    split
    · rename_i hc
      rw [List.map_append, List.filter_eq_self.mpr]
      intro r hr
      obtain ⟨e, he, rfl⟩ := List.mem_map.mp hr
      exact decide_eq_true ((hhome e he).trans hc.symm)
    · rename_i hc
      rw [List.filter_eq_nil_iff.mpr, List.append_nil]
      intro r hr
      obtain ⟨e, he, rfl⟩ := List.mem_map.mp hr
      simpa [hhome e he] using Ne.symm hc

/-- A step of the server leaves the client alone. -/
theorem ClientInv.step (h : ClientInv sid s) (hserver : ServerInv sid s) {l : Label γ}
    (hstep : s.step l = some s') : ClientInv sid s' := by
  cases l with
  | pushJob c payload =>
    obtain rfl := Option.some.inj hstep
    exact ⟨h.id, h.queues, h.executed⟩
  | wake c | buildContext c | startCall c | finishJob c | disableBegin c | disableEnd c =>
    obtain ⟨out, -, rfl⟩ := Option.map_eq_some_iff.mp hstep
    exact ⟨h.id, h.queues, h.executed⟩
  | arrive i =>
    obtain ⟨request, hi, rfl⟩ := Option.map_eq_some_iff.mp hstep
    exact h.arrive (hserver.started request
      (List.mem_append_left _ (List.mem_of_getElem? hi))).1

end Client

theorem invariant {sid : Nat} {ls : List (Label γ)} {s : State γ}
    (hrun : (machine γ sid).run ls = some s) : ServerInv sid s ∧ ClientInv sid s := by
  refine Machine.run_invariant (I := fun s => ServerInv sid s ∧ ClientInv sid s) ?_ ?_ hrun
  · refine ⟨⟨fun c => Channel.orderly_new c sid, fun _ => rfl, by simp [machine], by simp [machine],
      fun c k hk => absurd hk (Nat.not_lt_zero k)⟩, ⟨rfl, rfl, fun _ => rfl⟩⟩
  · rintro s l s' ⟨hserver, hclient⟩ hstep
    exact ⟨hserver.step hstep, hclient.step hserver hstep⟩

-- ---------------------------------------------------------------------------
-- Order
-- ---------------------------------------------------------------------------

section Order

variable {sid : Nat} {s : State γ}

/-- A job begun on a channel is numbered by its place among those begun. -/
theorem ServerInv.number_eq (h : ServerInv sid s) {c k : Nat} {job : Job γ}
    (hjob : (s.uncancelled c)[k]? = some job) : job.1 = k := by
  have hpushed := getElem?_of_prefix (h.channels c).order.begun hjob
  have hnumber : ((s.pushed c).map Prod.fst)[k]? = some job.1 := by
    rw [List.getElem?_map, hpushed]
    rfl
  rw [h.numbered c] at hnumber
  obtain ⟨hlt, heq⟩ := List.getElem?_eq_some_iff.mp hnumber
  rw [← heq, List.getElem_range]

/-- A job has arrived exactly when the client has been pushed its serial, which
is its number. -/
theorem ServerInv.hasArrived_iff (h : ServerInv sid s) {c k : Nat} {job : Job γ}
    (hjob : (s.uncancelled c)[k]? = some job) :
    s.hasArrived c job ↔
      k ∈ SerialCommandQueue.serials (CommandQueues.pushesOn c (s.arrived.map toCall)) := by
  have hnumber := h.number_eq hjob
  rw [State.hasArrived, List.any_eq_true, List.mem_map]
  simp only [decide_eq_true_iff]
  constructor
  · rintro ⟨request, hrequest, hc, hsame⟩
    have hstarted := (h.started request (List.mem_append_right _ hrequest)).2.2
    have hserial := h.number_eq hstarted
    exact ⟨(request.context.serial, request), mem_pushesOn_toCall.mpr ⟨hrequest, hc, rfl⟩,
      by rw [← hserial, hsame, hnumber]⟩
  · rintro ⟨e, he, rfl⟩
    obtain ⟨hrequest, hc, hserial⟩ := mem_pushesOn_toCall.mp he
    have hstarted := (h.started e.2 (List.mem_append_right _ hrequest)).2.2
    exact ⟨e.2, hrequest, hc, by rw [h.number_eq hstarted, hnumber, hserial]⟩

private theorem takeWhile_eq_take {α : Type u} {p : α → Bool} {l : List α} {n : Nat}
    (hall : ∀ i < n, ∃ a, l[i]? = some a ∧ p a) (hstop : ∀ a, l[n]? = some a → ¬ p a) :
    l.takeWhile p = l.take n := by
  induction n generalizing l with
  | zero =>
    cases l with
    | nil => rfl
    | cons a l => simpa using hstop a rfl
  | succ n ih =>
    cases l with
    | nil => simp
    | cons a l =>
      obtain ⟨_, ⟨⟩, ha⟩ := hall 0 (Nat.zero_lt_succ n)
      rw [List.takeWhile_cons_of_pos ha, List.take_succ_cons,
        ih (fun i hi => hall (i + 1) (Nat.succ_lt_succ hi)) hstop]

theorem distinctSerials (hserver : ServerInv sid s) :
    CommandQueues.DistinctSerials (s.arrived.map toCall) := by
  refine .of_nodup ?_
  rw [List.map_map]
  exact (List.nodup_append.mp (List.map_append .. ▸ hserver.distinct)).2.1

/-- With few channels the client executes what the private queues would. -/
theorem executed_eq_privateQueue (hserver : ServerInv sid s)
    (hfew : (s.arrived.map (fun request => request.context.channel)).toFinset.card ≤ 100) (c : Nat) :
    (CommandQueues.run (s.arrived.map toCall)).executed c =
      (CommandQueues.privateQueue c (s.arrived.map toCall)).2 := by
  have hkept : ∀ c, ¬ CommandQueues.ErasedBefore (s.arrived.map toCall) c := by
    refine CommandQueues.not_erasedBefore_of_card_le ?_
    rw [List.map_map]
    exact hfew
  refine (CommandQueues.tracks_of_not_awaited (distinctSerials hserver) ?_).executed c
  rintro before call hpre ⟨⟨earlier, call', hearlier, herases⟩, -⟩
  exact hkept call.channelId
    ⟨earlier, call', hearlier.trans ((List.prefix_append _ _).trans hpre), herases⟩

/-- The jobs executed on channel `c` are the first of its uncancelled ones, up
to the serial the channel awaits. -/
theorem executedOn_eq_take (hserver : ServerInv sid s) (hclient : ClientInv sid s)
    (hfew : (s.arrived.map (fun request => request.context.channel)).toFinset.card ≤ 100) (c : Nat) :
    s.executedOn c = (s.uncancelled c).take
      (SerialCommandQueue.run (CommandQueues.pushesOn c (s.arrived.map toCall))).1.nextSerial := by
  set pushes := CommandQueues.pushesOn c (s.arrived.map toCall) with hpushes
  have hexecuted : s.executedOn c =
      (SerialCommandQueue.run pushes).2.map fun e => e.2.job := by
    rw [State.executedOn, hclient.executed c, executed_eq_privateQueue hserver hfew c, List.map_map]
    rfl
  have hserials : SerialCommandQueue.serials (SerialCommandQueue.run pushes).2 =
      List.range (SerialCommandQueue.run pushes).1.nextSerial :=
    SerialCommandQueue.serials_executed_of_nodup (distinctSerials hserver c)
  have hjob : ∀ e ∈ (SerialCommandQueue.run pushes).2, (s.uncancelled c)[e.1]? = some e.2.job := by
    intro e he
    have hmem := (SerialCommandQueue.run_accounts pushes).conserved.subset (List.mem_append_left _ he)
    obtain ⟨hrequest, hc, hserial⟩ := mem_pushesOn_toCall.mp hmem
    rw [hserial, ← hc]
    exact (hserver.started e.2 (List.mem_append_right _ hrequest)).2.2
  rw [hexecuted]
  refine List.ext_getElem? fun k => ?_
  have hk := congrArg (·[k]?) hserials
  simp only [List.getElem?_map] at hk ⊢
  rw [List.getElem?_take]
  split
  · rename_i hlt
    rw [List.getElem?_range hlt] at hk
    obtain ⟨e, he, rfl⟩ := Option.map_eq_some_iff.mp hk
    rw [he, hjob e (List.mem_of_getElem? he)]
    rfl
  · rename_i hge
    rw [List.getElem?_eq_none (l := List.range _) (by simpa using hge), Option.map_eq_none_iff] at hk
    rw [hk]
    rfl

/-- On every channel the handlers that have run are those of the longest prefix
of its uncancelled jobs whose requests have arrived. -/
theorem executedOn_eq_takeWhile_hasArrived {ls : List (Label γ)}
    (hrun : (machine γ sid).run ls = some s)
    (hfew : (s.arrived.map (fun request => request.context.channel)).toFinset.card ≤ 100) (c : Nat) :
    s.uncancelled c <+: s.pushed c ∧
      (∀ job ∈ (s.uncancelled c).dropLast,
        ∃ request ∈ s.network ++ s.arrived, request.context.channel = c ∧ request.job = job) ∧
      s.executedOn c = (s.uncancelled c).takeWhile (s.hasArrived c) := by
  obtain ⟨hserver, hclient⟩ := invariant hrun
  refine ⟨(hserver.channels c).order.begun, fun job hjob => ?_, ?_⟩
  · obtain ⟨k, hk, rfl⟩ := List.mem_iff_getElem.mp hjob
    rw [List.length_dropLast] at hk
    have hlength := (hserver.channels c).length_le
    obtain ⟨request, hrequest, rfl, rfl⟩ := hserver.complete c k (by omega)
    have hstarted := (hserver.started request hrequest).2.2
    refine ⟨request, hrequest, rfl, ?_⟩
    rw [List.getElem_dropLast]
    exact (List.getElem_of_getElem? hstarted).2.symm
  · have hleast := (SerialCommandQueue.inOrder_of_nodup (distinctSerials hserver c)).least
    rw [executedOn_eq_take hserver hclient hfew c]
    refine (takeWhile_eq_take (fun k hk => ?_) fun job hjob => ?_).symm
    · have hmem := not_not.mp fun h => (hleast.2 h).not_gt hk
      obtain ⟨e, he, rfl⟩ := List.mem_map.mp hmem
      obtain ⟨hrequest, hc, hserial⟩ := mem_pushesOn_toCall.mp he
      have hstarted := (hserver.started e.2 (List.mem_append_right _ hrequest)).2.2
      rw [hc, ← hserial] at hstarted
      exact ⟨e.2.job, hstarted, (hserver.hasArrived_iff hstarted).mpr hmem⟩
    · rw [hserver.hasArrived_iff hjob]
      exact hleast.1

end Order

/-- Channel 0 starts two calls and channel 1 one. The second call of channel 0
and the call of channel 1 arrive, while the first call of channel 0 is late. -/
def lateFirstCall : List (Label Char) :=
  [.pushJob 0 'a', .pushJob 0 'b', .wake 0, .buildContext 0, .startCall 0, .finishJob 0,
    .pushJob 1 'c', .buildContext 0, .wake 1, .startCall 0, .buildContext 1, .startCall 1,
    .arrive 1, .disableBegin 0, .arrive 1]

theorem executedOn_lateFirstCall :
    ∃ s, (machine Char 7).run lateFirstCall = some s ∧
      s.executedOn 0 = (s.uncancelled 0).takeWhile (s.hasArrived 0) ∧ s.executedOn 0 = [] ∧
      s.executedOn 1 = (s.uncancelled 1).takeWhile (s.hasArrived 1) ∧
      s.executedOn 1 = [(0, 'c')] := by
  have hrun : (machine Char 7).run lateFirstCall = some _ := rfl
  exact ⟨_, hrun, (executedOn_eq_takeWhile_hasArrived hrun (by decide) 0).2.2, by decide,
    (executedOn_eq_takeWhile_hasArrived hrun (by decide) 1).2.2, by decide⟩

-- ---------------------------------------------------------------------------
-- Calls by their metadata
-- ---------------------------------------------------------------------------

/-- The entries that gRPC puts around those of the server. -/
structure Transport (γ : Type u) where
  before : Request (Job γ) → Metadata
  after : Request (Job γ) → Metadata
  session : ∀ request, ∀ entry ∈ before request, entry.1 ≠ kGrpcMetadataSessionKey
  serial : ∀ request, ∀ entry ∈ before request, entry.1 ≠ kGrpcMetadataSerialKey
  channel : ∀ request, ∀ entry ∈ before request, entry.1 ≠ kGrpcMetadataChannelKey

/-- The metadata that the client finds in the call. -/
def Transport.metadata (transport : Transport γ) (request : Request (Job γ)) : Metadata :=
  transport.before request ++ (request.context.metadata ++ transport.after request)

/-- As `State.arrive`, for a call that has come with its metadata. -/
def State.arriveWith (transport : Transport γ) (s : State γ) (i : Nat) (request : Request (Job γ)) :
    State γ :=
  let (session, executed) := proceed s.session (transport.metadata request) request.job
  { s with
    network := s.network.eraseIdx i
    session
    arrived := s.arrived ++ [request]
    executed := s.executed ++ executed.map Prod.snd }

def State.stepWith (transport : Transport γ) (s : State γ) : Label γ → Option (State γ)
  | .arrive i => s.network[i]?.map (s.arriveWith transport i)
  | l => s.step l

/-- As `machine`, with `Proceed` from the metadata on. -/
def metadataMachine (transport : Transport γ) (sid : Nat) : Machine (State γ) (Label γ) where
  init := (machine γ sid).init
  step := State.stepWith transport

/-- The channel and the serial of a call that is started fit in 64 bits. -/
def InRange (s : State γ) : Label γ → Prop
  | .startCall c => c < UInt64.size ∧ (s.channels c).callsPushed < UInt64.size
  | _ => True

section Metadata

variable {sid : Nat} {s s' : State γ} {transport : Transport γ}

theorem proceed_metadata {Pool : Type} (session : Client.Session (Request (Job γ)) Pool)
    {request : Request (Job γ)} (hfits : request.context.Fits) :
    proceed session (transport.metadata request) request.job = receive session request := by
  obtain ⟨ids, hids⟩ := Client.SessionContext.exists_toRequestContext hfits
  have hread : Client.isSessionContext (transport.metadata request) ⟨0, 0, 0⟩ = (true, ids) := by
    rw [Transport.metadata, ← hids]
    exact Client.isSessionContext_metadata ids _ (transport.session request) (transport.serial request)
      (transport.channel request)
  rw [proceed, hread]
  exact congrArg (fun context => receive session ⟨context, request.job⟩) hids

/-- The contexts of the calls in flight fit in 64 bits. -/
structure MetadataInv (sid : Nat) (s : State γ) : Prop where
  server : ServerInv sid s
  fits : ∀ request ∈ s.network, request.context.Fits

theorem MetadataInv.step (h : MetadataInv sid s) (hsid : sid < UInt64.size) {l : Label γ}
    (hrange : InRange s l) (hstep : s.step l = some s') : MetadataInv sid s' := by
  refine ⟨h.server.step hstep, ?_⟩
  cases l with
  | pushJob c payload =>
    obtain rfl := Option.some.inj hstep
    exact h.fits
  | wake c | buildContext c | finishJob c | disableBegin c | disableEnd c =>
    obtain ⟨ch, -, rfl⟩ := Option.map_eq_some_iff.mp hstep
    exact h.fits
  | startCall c =>
    obtain ⟨⟨ch, requests⟩, hch, rfl⟩ := Option.map_eq_some_iff.mp hstep
    obtain ⟨-, -, job, -, rfl⟩ := (h.server.channels c).startCall hch
    obtain ⟨hchannel, hserial⟩ := hrange
    exact List.forall_mem_append.mpr
      ⟨h.fits, List.forall_mem_singleton.mpr ⟨hsid, hserial, hchannel⟩⟩
  | arrive i =>
    obtain ⟨request, -, rfl⟩ := Option.map_eq_some_iff.mp hstep
    exact fun r hr => h.fits r (List.mem_of_mem_eraseIdx hr)

theorem MetadataInv.step_eq (h : MetadataInv sid s) (l : Label γ) :
    (metadataMachine transport sid).step s l = (machine γ sid).step s l := by
  cases l with
  | arrive i =>
    refine Option.map_congr fun request hi => ?_
    rw [State.arriveWith, proceed_metadata s.session (h.fits request (List.mem_of_getElem? hi))]
    rfl
  | pushJob c payload => rfl
  | wake c | buildContext c | startCall c | finishJob c | disableBegin c | disableEnd c => rfl

/-- The calls are taken for what they are: with their metadata, runs are the same. -/
theorem run_metadataMachine (transport : Transport γ) (hsid : sid < UInt64.size) {ls : List (Label γ)}
    (hrange : (machine γ sid).Along InRange ls) :
    (metadataMachine transport sid).run ls = (machine γ sid).run ls := by
  have hinit : (machine γ sid).run [] = some (machine γ sid).init := rfl
  refine Machine.AlongFrom.runFrom_congr (I := MetadataInv sid) ?_ ?_ ⟨(invariant hinit).1, ?_⟩ hrange
  · exact fun _ _ _ h hl hstep => h.step hsid hl hstep
  · exact fun _ l h => h.step_eq l
  · exact fun _ hmem => absurd hmem List.not_mem_nil

end Metadata

end EndToEnd

end ZenRemote
