-- SUMMARY: An application on the server and the pool of its client: every handler finds what it names, and the pool mirrors the application.
import ZenRemote.EndToEnd
import ZenRemote.Server.Application

/-!
# The mirror

The application works on resource objects of the server; the channels, the network and
the client's queues hand their requests on; the update thread of the client runs the
handlers on the pool, one after the other, while the rendering thread traverses virtual
objects, in sections that are locked separately, and executes closures. The session stays
current throughout.
-/

namespace ZenRemote

open Client (Driver Fault Kind PoolState)
open Server (Application lifetimes)

namespace Mirror

abbrev Job := EndToEnd.Job Client.Request

/-- `handled` records the commands whose handlers have returned. -/
structure State where
  application : Application := {}
  link : EndToEnd.State Client.Request
  /-- Commands that have been taken out of the queues and wait for the update thread. -/
  handlers : List (Server.Request Job) := []
  /-- Once a handler has crashed there is no pool. -/
  pool : Except Fault PoolState := .ok {}
  handled : List (Server.Request Job) := []

inductive Label where
  | application (op : Server.Operation)
  /-- A channel worker or the network; a call arrives when the update thread is idle. -/
  | link (l : EndToEnd.Label Client.Request)
  /-- The next handler runs. -/
  | handle
  /-- The rendering thread begins to traverse the virtual objects. -/
  | mergeNew
  | applyRemovals
  | executeNext

namespace State

/-- Jobs are pushed only by the application. -/
def linkStep (s : State) : EndToEnd.Label Client.Request → Option (EndToEnd.State Client.Request)
  | .pushJob _ _ => none
  | .arrive i => if s.handlers = [] then s.link.step (.arrive i) else none
  | l => s.link.step l

def step (gl : Driver) (s : State) : Label → Option State
  | .application op => (s.application.step op).map fun (application, out) =>
    { s with application, link := out.foldl (fun link p => link.pushJob p.1 p.2) s.link }
  | .link l => (s.linkStep l).map fun link =>
    { s with link, handlers := s.handlers ++ link.executed.drop s.link.executed.length }
  | .handle =>
    match s.handlers, s.pool with
    | r :: rest, .ok pool =>
      if pool.waits r.job.2 then none else
        some { s with handlers := rest, pool := pool.handle r.job.2, handled := s.handled ++ [r] }
    | _, _ => none
  | .mergeNew =>
    match s.pool with
    | .ok pool => if pool.merging then none else some { s with pool := .ok pool.mergeNew }
    | .error _ => none
  | .applyRemovals =>
    match s.pool with
    | .ok pool => if pool.merging then some { s with pool := .ok pool.applyRemovals } else none
    | .error _ => none
  | .executeNext =>
    match s.pool with
    | .ok pool => (pool.executeNext gl).map fun pool => { s with pool := .ok pool }
    | .error _ => none

/-- What the application has pushed to a channel. -/
def pushedOn (s : State) (c : Nat) : List Client.Request := (s.link.pushed c).map Prod.snd

/-- The requests of a channel that have been handled. -/
def handledOn (s : State) (c : Nat) : List Client.Request :=
  (s.handled.filter fun r => r.context.channel = c).map fun r => r.job.2

end State

/-- The channels of the session `sid`. -/
def machine (gl : Driver) (sid : Nat) : Machine State Label where
  init := { link := (EndToEnd.machine Client.Request sid).init, pool := .ok (Client.poolMachine gl).init }
  step := State.step gl

/-- The application uses the library as it should. -/
def Proper (s : State) : Label → Prop
  | .application op => s.application.Proper op
  | _ => True

/-- A virtual object is not removed between the two sections of a traversal if it is new
there: `ForEach` forgets such a removal. -/
def KeepsRemoval (s : State) : Label → Prop
  | .handle => ∀ r ∈ s.handlers.head?, ∀ pool ∈ s.pool.toOption, ¬ pool.RemovesNew r.job.2
  | _ => True

-- ---------------------------------------------------------------------------
-- The link
-- ---------------------------------------------------------------------------

section Link

variable {γ : Type} {s s' : EndToEnd.State γ} {l : EndToEnd.Label γ} {sid : Nat}

/-- Only an arrival lets commands be executed. -/
theorem executed_step (hstep : s.step l = some s') :
    ∃ new, s'.executed = s.executed ++ new ∧ ((∀ i, l ≠ .arrive i) → new = []) := by
  cases l with
  | pushJob c payload =>
    cases hstep
    exact ⟨[], (List.append_nil _).symm, fun _ => rfl⟩
  | wake c | buildContext c | startCall c | finishJob c | disableBegin c | disableEnd c =>
    obtain ⟨out, -, rfl⟩ := Option.map_eq_some_iff.mp hstep
    exact ⟨[], (List.append_nil _).symm, fun _ => rfl⟩
  | arrive i =>
    obtain ⟨request, -, rfl⟩ := Option.map_eq_some_iff.mp hstep
    exact ⟨_, rfl, fun h => absurd rfl (h i)⟩

theorem pushed_step (hl : ∀ c payload, l ≠ .pushJob c payload) (hstep : s.step l = some s') :
    s'.pushed = s.pushed := by
  cases l with
  | pushJob c payload => exact absurd rfl (hl c payload)
  | wake c | buildContext c | startCall c | finishJob c | disableBegin c | disableEnd c =>
    obtain ⟨out, -, rfl⟩ := Option.map_eq_some_iff.mp hstep
    rfl
  | arrive i =>
    obtain ⟨request, -, rfl⟩ := Option.map_eq_some_iff.mp hstep
    rfl

/-- What pushing leaves of the two parties' invariants, and of what is executed. -/
structure Linked (sid : Nat) (s : EndToEnd.State γ) (executed : List (Server.Request (EndToEnd.Job γ))) :
    Prop where
  server : EndToEnd.ServerInv sid s
  client : EndToEnd.ClientInv sid s
  executed : s.executed = executed

theorem Linked.foldl_pushJob {executed : List (Server.Request (EndToEnd.Job γ))}
    (h : Linked sid s executed) (out : List (Nat × γ)) :
    Linked sid (out.foldl (fun link p => link.pushJob p.1 p.2) s) executed := by
  refine List.foldlRecOn (motive := fun link => Linked sid link executed) out _ h fun link hlink p _ => ?_
  exact ⟨hlink.server.pushJob p.1 p.2, hlink.client.step hlink.server (l := .pushJob p.1 p.2) rfl,
    hlink.executed⟩

theorem pushed_pushJob (c c' : Nat) (payload : γ) : ((s.pushJob c payload).pushed c').map Prod.snd =
    Function.update (fun c => (s.pushed c).map Prod.snd) c ((s.pushed c).map Prod.snd ++ [payload]) c' := by
  by_cases hc : c' = c
  · subst hc
    simp [EndToEnd.State.pushJob]
  · simp [EndToEnd.State.pushJob, hc]

end Link

theorem pushed_foldl_pushJob (link : EndToEnd.State Client.Request) (out : Application.Pushed) :
    (fun c => ((out.foldl (fun link p => link.pushJob p.1 p.2) link).pushed c).map Prod.snd) =
      Application.push (fun c => (link.pushed c).map Prod.snd) out := by
  unfold Application.push
  induction out generalizing link with
  | nil => rfl
  | cons p out ih =>
    rw [List.foldl_cons, List.foldl_cons, ih]
    congr 1
    funext c'
    exact pushed_pushJob p.1 c' p.2

-- ---------------------------------------------------------------------------
-- The invariant
-- ---------------------------------------------------------------------------

/-- How the pool stands to the requests of each channel that have been handled. -/
structure PoolInv (handled : Nat → List Client.Request) (pool : PoolState) : Prop where
  owned : pool.Owned
  mirrors : lifetimes.Mirrors (fun p => pool.Keeps p.1 p.2) handled
  leaving : ∀ k id, pool.Leaving k id → ∃ c, (k, id) ∈ lifetimes.deleted (handled c)
  /-- Between the sections of a traversal. -/
  between : pool.merging = true → pool.NewKept

structure Inv (sid : Nat) (s : State) : Prop where
  link : Linked sid s.link (s.handled ++ s.handlers)
  sound : s.application.Sound s.pushedOn
  pool : ∃ pool, s.pool = .ok pool ∧ PoolInv s.handledOn pool

variable {gl : Driver} {sid : Nat} {s s' : State} {handled handled' : Nat → List Client.Request}
  {pool pool' : PoolState}

theorem poolInv_new : PoolInv (fun _ => []) {} where
  owned := by
    refine ⟨rfl, ?_, by simp [Client.LoopContainer.owned], List.nodup_nil⟩
    intro k id a hget
    cases hget
  mirrors := by
    rintro ⟨k, id⟩
    refine iff_of_false ?_ ?_
    · rintro ⟨hholds, -⟩
      cases k with
      | virtualObjects =>
        obtain ⟨e, he, -⟩ := hholds
        exact List.not_mem_nil he
      | _ =>
        obtain ⟨a, ha⟩ := hholds
        cases ha
    · rintro ⟨c, hc, -⟩
      exact List.not_mem_nil hc
  leaving := by
    rintro k id ⟨-, hmem⟩
    exact absurd hmem List.not_mem_nil
  between h := absurd h Bool.false_ne_true

theorem PoolInv.mergeNew (h : PoolInv handled pool) : PoolInv handled pool.mergeNew where
  owned := h.owned.mergeNew
  mirrors p := PoolState.keeps_mergeNew.trans (h.mirrors p)
  leaving := h.leaving
  between _ _ he := absurd he List.not_mem_nil

theorem PoolInv.applyRemovals (h : PoolInv handled pool) (hmerging : pool.merging = true) :
    PoolInv handled pool.applyRemovals where
  owned := h.owned.applyRemovals
  mirrors p := (PoolState.keeps_applyRemovals (h.between hmerging)).trans (h.mirrors p)
  leaving := by
    rintro k id ⟨-, hmem⟩
    exact absurd hmem List.not_mem_nil
  between h := absurd h Bool.false_ne_true

theorem PoolInv.executeNext (h : PoolInv handled pool) (hstep : pool.executeNext gl = some pool') :
    PoolInv handled pool' := by
  obtain ⟨hcontainers, hobjects, hmerging⟩ : pool'.containers = pool.containers ∧
      pool'.virtualObjects = pool.virtualObjects ∧ pool'.merging = pool.merging := by
    rcases PoolState.executeNext_cases hstep with ⟨rest, -, rfl⟩ | ⟨c, rest, -, rfl⟩
    · exact ⟨rfl, rfl, rfl⟩
    · exact ⟨rfl, rfl, rfl⟩
  have hexecute : (Client.poolMachine gl).step pool .executeNext = some pool' := hstep
  refine ⟨h.owned.step hexecute, fun p => ?_, fun k id hleaving => ?_, fun hbetween => ?_⟩
  · exact (PoolState.keeps_of_same hcontainers hobjects).trans (h.mirrors p)
  · rw [PoolState.Leaving, hobjects] at hleaving
    exact h.leaving k id hleaving
  · rw [PoolState.NewKept, hobjects]
    exact h.between (hmerging ▸ hbetween)

/-- The next request of a channel finds what it names, and its handler keeps the mirror. -/
theorem PoolInv.handle (h : PoolInv handled pool) {c : Nat} {r : Client.Request}
    (hdistinct : lifetimes.Distinct handled') (horderly : ∀ c, lifetimes.Orderly (handled' c))
    (hfits : r.FieldsFit) (hkeeps : ¬ pool.RemovesNew r) (hnext : handled' c = handled c ++ [r])
    (hothers : ∀ c', c' ≠ c → handled' c' = handled c') :
    ∃ pool', pool.handle r = .ok pool' ∧ PoolInv handled' pool' := by
  have horderly' : lifetimes.Orderly (handled c ++ [r]) := hnext ▸ horderly c
  have hserves : pool.Serves r :=
    ⟨fun k id htarget => (h.mirrors.has_of_uses horderly' htarget).1, hfits⟩
  obtain ⟨pool', hpool'⟩ := (h.owned.handle_ok_iff r).mpr hserves
  have heffect := PoolState.effect_handle hpool'
  have hbefore : ∀ c', lifetimes.Orderly (handled c') := by
    intro c'
    by_cases hc : c' = c
    · exact hc ▸ horderly'.earlier (List.prefix_append _ _)
    · exact hothers c' hc ▸ horderly c'
  have hfresh : ∀ k id, r.creates = some (k, id) → ¬ pool.Leaving k id := by
    intro k id hcreates hleaving
    obtain ⟨c', hdeleted⟩ := h.leaving k id hleaving
    exact hdistinct.not_created_of_next hnext hothers hcreates c'
      ((hbefore c').created_of_deleted hdeleted)
  refine ⟨pool', hpool', h.owned.handled (PoolState.handle_cases hpool'), ?_, ?_, fun hmerging => ?_⟩
  · exact h.mirrors.deliver hdistinct horderly hnext hothers fun p => heffect.keeps hfresh p.1 p.2
  · rintro k id ⟨rfl, hmem⟩
    rcases (heffect.leaving id).mp hmem with hold | hdeletes
    · obtain ⟨c', hdeleted⟩ := h.leaving _ id ⟨rfl, hold⟩
      refine ⟨c', ?_⟩
      by_cases hc : c' = c
      · subst hc
        rw [hnext, Lifetimes.deleted_append]
        exact List.mem_append_left _ hdeleted
      · exact hothers c' hc ▸ hdeleted
    · refine ⟨c, ?_⟩
      rw [hnext, Lifetimes.deleted_append]
      exact List.mem_append_right _ (Lifetimes.mem_deleted_singleton.mpr hdeletes)
  · rw [PoolState.merging_handle hpool'] at hmerging
    exact (h.between hmerging).handle heffect hfresh fun e he hdeletes => hkeeps ⟨hmerging, e, he, hdeletes⟩

/-- The commands executed come from at most a hundred channels. -/
theorem Inv.fewChannels (h : Inv sid s) :
    (s.link.arrived.map fun request => request.context.channel).toFinset.card ≤ 100 := by
  have hsubset : (s.link.arrived.map fun request => request.context.channel).toFinset ⊆
      s.application.channels.toFinset := by
    intro c hc
    rw [List.mem_toFinset] at hc ⊢
    obtain ⟨request, hrequest, rfl⟩ := List.mem_map.mp hc
    have hbegun := (h.link.server.started request (List.mem_append_right _ hrequest)).2.2
    have hpushed := (h.link.server.channels request.context.channel).order.begun.subset
      (List.mem_of_getElem? hbegun)
    exact h.sound.channels _ (List.ne_nil_of_mem (List.mem_map_of_mem hpushed))
  calc _ ≤ s.application.channels.toFinset.card := Finset.card_le_card hsubset
    _ ≤ s.application.channels.length := List.toFinset_card_le _
    _ ≤ 100 := h.sound.fewChannels

theorem executedOn_eq (h : s.link.executed = s.handled ++ s.handlers) (c : Nat) :
    (s.link.executedOn c).map Prod.snd =
      s.handledOn c ++ (s.handlers.filter fun r => r.context.channel = c).map fun r => r.job.2 := by
  rw [EndToEnd.State.executedOn, h, List.filter_append, List.map_append, List.map_append, List.map_map,
    List.map_map]
  rfl

/-- On each channel, what has been taken out of the queues is the first part of what was pushed. -/
theorem Inv.prefix_pushedOn (h : Inv sid s) (c : Nat) :
    s.handledOn c ++ (s.handlers.filter fun r => r.context.channel = c).map (fun r => r.job.2) <+:
      s.pushedOn c := by
  rw [← executedOn_eq h.link.executed c]
  refine List.IsPrefix.map _ ?_
  rw [EndToEnd.executedOn_eq_take h.link.server h.link.client h.fewChannels c]
  exact (List.take_prefix _ _).trans (h.link.server.channels c).order.begun

theorem inv_init (gl : Driver) (sid : Nat) : Inv sid (machine gl sid).init where
  link := by
    obtain ⟨hserver, hclient⟩ := EndToEnd.invariant (Machine.run_nil (M := EndToEnd.machine Client.Request sid))
    exact ⟨hserver, hclient, rfl⟩
  sound := Server.Application.sound_new
  pool := ⟨_, rfl, poolInv_new⟩

theorem Inv.application (h : Inv sid s) {op : Server.Operation} {application : Application}
    {out : Application.Pushed} (hproper : s.application.Proper op)
    (hstep : s.application.step op = some (application, out)) :
    Inv sid { s with
      application, link := out.foldl (fun link p => link.pushJob p.1 p.2) s.link } where
  link := h.link.foldl_pushJob out
  sound := by
    show application.Sound fun c =>
      ((out.foldl (fun link p => link.pushJob p.1 p.2) s.link).pushed c).map Prod.snd
    rw [pushed_foldl_pushJob]
    exact h.sound.step hproper hstep
  pool := h.pool

theorem linkStep_eq_some {l : EndToEnd.Label Client.Request} {link : EndToEnd.State Client.Request}
    (h : s.linkStep l = some link) : (∀ c payload, l ≠ .pushJob c payload) ∧ s.link.step l = some link := by
  cases l with
  | pushJob c payload => cases h
  | arrive i =>
    obtain ⟨-, h⟩ := Option.ite_none_right_eq_some.mp h
    exact ⟨fun c payload => by simp, h⟩
  | _ => exact ⟨fun c payload => by simp, h⟩

theorem Inv.linkStep (h : Inv sid s) {l : EndToEnd.Label Client.Request}
    {link : EndToEnd.State Client.Request} (hstep : s.linkStep l = some link) :
    Inv sid { s with link, handlers := s.handlers ++ link.executed.drop s.link.executed.length } := by
  obtain ⟨hl, hstep⟩ := linkStep_eq_some hstep
  obtain ⟨new, hnew, -⟩ := executed_step hstep
  refine ⟨⟨h.link.server.step hstep, h.link.client.step h.link.server hstep, ?_⟩, ?_, h.pool⟩
  · show link.executed = s.handled ++ (s.handlers ++ link.executed.drop s.link.executed.length)
    rw [hnew, List.drop_left, h.link.executed, List.append_assoc]
  · have hpushed : ∀ c, (link.pushed c).map Prod.snd = s.pushedOn c := by
      rw [pushed_step hl hstep]
      exact fun _ => rfl
    have hsound := h.sound
    rwa [← funext hpushed] at hsound

theorem Inv.handle (h : Inv sid s) {r : Server.Request Job} {rest : List (Server.Request Job)}
    (hhandlers : s.handlers = r :: rest) (hpool : s.pool = .ok pool) (hkeeps : ¬ pool.RemovesNew r.job.2) :
    Inv sid { s with handlers := rest, pool := pool.handle r.job.2, handled := s.handled ++ [r] } := by
  obtain ⟨pool₀, hpool₀, hinv⟩ := h.pool
  obtain rfl : pool₀ = pool := Except.ok.inj (hpool₀.symm.trans hpool)
  set s' : State := { s with handlers := rest, pool := pool₀.handle r.job.2, handled := s.handled ++ [r] }
  have hexecuted : s.link.executed = s'.handled ++ s'.handlers := by
    rw [h.link.executed, hhandlers]
    exact List.append_cons ..
  have hhandled : ∀ c, s'.handledOn c = s.handledOn c ++
      ([r].filter fun r => r.context.channel = c).map fun r => r.job.2 := by
    intro c
    rw [State.handledOn, List.filter_append, List.map_append]
    rfl
  have hpre : ∀ c, s'.handledOn c <+: s.pushedOn c := by
    intro c
    refine List.IsPrefix.trans ?_ (h.prefix_pushedOn c)
    rw [← executedOn_eq h.link.executed c, executedOn_eq (s := s') hexecuted c]
    exact List.prefix_append _ _
  have hnext : s'.handledOn r.context.channel = s.handledOn r.context.channel ++ [r.job.2] := by
    rw [hhandled]
    simp
  have hfits : r.job.2.FieldsFit := by
    refine h.sound.fits r.context.channel _ ((hpre r.context.channel).subset ?_)
    rw [hnext]
    exact List.mem_append_right _ (List.mem_singleton_self _)
  obtain ⟨pool', hpool', hinv'⟩ := hinv.handle (h.sound.distinct.earlier hpre)
    (fun c => (h.sound.orderly c).earlier (hpre c)) hfits hkeeps hnext fun c hc => by
      rw [hhandled]
      simp [Ne.symm hc]
  exact ⟨⟨h.link.server, h.link.client, hexecuted⟩, h.sound, pool', hpool', hinv'⟩

/-- All that a step can do. -/
inductive Stepped (gl : Driver) (s : State) : Label → State → Prop
  | application {op : Server.Operation} {application : Application} {out : Application.Pushed}
      (hop : s.application.step op = some (application, out)) :
      Stepped gl s (.application op) { s with
        application, link := out.foldl (fun link p => link.pushJob p.1 p.2) s.link }
  | link {l : EndToEnd.Label Client.Request} {link : EndToEnd.State Client.Request}
      (hl : s.linkStep l = some link) :
      Stepped gl s (.link l) { s with
        link, handlers := s.handlers ++ link.executed.drop s.link.executed.length }
  | handle {r : Server.Request Job} {rest : List (Server.Request Job)} {pool : PoolState}
      (hhandlers : s.handlers = r :: rest) (hpool : s.pool = .ok pool) (hwaits : pool.waits r.job.2 = false) :
      Stepped gl s .handle { s with
        handlers := rest, pool := pool.handle r.job.2, handled := s.handled ++ [r] }
  | mergeNew {pool : PoolState} (hpool : s.pool = .ok pool) (hmerging : pool.merging = false) :
      Stepped gl s .mergeNew { s with pool := .ok pool.mergeNew }
  | applyRemovals {pool : PoolState} (hpool : s.pool = .ok pool) (hmerging : pool.merging = true) :
      Stepped gl s .applyRemovals { s with pool := .ok pool.applyRemovals }
  | executeNext {pool pool' : PoolState} (hpool : s.pool = .ok pool)
      (hexecute : pool.executeNext gl = some pool') :
      Stepped gl s .executeNext { s with pool := .ok pool' }

theorem step_cases {l : Label} (h : (machine gl sid).step s l = some s') : Stepped gl s l s' := by
  cases l with
  | application op =>
    obtain ⟨⟨application, out⟩, hop, rfl⟩ := Option.map_eq_some_iff.mp h
    exact .application hop
  | link l =>
    obtain ⟨link, hl, rfl⟩ := Option.map_eq_some_iff.mp h
    exact .link hl
  | handle =>
    simp only [machine, State.step] at h
    split at h
    · rename_i r rest pool hhandlers hpool
      obtain ⟨hwaits, h⟩ := Option.ite_none_left_eq_some.mp h
      cases h
      exact .handle hhandlers hpool (Bool.eq_false_iff.mpr hwaits)
    · cases h
  | mergeNew =>
    simp only [machine, State.step] at h
    split at h
    · rename_i pool hpool
      obtain ⟨hmerging, h⟩ := Option.ite_none_left_eq_some.mp h
      cases h
      exact .mergeNew hpool (Bool.eq_false_iff.mpr hmerging)
    · cases h
  | applyRemovals =>
    simp only [machine, State.step] at h
    split at h
    · rename_i pool hpool
      obtain ⟨hmerging, h⟩ := Option.ite_none_right_eq_some.mp h
      cases h
      exact .applyRemovals hpool hmerging
    · cases h
  | executeNext =>
    simp only [machine, State.step] at h
    split at h
    · rename_i pool hpool
      obtain ⟨pool', hexecute, rfl⟩ := Option.map_eq_some_iff.mp h
      exact .executeNext hpool hexecute
    · cases h

theorem KeepsRemoval.not_removesNew (h : KeepsRemoval s .handle) {r : Server.Request Job}
    {rest : List (Server.Request Job)} (hhandlers : s.handlers = r :: rest) (hpool : s.pool = .ok pool) :
    ¬ pool.RemovesNew r.job.2 :=
  h r (by rw [hhandlers]; rfl) pool (by rw [hpool]; rfl)

theorem Inv.step (h : Inv sid s) {l : Label} (hproper : Proper s l) (hkeeps : KeepsRemoval s l)
    (hstep : (machine gl sid).step s l = some s') : Inv sid s' := by
  cases step_cases hstep with
  | application hop => exact h.application hproper hop
  | link hl => exact h.linkStep hl
  | handle hhandlers hpool _ => exact h.handle hhandlers hpool (hkeeps.not_removesNew hhandlers hpool)
  | mergeNew hpool _ =>
    obtain ⟨pool₀, hpool₀, hinv⟩ := h.pool
    obtain rfl := Except.ok.inj (hpool₀.symm.trans hpool)
    exact ⟨h.link, h.sound, _, rfl, hinv.mergeNew⟩
  | applyRemovals hpool hmerging =>
    obtain ⟨pool₀, hpool₀, hinv⟩ := h.pool
    obtain rfl := Except.ok.inj (hpool₀.symm.trans hpool)
    exact ⟨h.link, h.sound, _, rfl, hinv.applyRemovals hmerging⟩
  | executeNext hpool hexecute =>
    obtain ⟨pool₀, hpool₀, hinv⟩ := h.pool
    obtain rfl := Except.ok.inj (hpool₀.symm.trans hpool)
    exact ⟨h.link, h.sound, _, rfl, hinv.executeNext hexecute⟩

theorem inv_run {ls : List Label}
    (halong : (machine gl sid).Along (fun s l => Proper s l ∧ KeepsRemoval s l) ls)
    (hrun : (machine gl sid).run ls = some s) : Inv sid s :=
  Machine.Along.invariant (I := Inv sid) (inv_init gl sid)
    (fun _ _ _ h hl hstep => h.step hl.1 hl.2 hstep) halong hrun

-- ---------------------------------------------------------------------------
-- The mirror
-- ---------------------------------------------------------------------------

instance (s : State) (l : Label) : Decidable (Proper s l) :=
  match l with
  | .application .createChannel => inferInstanceAs (Decidable (_ < _))
  | .application (.construct _ _) => inferInstanceAs (Decidable (_ < _))
  | .application (.init i) => inferInstanceAs (Decidable (∀ p ∈ s.application.constructed[i]?, _))
  | .application (.call _ _) | .application (.destroy _) | .link _ | .handle | .mergeNew | .applyRemovals
  | .executeNext => isTrue trivial

instance (s : State) (l : Label) : Decidable (KeepsRemoval s l) :=
  match l with
  | .handle => inferInstanceAs (Decidable (∀ r ∈ s.handlers.head?, ∀ pool ∈ s.pool.toOption, _))
  | .application _ | .link _ | .mergeNew | .applyRemovals | .executeNext => isTrue trivial

/-- A virtual object and a unit of it, on one channel. The request for the unit is
delivered before the one for the object, and handled after it. The object is made while
the rendering thread is between the two sections of a traversal. -/
def unitFirst : List Label :=
  [.application .createChannel, .application (.construct 1 .virtualObject), .application (.init 0),
    .application (.construct 1 (.renderingUnit 1)), .application (.init 0),
    .link (.wake 1), .link (.buildContext 1), .link (.startCall 1), .link (.finishJob 1),
    .link (.buildContext 1), .link (.startCall 1), .link (.arrive 1), .link (.arrive 0),
    .mergeNew, .handle, .applyRemovals, .handle, .mergeNew]

end Mirror

end ZenRemote
