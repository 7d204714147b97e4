-- SUMMARY: Session isolation: calls reach the session they name or none, and a lost session's held calls are cancelled.
import ZenRemote.Client.CallAccounts

/-!
# Session isolation

A command is compared with the current session when it arrives and may run much
later, from another call's `PushCommand`, when its handler reads the current
session again.
-/

namespace ZenRemote.Client

open scoped List

universe u v w

variable {μ : Type u} {ρ : Type v} {Pool : Type w}

/-- What a session holds, and what the thread executes for it, was sent to it,
and while the thread works for a session no other one is current. -/
structure Isolated (r : Remote (Call μ ρ) Pool) (pc : Pc μ ρ) : Prop where
  held : ∀ sid, ∀ call ∈ r.heldBy sid, call.context.session = sid
  hands : ∀ sid, pc.session? = some sid → ∀ call ∈ pc.calls, call.context.session = sid
  current : ∀ sid, pc.session? = some sid → ∀ id, r.current = some id → id = sid
  obtained : ∀ sid call todo id, pc = .handler sid call todo id → id = sid

variable {services : Services μ ρ Pool} {s t : State μ ρ Pool}
  {r r' : Remote (Call μ ρ) Pool} {pc pc' : Pc μ ρ}

theorem isolated_idle (hheld : ∀ sid, ∀ call ∈ r.heldBy sid, call.context.session = sid) :
    Isolated r .idle :=
  ⟨hheld, nofun, nofun, nofun⟩

/-- A change of the sessions. While the thread is busy the current session is at
most taken away. -/
theorem Isolated.remote (h : Isolated r pc) (hheld : ∀ sid, r'.heldBy sid ⊆ r.heldBy sid)
    (hcurrent : ∀ sid, pc.session? = some sid → ∀ id, r'.current = some id → r.current = some id) :
    Isolated r' pc where
  held := fun sid call hcall => h.held sid call (hheld sid hcall)
  hands := h.hands
  current := fun sid hsid id hid => h.current sid hsid id (hcurrent sid hsid id hid)
  obtained := h.obtained

theorem Remote.KeepsQueues.heldBy (h : r.KeepsQueues r') (sid : Nat) :
    r'.heldBy sid ⊆ r.heldBy sid := by
  rw [Remote.heldBy, h.queues]
  exact fun _ hcall => hcall

theorem Isolated.release (h : Isolated r pc) (elsewhere : List Nat) :
    Isolated (r.release elsewhere).1 pc := by
  refine h.remote (fun sid => ?_) fun _ _ _ hid => hid
  rw [Remote.heldBy, Remote.queuesOf_release]
  split
  · exact fun _ hcall => hcall
  · exact List.nil_subset _

/-- The thread goes on for the same session, with calls it had. -/
theorem Isolated.setPc (h : Isolated r pc) (hsession : pc'.session? = pc.session?)
    (hcalls : pc'.calls ⊆ pc.calls)
    (hobtained : ∀ sid call todo id, pc' = .handler sid call todo id → id = sid) :
    Isolated r pc' where
  held := h.held
  hands := fun sid hsid call hcall => h.hands sid (hsession ▸ hsid) call (hcalls hcall)
  current := fun sid hsid => h.current sid (hsession ▸ hsid)
  obtained := hobtained

theorem Isolated.compare (h : Isolated s.remote s.pc) (hwellFormed : s.remote.WellFormed)
    (hstep : s.compare = some t) : Isolated t.remote t.pc := by
  obtain ⟨call, hpc, ⟨session, hcurrent, hid, rfl⟩ | ⟨-, rfl⟩⟩ := State.compare_cases hstep
  · refine ⟨h.held, ?_, ?_, nofun⟩
    · rintro sid ⟨⟩ call' hcall
      rw [List.mem_singleton.mp hcall]
      exact hid.symm
    · rintro sid ⟨⟩ id hid'
      obtain ⟨id', hid'', hlookup⟩ := Option.bind_eq_some_iff.mp hcurrent
      obtain rfl := Option.some.inj (hid'.symm.trans hid'')
      exact (hwellFormed.ids id session hlookup).1.symm
  · exact isolated_idle h.held

theorem Isolated.pushCommand (h : Isolated s.remote s.pc) (hstep : s.pushCommand = some t) :
    Isolated t.remote t.pc := by
  obtain ⟨call, sid, session, hpc, hlookup, rfl⟩ := State.pushCommand_cases hstep
  set push := fun session : Session (Call μ ρ) Pool =>
    session.pushCommand call.context.serial call.context.channel call with hpush
  have hperm : (push session).2.map Prod.snd ++ (push session).1.destroy ~ call :: session.destroy :=
    CommandQueues.pushCommand_perm session.commandQueues _ _ call
  -- all that the push moves was sent to the session it pushes to
  have hhome : ∀ call' ∈ (push session).2.map Prod.snd ++ (push session).1.destroy,
      call'.context.session = sid := by
    intro call' hcall'
    rcases List.mem_cons.mp (hperm.mem_iff.mp hcall') with rfl | hcall'
    · exact h.hands sid (by rw [hpc]; rfl) call' (by simp [hpc, Pc.calls])
    · exact h.held sid call' (by rwa [Remote.heldBy_of_lookup hlookup])
  refine ⟨fun sid' call' hcall' => ?_, ?_, ?_, by rintro _ _ _ _ ⟨⟩⟩
  · rw [Remote.heldBy, Remote.queuesOf_modify, hlookup] at hcall'
    split at hcall'
    · rename_i heq
      rw [heq]
      exact hhome call' (List.mem_append_right _ hcall')
    · exact h.held sid' call' hcall'
  · rintro sid' ⟨⟩ call' hcall'
    exact hhome call' (List.mem_append_left _ hcall')
  · rintro sid' ⟨⟩ id hid
    rw [Remote.current_modify] at hid
    exact h.current sid (by rw [hpc]; rfl) id hid

theorem Isolated.handlerCurrent (h : Isolated s.remote s.pc) (hstep : s.handlerCurrent = some t) :
    Isolated t.remote t.pc := by
  obtain ⟨sid, call, todo, hpc, ⟨id, hcurrent, rfl⟩ | ⟨-, rfl⟩⟩ := State.handlerCurrent_cases hstep
  · refine h.setPc (by rw [hpc]; rfl) (by simp [hpc, Pc.calls]) ?_
    rintro _ _ _ _ ⟨⟩
    exact h.current sid (by rw [hpc]; rfl) id hcurrent
  · refine h.setPc (by rw [hpc]; rfl) (by simp [hpc, Pc.calls]) ?_
    rintro _ _ _ _ ⟨⟩

theorem Isolated.handlerPool (h : Isolated s.remote s.pc) (hstep : s.handlerPool services = some t) :
    Isolated t.remote t.pc := by
  obtain ⟨sid, call, todo, id, hpc, ⟨-, rfl⟩ | rfl | ⟨pool, status, rfl⟩⟩ :=
    State.handlerPool_cases hstep
  · refine h.setPc (by rw [hpc]; rfl) (by simp [hpc, Pc.calls]) ?_
    rintro _ _ _ _ ⟨⟩
  · refine h.setPc (by rw [hpc]; rfl) (by simp [hpc, Pc.calls]) ?_
    rintro _ _ _ _ ⟨⟩
  · have hrunning : Isolated s.remote (.running sid todo) := by
      refine h.setPc (by rw [hpc]; rfl) (by simp [hpc, Pc.calls]) ?_
      rintro _ _ _ _ ⟨⟩
    have hkept : s.remote.KeepsQueues (s.remote.modify id fun session => session.setResources pool) :=
      Remote.keepsQueues_modify id fun _ => rfl
    exact hrunning.remote hkept.heldBy fun _ _ id' hid' => Remote.current_modify .. ▸ hid'

theorem Isolated.act (h : Isolated s.remote s.pc) (haccounts : Accounts services s) {l : Label ρ}
    (hstep : s.act services l = some t) : Isolated t.remote t.pc := by
  cases l with
  | arrive i context request =>
    obtain ⟨-, method, caller, -, ⟨-, rfl⟩ | ⟨c, -, rfl⟩⟩ := State.arrive_cases hstep
    · exact h
    · exact ⟨h.held, nofun, nofun, nofun⟩
  | compare => exact h.compare haccounts.wellFormed hstep
  | pushCommand => exact h.pushCommand hstep
  | handlerCurrent => exact h.handlerCurrent hstep
  | handlerPool => exact h.handlerPool hstep
  | pushDone =>
    obtain ⟨sid, -, rfl⟩ := State.pushDone_cases hstep
    exact isolated_idle h.held
  | finishEvent i =>
    obtain ⟨-, caller, -, rfl⟩ := State.finishEvent_cases hstep
    exact h
  | cancelWaiting i =>
    obtain ⟨-, method, caller, -, rfl⟩ := State.cancelWaiting_cases hstep
    exact h
  | newSession =>
    obtain ⟨hpc, rfl⟩ := State.newSession_cases hstep
    exact h.remote (Remote.keepsQueues_resetSession _ haccounts.wellFormed.fresh).heldBy
      (by simp [hpc, Pc.session?])
  | shutdownSession id =>
    obtain ⟨hpc, rfl⟩ := State.shutdownSession_cases hstep
    exact h.remote (Remote.keepsQueues_clearSession id).heldBy (by simp [hpc, Pc.session?])
  | disableSession =>
    obtain rfl := Option.some.inj hstep
    refine h.remote Remote.keepsQueues_disableSession.heldBy fun _ _ id hid => ?_
    rw [Remote.disableSession, Remote.current_takeAway] at hid
    cases hid
  | enableSession | giveBack i | shutdownServer =>
    obtain rfl := Option.some.inj hstep
    exact ⟨h.held, h.hands, h.current, h.obtained⟩
  | borrow =>
    obtain ⟨id, -, rfl⟩ := Option.map_eq_some_iff.mp hstep
    exact h

theorem isolated_run {ls : List (Label ρ)} (hrun : (client services).run ls = some s) :
    Isolated s.remote s.pc := by
  have h : Accounts services s ∧ Isolated s.remote s.pc := by
    refine Machine.run_invariant (I := fun s => Accounts services s ∧ Isolated s.remote s.pc)
      ⟨accounts_init, isolated_idle nofun⟩ ?_ hrun
    rintro s l t ⟨haccounts, hisolated⟩ hstep
    refine ⟨haccounts.step hstep, ?_⟩
    obtain ⟨u, hact, rfl⟩ := State.step_cases hstep
    exact (hisolated.act haccounts hact).release _
  exact h.2

-- ---------------------------------------------------------------------------
-- What a step adds to the records
-- ---------------------------------------------------------------------------

/-- `t` has the records of `s` and more. Only calls in the hands of the thread
get a handler run. -/
structure Extends (s t : State μ ρ Pool) : Prop where
  finished : s.finished <+: t.finished
  cancelled : s.cancelled <+: t.cancelled
  handled : ∀ x ∈ t.handled, x ∈ s.handled ∨ x ∈ callers s.pc.calls

theorem extends_of_eq (hfinished : t.finished = s.finished) (hcancelled : t.cancelled = s.cancelled)
    (hhandled : t.handled = s.handled) : Extends s t :=
  ⟨hfinished ▸ List.prefix_refl _, hcancelled ▸ List.prefix_refl _, fun _ hx => .inl (hhandled ▸ hx)⟩

theorem extends_act {l : Label ρ} (hstep : s.act services l = some t) : Extends s t := by
  cases l with
  | arrive i context request =>
    obtain ⟨-, method, caller, -, ⟨-, rfl⟩ | ⟨c, -, rfl⟩⟩ := State.arrive_cases hstep
    · exact ⟨List.prefix_append _ _, List.prefix_refl _, fun _ hx => .inl hx⟩
    · exact extends_of_eq rfl rfl rfl
  | compare =>
    obtain ⟨call, -, ⟨session, -, -, rfl⟩ | ⟨-, rfl⟩⟩ := State.compare_cases hstep
    · exact extends_of_eq rfl rfl rfl
    · exact ⟨List.prefix_append _ _, List.prefix_refl _, fun _ hx => .inl hx⟩
  | pushCommand =>
    obtain ⟨call, sid, session, -, -, rfl⟩ := State.pushCommand_cases hstep
    exact extends_of_eq rfl rfl rfl
  | handlerCurrent =>
    obtain ⟨sid, call, todo, hpc, hcases⟩ := State.handlerCurrent_cases hstep
    have hhandled : t.finished = s.finished ∧ t.cancelled = s.cancelled ∧
        t.handled = s.handled ++ [call.caller] := by
      obtain ⟨id, -, rfl⟩ | ⟨-, rfl⟩ := hcases
      · exact ⟨rfl, rfl, rfl⟩
      · exact ⟨rfl, rfl, rfl⟩
    obtain ⟨hfinished, hcancelled, hhandled⟩ := hhandled
    refine ⟨hfinished ▸ List.prefix_refl _, hcancelled ▸ List.prefix_refl _, fun x hx => ?_⟩
    rw [hhandled, List.mem_append, List.mem_singleton] at hx
    refine hx.imp_right fun hx => ?_
    rw [hpc, hx]
    exact List.mem_cons_self ..
  | handlerPool =>
    obtain ⟨sid, call, todo, id, -, ⟨-, rfl⟩ | rfl | ⟨pool, status, rfl⟩⟩ :=
      State.handlerPool_cases hstep
    · exact extends_of_eq rfl rfl rfl
    · exact extends_of_eq rfl rfl rfl
    · exact ⟨List.prefix_append _ _, List.prefix_refl _, fun _ hx => .inl hx⟩
  | pushDone =>
    obtain ⟨sid, -, rfl⟩ := State.pushDone_cases hstep
    exact extends_of_eq rfl rfl rfl
  | finishEvent i =>
    obtain ⟨-, caller, -, rfl⟩ := State.finishEvent_cases hstep
    exact extends_of_eq rfl rfl rfl
  | cancelWaiting i =>
    obtain ⟨-, method, caller, -, rfl⟩ := State.cancelWaiting_cases hstep
    exact extends_of_eq rfl rfl rfl
  | newSession =>
    obtain ⟨-, rfl⟩ := State.newSession_cases hstep
    exact extends_of_eq rfl rfl rfl
  | shutdownSession id =>
    obtain ⟨-, rfl⟩ := State.shutdownSession_cases hstep
    exact extends_of_eq rfl rfl rfl
  | enableSession | disableSession | giveBack i | shutdownServer =>
    obtain rfl := Option.some.inj hstep
    exact extends_of_eq rfl rfl rfl
  | borrow =>
    obtain ⟨id, -, rfl⟩ := Option.map_eq_some_iff.mp hstep
    exact extends_of_eq rfl rfl rfl

theorem extends_step {l : Label ρ} (hstep : s.step services l = some t) : Extends s t := by
  obtain ⟨u, hact, rfl⟩ := State.step_cases hstep
  have h := extends_act hact
  exact ⟨h.finished.trans (List.prefix_append _ _), h.cancelled.trans (List.prefix_append _ _), h.handled⟩

/-- A finished call that was not handled never will be. -/
theorem not_handled_runFrom {x : Nat} (haccounts : Accounts services s)
    (hfinished : x ∈ s.finishedCallers) (hhandled : x ∉ s.handled) {ls : List (Label ρ)}
    (hrun : (client services).runFrom s ls = some t) : x ∉ t.handled := by
  have h : Accounts services t ∧ x ∈ t.finishedCallers ∧ x ∉ t.handled := by
    refine Machine.runFrom_invariant
      (I := fun s => Accounts services s ∧ x ∈ s.finishedCallers ∧ x ∉ s.handled) ?_
      ⟨haccounts, hfinished, hhandled⟩ hrun
    rintro s l t ⟨haccounts, hfinished, hhandled⟩ hstep
    have hextends := extends_step hstep
    refine ⟨haccounts.step hstep, (hextends.finished.map Prod.fst).subset hfinished, fun hx => ?_⟩
    have howner := haccounts.owner x
    have hone := count_range_le_one s.nextCaller x
    have hcalls := List.count_pos_iff.mpr ((hextends.handled x hx).resolve_left hhandled)
    have := List.count_pos_iff.mpr hfinished
    omega
  exact h.2.2

-- ---------------------------------------------------------------------------
-- Sessions that are not current any more
-- ---------------------------------------------------------------------------

/-- The session `sid` has been current and is not any more, and the thread does
not work for it. -/
structure Past (sid : Nat) (r : Remote (Call μ ρ) Pool) (pc : Pc μ ρ) : Prop where
  old : sid < r.nextId
  notCurrent : r.current ≠ some sid
  notServed : pc.session? ≠ some sid

/-- The thread cannot get back to a past session, whose queues stay as they are. -/
theorem Past.act {sid : Nat} (h : Past sid s.remote s.pc) (hwellFormed : s.remote.WellFormed)
    {l : Label ρ} (hstep : s.act services l = some t) :
    Past sid t.remote t.pc ∧ t.remote.queuesOf sid = s.remote.queuesOf sid := by
  cases l with
  | arrive i context request =>
    obtain ⟨-, method, caller, -, ⟨-, rfl⟩ | ⟨c, -, rfl⟩⟩ := State.arrive_cases hstep
    · exact ⟨h, rfl⟩
    · exact ⟨⟨h.old, h.notCurrent, (Option.some_ne_none sid).symm⟩, rfl⟩
  | compare =>
    obtain ⟨call, -, ⟨session, hcurrent, -, rfl⟩ | ⟨-, rfl⟩⟩ := State.compare_cases hstep
    · refine ⟨⟨h.old, h.notCurrent, ?_⟩, rfl⟩
      rintro ⟨⟩
      obtain ⟨id, hid, hlookup⟩ := Option.bind_eq_some_iff.mp hcurrent
      rw [(hwellFormed.ids id session hlookup).1] at h
      exact h.notCurrent hid
    · exact ⟨⟨h.old, h.notCurrent, (Option.some_ne_none sid).symm⟩, rfl⟩
  | pushCommand =>
    obtain ⟨call, sid', session, hpc, -, rfl⟩ := State.pushCommand_cases hstep
    have hne : sid' ≠ sid := fun heq => h.notServed (by rw [hpc, heq]; rfl)
    refine ⟨⟨?_, ?_, ?_⟩, ?_⟩
    · rw [Remote.nextId_modify]
      exact h.old
    · rw [Remote.current_modify]
      exact h.notCurrent
    · rintro ⟨⟩
      exact hne rfl
    · rw [Remote.queuesOf_modify, if_neg hne.symm]
  | handlerCurrent =>
    obtain ⟨sid', call, todo, hpc, ⟨id, -, rfl⟩ | ⟨-, rfl⟩⟩ := State.handlerCurrent_cases hstep
    · exact ⟨⟨h.old, h.notCurrent, by simpa [hpc, Pc.session?] using h.notServed⟩, rfl⟩
    · exact ⟨⟨h.old, h.notCurrent, by simpa [hpc, Pc.session?] using h.notServed⟩, rfl⟩
  | handlerPool =>
    obtain ⟨sid', call, todo, id, hpc, hcases⟩ := State.handlerPool_cases hstep
    have hserved : sid' ≠ sid := by simpa [hpc, Pc.session?] using h.notServed
    have hserved' : some sid' ≠ some sid := by simpa using hserved
    obtain ⟨-, rfl⟩ | rfl | ⟨pool, status, rfl⟩ := hcases
    · exact ⟨⟨h.old, h.notCurrent, hserved'⟩, rfl⟩
    · exact ⟨⟨h.old, h.notCurrent, hserved'⟩, rfl⟩
    · have hkept : s.remote.KeepsQueues (s.remote.modify id fun session => session.setResources pool) :=
        Remote.keepsQueues_modify id fun _ => rfl
      refine ⟨⟨?_, ?_, hserved'⟩, hkept.queues sid⟩
      · exact (Remote.nextId_modify ..).symm ▸ h.old
      · exact (Remote.current_modify ..).symm ▸ h.notCurrent
  | pushDone =>
    obtain ⟨sid', -, rfl⟩ := State.pushDone_cases hstep
    exact ⟨⟨h.old, h.notCurrent, (Option.some_ne_none sid).symm⟩, rfl⟩
  | finishEvent i =>
    obtain ⟨-, caller, -, rfl⟩ := State.finishEvent_cases hstep
    exact ⟨h, rfl⟩
  | cancelWaiting i =>
    obtain ⟨-, method, caller, -, rfl⟩ := State.cancelWaiting_cases hstep
    exact ⟨h, rfl⟩
  | newSession =>
    obtain ⟨hpc, rfl⟩ := State.newSession_cases hstep
    refine ⟨?_, (Remote.keepsQueues_resetSession _ hwellFormed.fresh).queues sid⟩
    simp only [Remote.resetSession]
    split
    · exact ⟨Nat.lt_succ_of_lt h.old, fun heq => absurd (Option.some.inj heq) (Nat.ne_of_gt h.old),
        h.notServed⟩
    · exact h
  | shutdownSession id =>
    obtain ⟨hpc, rfl⟩ := State.shutdownSession_cases hstep
    refine ⟨⟨?_, ?_, h.notServed⟩, (Remote.keepsQueues_clearSession id).queues sid⟩
    · exact (Remote.nextId_clearSession id).symm ▸ h.old
    · show (s.remote.clearSession id).1.current ≠ some sid
      rw [Remote.current_clearSession]
      split
      · exact (Option.some_ne_none sid).symm
      · exact h.notCurrent
  | disableSession =>
    obtain rfl := Option.some.inj hstep
    refine ⟨⟨?_, ?_, h.notServed⟩, Remote.keepsQueues_disableSession.queues sid⟩
    · exact (Remote.nextId_takeAway (r := { s.remote with
        sessionIsEnabled := false, broadcasting := false })).symm ▸ h.old
    · show s.remote.disableSession.1.current ≠ some sid
      rw [Remote.disableSession, Remote.current_takeAway]
      exact (Option.some_ne_none sid).symm
  | enableSession | giveBack i | shutdownServer =>
    obtain rfl := Option.some.inj hstep
    exact ⟨⟨h.old, h.notCurrent, h.notServed⟩, rfl⟩
  | borrow =>
    obtain ⟨id, -, rfl⟩ := Option.map_eq_some_iff.mp hstep
    exact ⟨h, rfl⟩

/-- A call of a past session that is held there, or was cancelled with it. -/
structure Stranded (x sid : Nat) (s : State μ ρ Pool) : Prop where
  past : Past sid s.remote s.pc
  place : x ∈ callers (s.remote.heldBy sid) ∨
    x ∈ s.cancelled ∧ (x, Status.sessionExpired) ∈ s.finished

/-- A past session keeps what it holds until it is destroyed, which cancels it. -/
theorem Past.release {x sid : Nat} (h : Past sid s.remote s.pc)
    (hx : x ∈ callers (s.remote.heldBy sid)) : Stranded x sid s.release := by
  refine ⟨⟨h.old, h.notCurrent, h.notServed⟩, ?_⟩
  by_cases hrefers : s.remote.refersTo (s.pc.pointers ++ s.borrowed) sid
  · refine .inl ?_
    show x ∈ callers ((s.remote.release (s.pc.pointers ++ s.borrowed)).1.queuesOf sid).destroy
    rwa [Remote.queuesOf_release, if_pos hrefers]
  · obtain ⟨call, hcall, rfl⟩ := List.mem_map.mp hx
    have hmem := Remote.mem_release (r := s.remote) hrefers hcall
    exact .inr ⟨List.mem_append_right _ (List.mem_map_of_mem hmem),
      List.mem_append_right _ (List.mem_map_of_mem (List.mem_map_of_mem hmem))⟩

theorem Stranded.step {x sid : Nat} (h : Stranded x sid s) (hwellFormed : s.remote.WellFormed)
    {l : Label ρ} (hstep : s.step services l = some t) : Stranded x sid t := by
  have hextends := extends_step hstep
  obtain ⟨u, hact, rfl⟩ := State.step_cases hstep
  obtain ⟨hpast, hqueues⟩ := h.past.act hwellFormed hact
  rcases h.place with hx | ⟨hcancelled, hfinished⟩
  · rw [Remote.heldBy, ← hqueues] at hx
    exact hpast.release hx
  · exact ⟨⟨hpast.old, hpast.notCurrent, hpast.notServed⟩,
      .inr ⟨hextends.cancelled.subset hcancelled, hextends.finished.subset hfinished⟩⟩

theorem Stranded.runFrom {x sid : Nat} (h : Stranded x sid s) (haccounts : Accounts services s)
    {ls : List (Label ρ)} (hrun : (client services).runFrom s ls = some t) :
    Stranded x sid t ∧ Accounts services t := by
  refine Machine.runFrom_invariant (I := fun s => Stranded x sid s ∧ Accounts services s) ?_
    ⟨h, haccounts⟩ hrun
  rintro s l t ⟨hstranded, haccounts⟩ hstep
  exact ⟨hstranded.step haccounts.wellFormed hstep, haccounts.step hstep⟩

theorem Stranded.not_handled {x sid : Nat} (h : Stranded x sid s) (haccounts : Accounts services s) :
    x ∉ s.handled := by
  intro hhandled
  rcases h.place with hx | ⟨hcancelled, -⟩
  · have hheld : x ∈ callers s.remote.held :=
      List.map_subset _ (Remote.heldBy_subset_held sid) hx
    have howner := haccounts.owner x
    have hone := count_range_le_one s.nextCaller x
    have hrun := haccounts.handled x
    have hhandling := s.pc.count_handling_le x
    have := List.count_pos_iff.mpr hheld
    have := List.count_pos_iff.mpr hhandled
    omega
  · exact (haccounts.answeredOnce x).cancelled hcancelled hhandled

/-- What holds in every state that the client reaches. -/
structure KeepsIsolation (services : Services μ ρ Pool) (s : State μ ρ Pool) : Prop where
  /-- The session a handler obtains is the one its call names. -/
  obtained : ∀ sid call todo id, s.pc = .handler sid call todo id →
    ∃ session, s.remote.sessions.lookup id = some session ∧ session.id = call.context.session
  /-- A call that names another session than the current one is answered, which is
  the end of it for the thread. It changes no pool and is never handled. -/
  expired : ∀ call, s.pc = .compare call →
    (∀ session, s.remote.currentSession = some session → session.id ≠ call.context.session) →
    ∃ t, s.step services .compare = some t ∧ t.pc = .idle ∧
      (call.caller, Status.sessionExpired) ∈ t.finished ∧
      (∀ id session, t.remote.sessions.lookup id = some session →
        s.remote.sessions.lookup id = some session) ∧
      ∀ ls u, (client services).runFrom t ls = some u → call.caller ∉ u.handled
  /-- A call held by a session that a `New` or `Shutdown` event takes away is never
  handled, and is cancelled when the session is destroyed. -/
  lost : ∀ sid call, s.remote.current = some sid → call ∈ s.remote.heldBy sid →
    ∀ l t, (l = .newSession ∨ ∃ id, l = .shutdownSession id) → s.step services l = some t →
      t.remote.current ≠ some sid →
      ∀ ls u, (client services).runFrom t ls = some u →
        call.caller ∉ u.handled ∧ (sid ∉ u.remote.sessions →
          call.caller ∈ u.cancelled ∧ (call.caller, Status.sessionExpired) ∈ u.finished)

/-- The event that takes a session away makes it a past one, which holds what it held. -/
theorem Accounts.stranded (h : Accounts services s) {sid : Nat} {call : Call μ ρ}
    (hcurrent : s.remote.current = some sid) (hcall : call ∈ s.remote.heldBy sid) {l : Label ρ}
    (hl : l = .newSession ∨ ∃ id, l = .shutdownSession id) (hstep : s.step services l = some t)
    (hlost : t.remote.current ≠ some sid) : Stranded call.caller sid t := by
  obtain ⟨u, hact, rfl⟩ := State.step_cases hstep
  obtain ⟨session, hlookup, -⟩ := h.wellFormed.current sid hcurrent
  have hold := (h.wellFormed.ids sid session hlookup).2
  have hx : call.caller ∈ callers (s.remote.heldBy sid) := List.mem_map_of_mem hcall
  obtain rfl | ⟨id, rfl⟩ := hl
  · obtain ⟨hpc, rfl⟩ := State.newSession_cases hact
    have hkept := Remote.keepsQueues_resetSession services.pool h.wellFormed.fresh
    refine Past.release ⟨?_, hlost, by simp [hpc, Pc.session?]⟩ ?_
    · simp only [Remote.resetSession]
      split
      · exact Nat.lt_succ_of_lt hold
      · exact hold
    · rwa [Remote.heldBy, hkept.queues]
  · obtain ⟨hpc, rfl⟩ := State.shutdownSession_cases hact
    refine Past.release ⟨?_, hlost, by simp [hpc, Pc.session?]⟩ ?_
    · exact (Remote.nextId_clearSession id).symm ▸ hold
    · rwa [Remote.heldBy, (Remote.keepsQueues_clearSession id).queues]

theorem Accounts.expired (h : Accounts services s) {call : Call μ ρ} (hpc : s.pc = .compare call)
    (hother : ∀ session, s.remote.currentSession = some session → session.id ≠ call.context.session) :
    ∃ t, s.step services .compare = some t ∧ t.pc = .idle ∧
      (call.caller, Status.sessionExpired) ∈ t.finished ∧
      (∀ id session, t.remote.sessions.lookup id = some session →
        s.remote.sessions.lookup id = some session) ∧
      call.caller ∉ t.handled := by
  obtain ⟨u, hact⟩ : ∃ u, s.act services .compare = some u := State.compare_some hpc
  refine ⟨u.release, by rw [State.step_eq (by simp [hpc]), hact, Option.map_some], ?_⟩
  obtain ⟨call', hpc', ⟨session, hcurrent, hid, -⟩ | ⟨-, rfl⟩⟩ := State.compare_cases hact
  · obtain rfl := Pc.compare.inj (hpc.symm.trans hpc')
    exact absurd hid (hother session hcurrent)
  · obtain rfl := Pc.compare.inj (hpc.symm.trans hpc')
    refine ⟨rfl, List.mem_append_left _ (List.mem_append_right _ (by simp)),
      fun id session hlookup => ?_, ?_⟩
    · have hlookup' : ((s.remote.release ([] ++ s.borrowed)).1.sessions.lookup id) = some session :=
        hlookup
      rw [Remote.release, AList.lookup_filterKeys] at hlookup'
      exact (Option.ite_none_right_eq_some.mp hlookup').2
    · intro (hhandled : call.caller ∈ s.handled)
      have howner := h.owner call.caller
      have hone := count_range_le_one s.nextCaller call.caller
      have hrun := h.handled call.caller
      simp only [hpc, Pc.calls, Pc.handling, callers_cons, callers_nil, List.append_nil,
        List.count_singleton_self, List.count_nil] at howner hrun
      have := List.count_pos_iff.mpr hhandled
      omega

/-- Session isolation, in every state of every run. -/
theorem keepsIsolation_run {ls : List (Label ρ)} (hrun : (client services).run ls = some s) :
    KeepsIsolation services s := by
  have haccounts := accounts_run hrun
  have hisolated := isolated_run hrun
  refine ⟨fun sid call todo id hpc => ?_, fun call hpc hother => ?_, ?_⟩
  · obtain rfl := hisolated.obtained sid call todo id hpc
    obtain ⟨session, hlookup⟩ := Option.isSome_iff_exists.mp
      (AList.lookup_isSome.mpr (haccounts.pointers id (by simp [hpc, Pc.pointers])))
    refine ⟨session, hlookup, ?_⟩
    rw [(haccounts.wellFormed.ids id session hlookup).1]
    exact (hisolated.hands id (by rw [hpc]; rfl) call (by simp [hpc, Pc.calls])).symm
  · obtain ⟨t, hstep, hidle, hfinished, hpools, hhandled⟩ := haccounts.expired hpc hother
    refine ⟨t, hstep, hidle, hfinished, hpools, fun ls u hrun' => ?_⟩
    exact not_handled_runFrom (haccounts.step hstep) (List.mem_map_of_mem hfinished) hhandled hrun'
  · intro sid call hcurrent hcall l t hl hstep hlost ls u hrun'
    have hstranded := haccounts.stranded hcurrent hcall hl hstep hlost
    obtain ⟨hafter, haccounts'⟩ := hstranded.runFrom (haccounts.step hstep) hrun'
    refine ⟨hafter.not_handled haccounts', fun hdestroyed => hafter.place.resolve_left fun hx => ?_⟩
    rw [Remote.heldBy, Remote.queuesOf, AList.lookup_eq_none.mpr hdestroyed] at hx
    cases hx

/-- A call is held for a missing serial, and a second `New` event takes its session away. -/
def heldUntilReplaced : List (Label Unit) :=
  [.enableSession, .newSession, .arrive 0 (some ⟨1, 2, 5⟩) (), .compare, .pushCommand, .pushDone]

/-- A call of the session runs up to its handler. -/
def inHandler : List (Label Unit) :=
  [.enableSession, .newSession, .arrive 0 (some ⟨1, 0, 5⟩) (), .compare, .pushCommand,
    .handlerCurrent]

/-- A call names a session that has been replaced before it arrives. -/
def ofReplaced : List (Label Unit) :=
  [.enableSession, .newSession, .newSession, .arrive 0 (some ⟨1, 0, 5⟩) ()]

theorem keepsIsolation_heldUntilReplaced :
    (∃ s, (client countingServices).run inHandler = some s ∧
      s.pc = .handler 1 ⟨0, 'm', ⟨1, 0, 5⟩, ()⟩ [] 1 ∧
      ∃ session, s.remote.sessions.lookup 1 = some session ∧ session.id = 1) ∧
    (∃ s t, (client countingServices).run ofReplaced = some s ∧
      s.step countingServices .compare = some t ∧ s.remote.current = some 2 ∧
      (0, Status.sessionExpired) ∈ t.finished ∧
      ∀ ls u, (client countingServices).runFrom t ls = some u → 0 ∉ u.handled) ∧
    ∃ s t, (client countingServices).run heldUntilReplaced = some s ∧
      s.step countingServices .newSession = some t ∧ t.cancelled = [0] ∧
      ∀ ls u, (client countingServices).runFrom t ls = some u → 0 ∉ u.handled := by
  refine ⟨?_, ?_, ?_⟩
  · have hrun : (client countingServices).run inHandler = some _ := rfl
    exact ⟨_, hrun, rfl, (keepsIsolation_run hrun).obtained 1 ⟨0, 'm', ⟨1, 0, 5⟩, ()⟩ [] 1 rfl⟩
  · have hrun : (client countingServices).run ofReplaced = some _ := rfl
    have hother := (keepsIsolation_run hrun).expired ⟨0, 'm', ⟨1, 0, 5⟩, ()⟩ rfl (by
      rintro session ⟨⟩
      decide)
    obtain ⟨t, hstep, -, hfinished, -, hnever⟩ := hother
    exact ⟨_, t, hrun, hstep, rfl, hfinished, hnever⟩
  · have hrun : (client countingServices).run heldUntilReplaced = some _ := rfl
    refine ⟨_, _, hrun, rfl, rfl, fun ls u hrun' => ?_⟩
    exact ((keepsIsolation_run hrun).lost 1 ⟨0, 'm', ⟨1, 2, 5⟩, ()⟩ rfl (List.mem_singleton_self _)
      .newSession _ (.inl rfl) rfl (by decide) ls u hrun').1

end ZenRemote.Client
