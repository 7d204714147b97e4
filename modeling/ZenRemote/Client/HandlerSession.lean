-- SUMMARY: Does a handler find a current session? Yes, unless the session is disabled between the comparison and the handler.
import ZenRemote.Client.Isolation

/-!
# The session of a handler

`Proceed` compares session ids once and relies on the session staying current
until the handlers that the call's `PushCommand` runs have read it. Only the
application thread can take the session away in between.
-/

namespace ZenRemote.Client

universe u v w

variable {μ : Type u} {ρ : Type v} {Pool : Type w}

/-- A handler is still to read `current()` or `pool()`. A call whose serial lies
beyond the awaited one is only held back, and runs no handler. -/
def handlerAhead (r : Remote (Call μ ρ) Pool) : Pc μ ρ → Bool
  | .push call sid =>
    call.context.serial ≤ ((r.queuesOf sid).queueOf call.context.channel).nextSerial
  | .running _ todo => !todo.isEmpty
  | .handler .. => true
  | _ => false

/-- Every handler that has been invoked, or is about to be, finds a current
session, and a pool in it. -/
structure FindsSession (s : State μ ρ Pool) : Prop where
  current : ∀ sid call todo, s.pc = .running sid (call :: todo) → s.remote.current ≠ none
  pool : ∀ sid call todo id, s.pc = .handler sid call todo id →
    (s.remote.sessions.lookup id).bind Session.pool ≠ none
  crashed : ∀ crash sid call todo, s.pc = .crashed crash sid call todo → crash = .handler

/-- The session the thread works for is current while a handler needs it. -/
structure StaysCurrent (r : Remote (Call μ ρ) Pool) (pc : Pc μ ρ) : Prop where
  ahead : handlerAhead r pc → r.current = pc.session?
  crashed : ∀ crash sid call todo, pc = .crashed crash sid call todo → crash = .handler

variable {services : Services μ ρ Pool} {s t : State μ ρ Pool}
  {r r' : Remote (Call μ ρ) Pool} {pc pc' : Pc μ ρ}

theorem staysCurrent_of_not_ahead (h : handlerAhead r pc = false)
    (hcrashed : ∀ crash sid call todo, pc = .crashed crash sid call todo → crash = .handler) :
    StaysCurrent r pc :=
  ⟨fun hahead => absurd (h.symm.trans hahead) nofun, hcrashed⟩

theorem handlerAhead_of_queues (hqueues : ∀ sid, pc.session? = some sid → r'.queuesOf sid = r.queuesOf sid) :
    handlerAhead r' pc = handlerAhead r pc := by
  cases pc with
  | push call sid => simp only [handlerAhead, hqueues sid rfl]
  | _ => rfl

theorem StaysCurrent.release (h : StaysCurrent r pc) {elsewhere : List Nat}
    (hpointers : ∀ sid, pc.session? = some sid → sid ∈ elsewhere) :
    StaysCurrent (r.release elsewhere).1 pc := by
  refine ⟨fun hahead => h.ahead ?_, h.crashed⟩
  rw [← hahead]
  refine (handlerAhead_of_queues fun sid hsid => ?_).symm
  rw [Remote.queuesOf_release, if_pos]
  rw [Remote.refersTo, List.contains_iff_mem.mpr (hpointers sid hsid), Bool.or_true]

/-- A handler that is ahead finds the session, and its pool. -/
theorem StaysCurrent.pool (h : StaysCurrent r pc) (hwellFormed : r.WellFormed) {sid : Nat}
    (hahead : handlerAhead r pc) (hsid : pc.session? = some sid) :
    ∃ session, r.sessions.lookup sid = some session ∧ session.pool = some session.resources := by
  obtain ⟨session, hlookup, hactive⟩ := hwellFormed.current sid ((h.ahead hahead).trans hsid)
  exact ⟨session, hlookup, if_pos hactive⟩

theorem StaysCurrent.pushCommand (h : StaysCurrent s.remote s.pc)
    (hstep : s.pushCommand = some t) : StaysCurrent t.remote t.pc := by
  obtain ⟨call, sid, session, hpc, hlookup, rfl⟩ := State.pushCommand_cases hstep
  refine ⟨fun hahead => ?_, nofun⟩
  have hexecuted : (session.pushCommand call.context.serial call.context.channel call).2 ≠ [] := by
    intro hnil
    simp [handlerAhead, hnil] at hahead
  have hpush : handlerAhead s.remote s.pc := by
    rw [hpc, handlerAhead, decide_eq_true_iff, Remote.queuesOf, hlookup]
    exact not_lt.mp fun hlt => hexecuted
      ((SerialCommandQueue.executed_push_eq_nil_iff _ _ call).mpr hlt)
  rw [Remote.current_modify, h.ahead hpush, hpc]
  rfl

theorem StaysCurrent.act (h : StaysCurrent s.remote s.pc) (haccounts : Accounts services s)
    (hisolated : Isolated s.remote s.pc) {l : Label ρ}
    (hok : l = .disableSession → handlerAhead s.remote s.pc = false)
    (hstep : s.act services l = some t) : StaysCurrent t.remote t.pc := by
  cases l with
  | arrive i context request =>
    obtain ⟨-, method, caller, -, ⟨-, rfl⟩ | ⟨c, -, rfl⟩⟩ := State.arrive_cases hstep
    · exact h
    · exact staysCurrent_of_not_ahead rfl nofun
  | compare =>
    obtain ⟨call, -, ⟨session, hcurrent, -, rfl⟩ | ⟨-, rfl⟩⟩ := State.compare_cases hstep
    · refine ⟨fun _ => ?_, nofun⟩
      obtain ⟨id, hid, hlookup⟩ := Option.bind_eq_some_iff.mp hcurrent
      rw [hid, (haccounts.wellFormed.ids id session hlookup).1]
      rfl
    · exact staysCurrent_of_not_ahead rfl nofun
  | pushCommand => exact h.pushCommand hstep
  | handlerCurrent =>
    obtain ⟨sid, call, todo, hpc, hcases⟩ := State.handlerCurrent_cases hstep
    have hcurrent : s.remote.current = some sid := by
      have := h.ahead (by rw [hpc]; rfl)
      rwa [hpc] at this
    obtain ⟨id, hid, rfl⟩ | ⟨hnone, rfl⟩ := hcases
    · exact ⟨fun _ => hcurrent, nofun⟩
    · exact absurd (hcurrent.symm.trans hnone) nofun
  | handlerPool =>
    obtain ⟨sid, call, todo, id, hpc, hcases⟩ := State.handlerPool_cases hstep
    have hahead : handlerAhead s.remote s.pc := by rw [hpc]; rfl
    have hcurrent : s.remote.current = some sid := by
      have := h.ahead hahead
      rwa [hpc] at this
    obtain rfl := hisolated.obtained sid call todo id hpc
    obtain ⟨hnone, rfl⟩ | rfl | ⟨pool, status, rfl⟩ := hcases
    · obtain ⟨session, hlookup, hpool⟩ := h.pool haccounts.wellFormed hahead (by rw [hpc]; rfl)
      rw [hlookup, Option.bind_some, hpool] at hnone
      cases hnone
    · exact staysCurrent_of_not_ahead rfl (by rintro _ _ _ _ ⟨⟩; rfl)
    · refine ⟨fun _ => ?_, nofun⟩
      show (s.remote.modify id _).current = some id
      rw [Remote.current_modify, hcurrent]
  | pushDone =>
    obtain ⟨sid, -, rfl⟩ := State.pushDone_cases hstep
    exact staysCurrent_of_not_ahead rfl nofun
  | finishEvent i =>
    obtain ⟨-, caller, -, rfl⟩ := State.finishEvent_cases hstep
    exact h
  | cancelWaiting i =>
    obtain ⟨-, method, caller, -, rfl⟩ := State.cancelWaiting_cases hstep
    exact h
  | newSession =>
    obtain ⟨hpc, rfl⟩ := State.newSession_cases hstep
    exact staysCurrent_of_not_ahead (by simp [hpc, handlerAhead]) (by simp [hpc])
  | shutdownSession id =>
    obtain ⟨hpc, rfl⟩ := State.shutdownSession_cases hstep
    exact staysCurrent_of_not_ahead (by simp [hpc, handlerAhead]) (by simp [hpc])
  | disableSession =>
    obtain rfl := Option.some.inj hstep
    refine staysCurrent_of_not_ahead ?_ h.crashed
    rw [← hok rfl]
    exact handlerAhead_of_queues fun sid _ => Remote.keepsQueues_disableSession.queues sid
  | enableSession | giveBack i | shutdownServer =>
    obtain rfl := Option.some.inj hstep
    exact ⟨h.ahead, h.crashed⟩
  | borrow =>
    obtain ⟨id, -, rfl⟩ := Option.map_eq_some_iff.mp hstep
    exact h

theorem StaysCurrent.findsSession (h : StaysCurrent s.remote s.pc) (haccounts : Accounts services s)
    (hisolated : Isolated s.remote s.pc) : FindsSession s := by
  refine ⟨fun sid call todo hpc hnone => ?_, fun sid call todo id hpc hnone => ?_, h.crashed⟩
  · have hcurrent := h.ahead (by rw [hpc]; rfl)
    rw [hnone, hpc] at hcurrent
    cases hcurrent
  · obtain rfl := hisolated.obtained sid call todo id hpc
    obtain ⟨session, hlookup, hpool⟩ := h.pool haccounts.wellFormed (by rw [hpc]; rfl) (by rw [hpc]; rfl)
    rw [hlookup, Option.bind_some, hpool] at hnone
    cases hnone

/-- The session is not disabled while a handler is ahead. -/
def NotDisabledAhead (s : State μ ρ Pool) : Label ρ → Prop
  | .disableSession => handlerAhead s.remote s.pc = false
  | _ => True

instance (s : State μ ρ Pool) : ∀ l, Decidable (NotDisabledAhead s l)
  | .disableSession => inferInstanceAs (Decidable (_ = _))
  | .arrive .. | .compare | .pushCommand | .handlerCurrent | .handlerPool | .pushDone
  | .finishEvent _ | .newSession | .shutdownSession _ | .enableSession | .borrow | .giveBack _
  | .shutdownServer | .cancelWaiting _ => isTrue trivial

/-- In a run that never disables the session while a handler is ahead, every
handler finds a current session. -/
theorem findsSession_of_notDisabledAhead {ls : List (Label ρ)}
    (halong : (client services).Along NotDisabledAhead ls)
    (hrun : (client services).run ls = some s) : FindsSession s := by
  have h : (Accounts services s ∧ Isolated s.remote s.pc) ∧ StaysCurrent s.remote s.pc := by
    refine halong.invariant
      (I := fun s => (Accounts services s ∧ Isolated s.remote s.pc) ∧ StaysCurrent s.remote s.pc)
      ⟨⟨accounts_init, isolated_idle nofun⟩, staysCurrent_of_not_ahead rfl nofun⟩ ?_ hrun
    rintro s l t ⟨⟨haccounts, hisolated⟩, hstays⟩ hok hstep
    have haccounts' := haccounts.step hstep
    obtain ⟨u, hact, rfl⟩ := State.step_cases hstep
    refine ⟨⟨haccounts', (hisolated.act haccounts hact).release _⟩, ?_⟩
    refine (hstays.act haccounts hisolated ?_ hact).release fun sid hsid =>
      List.mem_append_left _ (Pc.session?_mem_pointers hsid)
    rintro rfl
    exact hok
  exact h.2.findsSession h.1.1 h.1.2

/-- The session is disabled after the handler is through. -/
theorem findsSession_heldUntilDisabled :
    ∃ s, (client countingServices).run heldUntilDisabled = some s ∧ FindsSession s := by
  have halong : (client countingServices).Along NotDisabledAhead heldUntilDisabled := by decide
  exact ⟨_, rfl, findsSession_of_notDisabledAhead halong rfl⟩

/-- The call is accepted, and then the session is disabled. -/
def disabledAfterComparison : List (Label Unit) :=
  [.enableSession, .newSession, .arrive 0 (some ⟨1, 0, 5⟩) (), .compare, .disableSession,
    .pushCommand, .handlerCurrent]

theorem not_findsSession_disabledAfterComparison :
    ∃ s, (client countingServices).run disabledAfterComparison = some s ∧ ¬ FindsSession s :=
  ⟨_, rfl, fun h => absurd (h.crashed .noSession 1 ⟨0, 'm', ⟨1, 0, 5⟩, ()⟩ [] rfl) nofun⟩

end ZenRemote.Client
