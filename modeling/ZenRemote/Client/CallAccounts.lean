-- SUMMARY: Every session-scoped call is answered once: where each caller is, counted over every run of the client.
import ZenRemote.Client.CompletionQueue

/-!
# Call accounts

A caller is at every moment in exactly one place: it waits for a call, or its
call is in the hands of the completion-queue thread, held in the queue of some
session, or finished. All steps move callers between these places.
-/

namespace ZenRemote.Client

open scoped List

universe u v w

variable {μ : Type u} {ρ : Type v} {Pool : Type w}

/-- The callers of a list of calls. -/
def callers (calls : List (Call μ ρ)) : List Nat := calls.map Call.caller

theorem callers_nil : callers ([] : List (Call μ ρ)) = [] := rfl

theorem callers_cons (call : Call μ ρ) (calls : List (Call μ ρ)) :
    callers (call :: calls) = [call.caller] ++ callers calls := rfl

namespace State

def finishedCallers (s : State μ ρ Pool) : List Nat := s.finished.map Prod.fst

theorem finishedCallers_finish (s : State μ ρ Pool) (cs : List Nat) (status : Status) :
    (s.finish cs status).finishedCallers = s.finishedCallers ++ cs := by
  simp [finishedCallers, finish, Function.comp_def]

end State

/-- The accounts of all callers, `x` being any of them. -/
structure Accounts (services : Services μ ρ Pool) (s : State μ ρ Pool) : Prop where
  owner : ∀ x, (s.waiting.map Prod.snd).count x + (callers s.pc.calls).count x +
    (callers s.remote.held).count x + s.finishedCallers.count x + s.cancelEvents.count x =
      (List.range s.nextCaller).count x
  arrived : ∀ x, s.arrived.count x = (callers s.pc.calls).count x +
    (callers s.remote.held).count x + s.finishedCallers.count x
  finishing : ∀ x, s.finishing.count x + s.finishEvents.count x = s.finishedCallers.count x
  deleted : ∀ x, s.deleted.count x = s.finishEvents.count x + s.cancelEvents.count x
  /-- A handler has run, or a command was cancelled, only once its call is finished or being handled. -/
  handled : ∀ x, s.handled.count x + s.cancelled.count x ≤
    s.finishedCallers.count x + (callers s.pc.handling).count x
  registered : s.shutdown = false → s.waiting.map Prod.fst ~ services.methods
  /-- A session has what its queues received until it is finished. -/
  received : ∀ x sid, (x, sid) ∈ s.received → x ∈ s.finishedCallers ∨
    x ∈ callers (s.remote.heldBy sid) ∨ (s.pc.session? = some sid ∧ x ∈ callers s.pc.calls)
  wellFormed : s.remote.WellFormed
  pointers : ∀ sid ∈ s.pc.pointers, sid ∈ s.remote.sessions

variable {services : Services μ ρ Pool} {s t : State μ ρ Pool}

theorem accounts_init : Accounts services (client services).init where
  owner := by
    intro x
    have hsnd : services.methods.zipIdx.map Prod.snd = List.range services.methods.length := by
      simp [List.zipIdx_map_snd, List.range_eq_range']
    simp only [client, hsnd]
    rfl
  arrived := fun _ => rfl
  finishing := fun _ => rfl
  deleted := fun _ => rfl
  handled := fun _ => le_refl _
  registered := fun _ => by simp [client, List.zipIdx_map_fst]
  received := nofun
  wellFormed := ⟨nofun, nofun⟩
  pointers := nofun

/-- Destroying sessions moves what they hold to the finished calls. -/
theorem Accounts.release (h : Accounts services s) : Accounts services s.release := by
  set out := s.remote.release (s.pc.pointers ++ s.borrowed) with hout
  have hrelease : s.release = { s with
      remote := out.1, cancelled := s.cancelled ++ callers out.2 }.finish (callers out.2)
        .sessionExpired := rfl
  have hheld : ∀ x, (callers out.2).count x + (callers out.1.held).count x =
      (callers s.remote.held).count x := by
    intro x
    have := ((s.remote.held_release (s.pc.pointers ++ s.borrowed)).map Call.caller).count_eq x
    rwa [List.map_append, List.count_append] at this
  have hkept : ∀ sid ∈ s.pc.pointers ++ s.borrowed, out.1.sessions.lookup sid =
      s.remote.sessions.lookup sid := by
    intro sid hsid
    rw [hout, Remote.release, AList.lookup_filterKeys, if_pos]
    rw [Remote.refersTo, List.contains_iff_mem.mpr hsid, Bool.or_true]
  have hfinished : s.release.finishedCallers = s.finishedCallers ++ callers out.2 :=
    State.finishedCallers_finish ..
  refine { h with
    owner := fun x => ?_
    arrived := fun x => ?_
    finishing := fun x => ?_
    handled := fun x => ?_
    received := fun x sid hmem => ?_
    wellFormed := h.wellFormed.release _
    pointers := fun sid hsid => ?_ }
  · have := h.owner x
    have := hheld x
    rw [hfinished, List.count_append]
    simp only [hrelease, State.finish]
    omega
  · have := h.arrived x
    have := hheld x
    rw [hfinished, List.count_append]
    simp only [hrelease, State.finish]
    omega
  · have := h.finishing x
    rw [hfinished, List.count_append]
    simp only [hrelease, State.finish, List.count_append]
    omega
  · have := h.handled x
    rw [hfinished, List.count_append]
    simp only [hrelease, State.finish, List.count_append]
    omega
  · rw [hfinished, List.mem_append]
    rcases h.received x sid hmem with hx | hx | hx
    · exact .inl (.inl hx)
    · by_cases hrefers : s.remote.refersTo (s.pc.pointers ++ s.borrowed) sid
      · refine .inr (.inl ?_)
        show x ∈ callers ((out.1.queuesOf sid).destroy)
        rwa [hout, Remote.queuesOf_release, if_pos hrefers]
      · refine .inl (.inr ?_)
        obtain ⟨call, hcall, rfl⟩ := List.mem_map.mp hx
        exact List.mem_map_of_mem (Remote.mem_release hrefers hcall)
    · exact .inr (.inr hx)
  · have := h.pointers sid hsid
    rw [← AList.lookup_isSome] at this ⊢
    show (out.1.sessions.lookup sid).isSome
    rwa [hkept sid (List.mem_append_left _ hsid)]

/-- A change of the sessions that leaves all queues alone. -/
theorem Accounts.remote (h : Accounts services s) {r : Remote (Call μ ρ) Pool}
    (hheld : r.held ~ s.remote.held) (hwellFormed : r.WellFormed)
    (hkept : s.remote.KeepsQueues r) :
    Accounts services { s with remote := r } := by
  have hcount : ∀ x, (callers r.held).count x = (callers s.remote.held).count x :=
    fun x => (hheld.map _).count_eq x
  refine { h with
    owner := fun x => ?_
    arrived := fun x => ?_
    received := fun x sid hmem => ?_
    wellFormed := hwellFormed
    pointers := fun sid hsid => ?_ }
  · simp only [hcount]
    exact h.owner x
  · simp only [hcount]
    exact h.arrived x
  · have hbefore := h.received x sid hmem
    rwa [Remote.heldBy, ← hkept.queues sid] at hbefore
  · exact hkept.mem sid (h.pointers sid hsid)

-- ---------------------------------------------------------------------------
-- Moves of the completion-queue thread
-- ---------------------------------------------------------------------------

/-- The `i`-th waiting caller gets a call, and its successor waits in its place. -/
theorem Accounts.takeCall (h : Accounts services s) (hpc : s.pc = .idle) {i : Nat} {method : μ}
    (call : Call μ ρ) (hi : s.waiting[i]? = some (method, call.caller)) :
    Accounts services { s with
      waiting := s.waiting.eraseIdx i ++ [(method, s.nextCaller)]
      nextCaller := s.nextCaller + 1
      arrived := s.arrived ++ [call.caller]
      pc := .compare call } := by
  obtain ⟨hlt, hget⟩ := List.getElem?_eq_some_iff.mp hi
  have hperm : s.waiting ~ (method, call.caller) :: s.waiting.eraseIdx i := by
    rw [← hget]
    exact (List.getElem_cons_eraseIdx_perm hlt).symm
  refine { h with
    owner := fun x => ?_
    arrived := fun x => ?_
    handled := fun x => ?_
    registered := fun hshutdown => ?_
    received := fun x sid hmem => ?_
    pointers := nofun }
  · have hbefore := h.owner x
    have hwaiting : (s.waiting.map Prod.snd).count x =
        [call.caller].count x + ((s.waiting.eraseIdx i).map Prod.snd).count x := by
      rw [(hperm.map Prod.snd).count_eq x, List.map_cons, ← List.singleton_append, List.count_append]
    simp only [hpc, Pc.calls, callers_nil, List.count_nil] at hbefore
    simp only [List.range_succ, Pc.calls, callers_cons, callers_nil, List.append_nil, List.map_append, List.map_cons,
      List.map_nil, List.count_append]
    show _ + s.finishedCallers.count x + _ = _
    omega
  · have hbefore := h.arrived x
    simp only [hpc, Pc.calls, callers_nil, List.count_nil] at hbefore
    simp only [Pc.calls, callers_cons, callers_nil, List.append_nil, List.count_append]
    show _ = _ + s.finishedCallers.count x
    omega
  · have hbefore := h.handled x
    rwa [hpc] at hbefore
  · rw [List.map_append]
    exact (List.perm_append_singleton _ _).trans
      ((hperm.map Prod.fst).symm.trans (h.registered hshutdown))
  · have hbefore := h.received x sid hmem
    rw [hpc] at hbefore
    exact hbefore.imp_right (Or.imp_right nofun)

/-- The thread moves on with the same calls in its hands, or has invoked a handler. -/
theorem Accounts.setPc (h : Accounts services s) (pc : Pc μ ρ) (handled : List Nat)
    (hcalls : pc.calls = s.pc.calls)
    (hhandling : ∀ x, handled.count x + (callers s.pc.handling).count x =
      (callers pc.handling).count x)
    (hsession : ∀ sid, s.pc.session? = some sid → pc.calls = [] ∨ pc.session? = some sid)
    (hpointers : ∀ sid ∈ pc.pointers, sid ∈ s.remote.sessions) :
    Accounts services { s with pc, handled := s.handled ++ handled } := by
  refine { h with
    owner := fun x => ?_
    arrived := fun x => ?_
    handled := fun x => ?_
    received := fun x sid hmem => ?_
    pointers := hpointers }
  · rw [hcalls]
    exact h.owner x
  · rw [hcalls]
    exact h.arrived x
  · have hbefore := h.handled x
    have := hhandling x
    rw [List.count_append]
    show s.handled.count x + handled.count x + s.cancelled.count x ≤
      s.finishedCallers.count x + (callers pc.handling).count x
    omega
  · refine (h.received x sid hmem).imp_right (Or.imp_right ?_)
    rintro ⟨hsid, hx⟩
    rcases hsession sid hsid with hnil | hsid'
    · rw [← hcalls, hnil] at hx
      cases hx
    · exact ⟨hsid', hcalls.symm ▸ hx⟩

/-- The first call in the hands of the thread is finished. -/
theorem Accounts.finishCall (h : Accounts services s) (pc : Pc μ ρ) {call : Call μ ρ}
    (status : Status) (hcalls : s.pc.calls = call :: pc.calls)
    (hhandling : ∀ x, (callers s.pc.handling).count x ≤
      [call.caller].count x + (callers pc.handling).count x)
    (hsession : ∀ sid, s.pc.session? = some sid → pc.calls = [] ∨ pc.session? = some sid)
    (hpointers : pc.pointers ⊆ s.pc.pointers) :
    Accounts services ({ s with pc }.finish [call.caller] status) := by
  have hfinished : ({ s with pc }.finish [call.caller] status).finishedCallers =
      s.finishedCallers ++ [call.caller] := State.finishedCallers_finish ..
  refine { h with
    owner := fun x => ?_
    arrived := fun x => ?_
    finishing := fun x => ?_
    handled := fun x => ?_
    received := fun x sid hmem => ?_
    pointers := fun sid hsid => h.pointers sid (hpointers hsid) }
  · have hbefore := h.owner x
    rw [hcalls, callers_cons, List.count_append] at hbefore
    rw [hfinished, List.count_append]
    simp only [State.finish]
    omega
  · have hbefore := h.arrived x
    rw [hcalls, callers_cons, List.count_append] at hbefore
    rw [hfinished, List.count_append]
    simp only [State.finish]
    omega
  · have hbefore := h.finishing x
    rw [hfinished, List.count_append]
    simp only [State.finish, List.count_append]
    omega
  · have hbefore := h.handled x
    have := hhandling x
    rw [hfinished, List.count_append]
    simp only [State.finish]
    omega
  · rw [hfinished, List.mem_append]
    rcases h.received x sid hmem with hx | hx | ⟨hsid, hx⟩
    · exact .inl (.inl hx)
    · exact .inr (.inl hx)
    · rw [hcalls, callers_cons, List.mem_append] at hx
      rcases hx with hx | hx
      · exact .inl (.inr hx)
      · rcases hsession sid hsid with hnil | hsid'
        · rw [hnil] at hx
          cases hx
        · exact .inr (.inr ⟨hsid', hx⟩)

theorem Accounts.arrive (h : Accounts services s) {i : Nat} {context : Option RequestContext}
    {request : ρ} (hstep : s.arrive i context request = some t) : Accounts services t := by
  obtain ⟨hpc, method, caller, hi, ⟨-, rfl⟩ | ⟨c, -, rfl⟩⟩ := State.arrive_cases hstep
  · -- as if the call went through the hands of the thread with some context
    have htaken := h.takeCall hpc ⟨caller, method, ⟨0, 0, 0⟩, request⟩ hi
    have hfinish := htaken.finishCall .idle .invalidContext rfl (by simp [Pc.handling, callers])
      nofun (List.nil_subset _)
    rwa [← hpc] at hfinish
  · exact h.takeCall hpc ⟨caller, method, c, request⟩ hi

theorem Accounts.compare (h : Accounts services s) (hstep : s.compare = some t) :
    Accounts services t := by
  obtain ⟨call, hpc, ⟨session, hcurrent, -, rfl⟩ | ⟨-, rfl⟩⟩ := State.compare_cases hstep
  · have hlookup : s.remote.sessions.lookup session.id = some session := by
      obtain ⟨id, -, hlookup⟩ := Option.bind_eq_some_iff.mp hcurrent
      rwa [(h.wellFormed.ids id session hlookup).1]
    have hpush := h.setPc (.push call session.id) [] (by rw [hpc]; rfl)
      (by simp [hpc, Pc.handling]) (by simp [hpc, Pc.session?])
      (by simpa [Pc.pointers, ← AList.lookup_isSome] using by rw [hlookup]; rfl)
    rwa [List.append_nil] at hpush
  · exact h.finishCall .idle .sessionExpired (by rw [hpc]; rfl) (by simp [hpc, Pc.handling, callers])
      (by simp [hpc, Pc.session?]) (List.nil_subset _)

/-- A command moves from the hands of the thread to the queue, and what the push
executes moves from there to the hands of the thread. -/
theorem Accounts.pushCommand (h : Accounts services s) (hstep : s.pushCommand = some t) :
    Accounts services t := by
  obtain ⟨call, sid, session, hpc, hlookup, rfl⟩ := State.pushCommand_cases hstep
  set push := fun session : Session (Call μ ρ) Pool =>
    session.pushCommand call.context.serial call.context.channel call with hpush
  set todo := (push session).2.map Prod.snd with htodo
  set remote := s.remote.modify sid fun session => (push session).1 with hremote
  have hsession : todo ++ (push session).1.destroy ~ [call] ++ session.destroy :=
    CommandQueues.pushCommand_perm session.commandQueues _ _ call
  have hcount : ∀ x, (callers todo).count x + (callers remote.held).count x =
      [call.caller].count x + (callers s.remote.held).count x := by
    intro x
    have := ((Remote.held_modify (f := fun session => (push session).1) hlookup todo [call] hsession).map
      Call.caller).count_eq x
    rwa [List.map_append, List.count_append, List.map_append, List.count_append] at this
  have hqueues : ∀ sid', remote.queuesOf sid' =
      if sid' = sid then (push session).1.commandQueues else s.remote.queuesOf sid' := by
    intro sid'
    rw [hremote, Remote.queuesOf_modify, hlookup]
    rfl
  have hbefore : s.remote.heldBy sid = session.destroy := Remote.heldBy_of_lookup hlookup
  -- what the session had, or is just receiving, it has or executes
  have hreceived : ∀ x, x = call.caller ∨ x ∈ callers session.destroy →
      x ∈ callers (push session).1.destroy ∨ x ∈ callers todo := by
    intro x hx
    have hmem := (hsession.map Call.caller).mem_iff (a := x)
    rw [List.map_append, List.map_append, List.mem_append, List.mem_append, List.map_singleton,
      List.mem_singleton] at hmem
    exact (hmem.mpr hx).symm
  refine { h with
    owner := fun x => ?_
    arrived := fun x => ?_
    handled := fun x => ?_
    received := fun x sid' hmem => ?_
    wellFormed := h.wellFormed.modify sid (fun _ => rfl) fun _ _ hactive => hactive
    pointers := fun sid' hsid' => ?_ }
  · have hbefore := h.owner x
    simp only [hpc, Pc.calls, callers_cons, callers_nil, List.append_nil] at hbefore
    have := hcount x
    show (s.waiting.map Prod.snd).count x + (callers todo).count x + (callers remote.held).count x +
      s.finishedCallers.count x + s.cancelEvents.count x = (List.range s.nextCaller).count x
    omega
  · have hbefore := h.arrived x
    simp only [hpc, Pc.calls, callers_cons, callers_nil, List.append_nil] at hbefore
    have := hcount x
    show s.arrived.count x =
      (callers todo).count x + (callers remote.held).count x + s.finishedCallers.count x
    omega
  · have hbefore := h.handled x
    rwa [hpc] at hbefore
  · show x ∈ s.finishedCallers ∨ x ∈ callers (remote.queuesOf sid').destroy ∨
      (some sid = some sid' ∧ x ∈ callers todo)
    have hmem' : (x, sid') ∈ s.received ∨ (x = call.caller ∧ sid' = sid) := by
      simpa using hmem
    rw [hqueues]
    by_cases hsid : sid' = sid
    · subst hsid
      rw [if_pos rfl]
      have hcase : x ∈ s.finishedCallers ∨ x = call.caller ∨ x ∈ callers session.destroy := by
        rcases hmem' with hmem' | ⟨rfl, -⟩
        · rcases h.received x sid' hmem' with hx | hx | ⟨-, hx⟩
          · exact .inl hx
          · exact .inr (.inr (hbefore ▸ hx))
          · rw [hpc, Pc.calls, callers_cons] at hx
            exact .inr (.inl (by simpa [callers_nil] using hx))
        · exact .inr (.inl rfl)
      exact hcase.imp_right fun hx => (hreceived x hx).imp_right fun hx => ⟨rfl, hx⟩
    · rw [if_neg hsid]
      rcases h.received x sid' (hmem'.resolve_right fun heq => hsid heq.2) with hx | hx | ⟨hsid', -⟩
      · exact .inl hx
      · exact .inr (.inl hx)
      · rw [hpc] at hsid'
        exact absurd (Option.some.inj hsid').symm hsid
  · obtain rfl : sid' = sid := by simpa [Pc.pointers] using hsid'
    refine AList.lookup_isSome.mp ?_
    show (remote.sessions.lookup sid').isSome
    rw [hremote, Remote.lookup_modify, if_pos rfl, hlookup]
    rfl

theorem Accounts.handlerCurrent (h : Accounts services s) (hstep : s.handlerCurrent = some t) :
    Accounts services t := by
  obtain ⟨sid, call, todo, hpc, ⟨id, hcurrent, rfl⟩ | ⟨-, rfl⟩⟩ := State.handlerCurrent_cases hstep
  · have hpointer : sid ∈ s.remote.sessions := h.pointers sid (by simp [hpc, Pc.pointers])
    obtain ⟨session, hlookup, -⟩ := h.wellFormed.current id hcurrent
    have hid : id ∈ s.remote.sessions := AList.lookup_isSome.mp (by rw [hlookup]; rfl)
    exact h.setPc (.handler sid call todo id) [call.caller] (by rw [hpc]; rfl)
      (by simp [hpc, Pc.handling, callers]) (by simp [hpc, Pc.session?])
      (by simp [Pc.pointers, hpointer, hid])
  · exact h.setPc (.crashed .noSession sid call todo) [call.caller] (by rw [hpc]; rfl)
      (by simp [hpc, Pc.handling, callers]) (by simp [hpc, Pc.session?])
      (by simpa [Pc.pointers] using h.pointers sid (by simp [hpc, Pc.pointers]))

theorem Accounts.handlerPool (h : Accounts services s) (hstep : s.handlerPool services = some t) :
    Accounts services t := by
  obtain ⟨sid, call, todo, id, hpc, hcases⟩ := State.handlerPool_cases hstep
  have hcrashed : ∀ crash, Accounts services { s with pc := .crashed crash sid call todo } := by
    intro crash
    have := h.setPc (.crashed crash sid call todo) [] (by rw [hpc]; rfl)
      (by simp [hpc, Pc.handling]) (by simp [hpc, Pc.session?])
      (by simpa [Pc.pointers] using h.pointers sid (by simp [hpc, Pc.pointers]))
    rwa [List.append_nil] at this
  obtain ⟨-, rfl⟩ | rfl | ⟨pool, status, rfl⟩ := hcases
  · exact hcrashed .noPool
  · exact hcrashed .handler
  · have hremote := h.remote (r := s.remote.modify id fun session => session.setResources pool)
      (Remote.held_modify_of_queues id fun _ => rfl)
      (h.wellFormed.modify id (fun _ => rfl) fun _ _ hactive => hactive)
      (Remote.keepsQueues_modify id fun _ => rfl)
    exact hremote.finishCall (.running sid todo) status (by rw [hpc]; rfl)
      (by simp [hpc, Pc.handling, callers]) (by simp [hpc, Pc.session?])
      (by simp [hpc, Pc.pointers])

theorem Accounts.pushDone (h : Accounts services s) (hstep : s.pushDone = some t) :
    Accounts services t := by
  obtain ⟨sid, hpc, rfl⟩ := State.pushDone_cases hstep
  have hidle := h.setPc .idle [] (by rw [hpc]; rfl) (by simp [hpc, Pc.handling])
    (fun _ _ => .inl rfl) nofun
  rwa [List.append_nil] at hidle

theorem Accounts.finishEvent (h : Accounts services s) {i : Nat} (hstep : s.finishEvent i = some t) :
    Accounts services t := by
  obtain ⟨-, caller, hi, rfl⟩ := State.finishEvent_cases hstep
  obtain ⟨hlt, rfl⟩ := List.getElem?_eq_some_iff.mp hi
  refine { h with finishing := fun x => ?_, deleted := fun x => ?_ }
  · have hbefore := h.finishing x
    rw [← (List.getElem_cons_eraseIdx_perm hlt).count_eq x, ← List.singleton_append,
      List.count_append] at hbefore
    show (s.finishing.eraseIdx i).count x + (s.finishEvents ++ [s.finishing[i]]).count x =
      s.finishedCallers.count x
    rw [List.count_append]
    omega
  · have hbefore := h.deleted x
    simp only [List.count_append]
    omega

theorem Accounts.cancelWaiting (h : Accounts services s) {i : Nat}
    (hstep : s.cancelWaiting i = some t) : Accounts services t := by
  obtain ⟨hshutdown, method, caller, hi, rfl⟩ := State.cancelWaiting_cases hstep
  obtain ⟨hlt, hget⟩ := List.getElem?_eq_some_iff.mp hi
  have hwaiting : ∀ x, (s.waiting.map Prod.snd).count x =
      [caller].count x + ((s.waiting.eraseIdx i).map Prod.snd).count x := by
    intro x
    rw [← ((List.getElem_cons_eraseIdx_perm hlt).map Prod.snd).count_eq x, List.map_cons,
      ← List.singleton_append, List.count_append, hget]
  refine { h with
    owner := fun x => ?_
    deleted := fun x => ?_
    registered := fun hrunning => ?_ }
  · have hbefore := h.owner x
    have := hwaiting x
    show ((s.waiting.eraseIdx i).map Prod.snd).count x + (callers s.pc.calls).count x +
      (callers s.remote.held).count x + s.finishedCallers.count x +
      (s.cancelEvents ++ [caller]).count x = (List.range s.nextCaller).count x
    rw [List.count_append]
    omega
  · have hbefore := h.deleted x
    simp only [List.count_append]
    omega
  · exact absurd (hshutdown.symm.trans hrunning) nofun

theorem Accounts.act (h : Accounts services s) {l : Label ρ} (hstep : s.act services l = some t) :
    Accounts services t := by
  cases l with
  | arrive i context request => exact h.arrive hstep
  | compare => exact h.compare hstep
  | pushCommand => exact h.pushCommand hstep
  | handlerCurrent => exact h.handlerCurrent hstep
  | handlerPool => exact h.handlerPool hstep
  | pushDone => exact h.pushDone hstep
  | finishEvent i => exact h.finishEvent hstep
  | cancelWaiting i => exact h.cancelWaiting hstep
  | newSession =>
    obtain ⟨-, rfl⟩ := State.newSession_cases hstep
    have hfresh := h.wellFormed.fresh
    exact h.remote (Remote.held_resetSession _ hfresh) (h.wellFormed.resetSession _)
      (Remote.keepsQueues_resetSession _ hfresh)
  | shutdownSession id =>
    obtain ⟨-, rfl⟩ := State.shutdownSession_cases hstep
    exact h.remote (Remote.held_clearSession id) (h.wellFormed.clearSession id)
      (Remote.keepsQueues_clearSession id)
  | enableSession =>
    exact Option.some.inj hstep ▸ h.remote (.refl _) h.wellFormed.enableSession
      ⟨fun _ hmem => hmem, fun _ => rfl⟩
  | disableSession =>
    exact Option.some.inj hstep ▸ h.remote Remote.held_disableSession h.wellFormed.disableSession
      Remote.keepsQueues_disableSession
  | borrow =>
    obtain ⟨id, -, rfl⟩ := Option.map_eq_some_iff.mp hstep
    exact { h with }
  | giveBack i => exact Option.some.inj hstep ▸ { h with }
  | shutdownServer =>
    exact Option.some.inj hstep ▸ { h with registered := fun hrunning => absurd hrunning nofun }

theorem Accounts.step (h : Accounts services s) {l : Label ρ} (hstep : s.step services l = some t) :
    Accounts services t := by
  obtain ⟨u, hact, rfl⟩ := State.step_cases hstep
  exact (h.act hact).release

theorem accounts_run {ls : List (Label ρ)} (hrun : (client services).run ls = some s) :
    Accounts services s :=
  Machine.run_invariant accounts_init (fun _ _ _ h hstep => h.step hstep) hrun

-- ---------------------------------------------------------------------------
-- Answered once
-- ---------------------------------------------------------------------------

/-- What holds of caller `x` in every state: at most one handler run and one
`Finish`, no handler run after a cancellation, a `Finish` by the time its session
is destroyed, and one deletion, with the event of the `Finish`. -/
structure AnsweredOnce (s : State μ ρ Pool) (x : Nat) : Prop where
  handled : s.handled.count x ≤ 1
  finished : s.finishedCallers.count x ≤ 1
  cancelled : x ∈ s.cancelled → x ∉ s.handled
  /-- No route loses an arrived call: the thread has it, a queue holds it, or it is finished. -/
  located : x ∈ s.arrived → (callers s.pc.calls).count x + (callers s.remote.held).count x +
    s.finishedCallers.count x = 1
  destroyed : ∀ sid, (x, sid) ∈ s.received → sid ∉ s.remote.sessions →
    s.finishedCallers.count x = 1
  deleted : x ∈ s.arrived → s.deleted.count x = s.finishEvents.count x
  /-- The event of each `Finish` is still to come or has been taken. -/
  finishEvents : s.finishing.count x + s.finishEvents.count x = s.finishedCallers.count x
  /-- With nothing left to do for the thread, an arrived call that no queue holds
  has been finished and its caller deleted. -/
  settled : x ∈ s.arrived → x ∉ callers s.pc.calls → x ∉ callers s.remote.held → x ∉ s.finishing →
    s.finishedCallers.count x = 1 ∧ s.deleted.count x = 1

theorem count_range_le_one (n x : Nat) : (List.range n).count x ≤ 1 :=
  List.nodup_iff_count_le_one.mp List.nodup_range x

theorem Pc.count_handling_le (pc : Pc μ ρ) (x : Nat) :
    (callers pc.handling).count x ≤ (callers pc.calls).count x := by
  cases pc with
  | handler sid call todo obtained | crashed crash sid call todo =>
    simp only [Pc.handling, Pc.calls, callers_cons, callers_nil, List.append_nil, List.count_append]
    omega
  | _ => exact Nat.zero_le _

theorem Pc.session?_mem_pointers {pc : Pc μ ρ} {sid : Nat} (h : pc.session? = some sid) :
    sid ∈ pc.pointers := by
  cases pc with
  | push call sid' | running sid' todo | handler sid' call todo obtained
  | crashed crash sid' call todo =>
    obtain rfl := Option.some.inj h
    exact List.mem_cons_self ..
  | idle | compare call => cases h

theorem Accounts.answeredOnce (h : Accounts services s) (x : Nat) : AnsweredOnce s x := by
  have hone := count_range_le_one s.nextCaller x
  have howner := h.owner x
  have harrived := h.arrived x
  have hfinishing := h.finishing x
  have hdeleted := h.deleted x
  have hhandled := h.handled x
  have hhandling := s.pc.count_handling_le x
  have hlocated : x ∈ s.arrived → (callers s.pc.calls).count x + (callers s.remote.held).count x +
      s.finishedCallers.count x = 1 := by
    intro hmem
    have := List.count_pos_iff.mpr hmem
    omega
  refine ⟨by omega, by omega, fun hcancelled hmem => ?_, hlocated,
    fun sid hreceived hdestroyed => ?_, fun hmem => ?_, by omega, fun hmem hcalls hheld hdone => ?_⟩
  · have hc := List.count_pos_iff.mpr hcancelled
    have hh := List.count_pos_iff.mpr hmem
    omega
  · have hmem : x ∈ s.finishedCallers := by
      rcases h.received x sid hreceived with hx | hx | ⟨hsid, -⟩
      · exact hx
      · rw [Remote.heldBy, Remote.queuesOf, AList.lookup_eq_none.mpr hdestroyed] at hx
        cases hx
      · exact absurd (h.pointers sid (Pc.session?_mem_pointers hsid)) hdestroyed
    have := List.count_pos_iff.mpr hmem
    omega
  · have := List.count_pos_iff.mpr hmem
    omega
  · have := hlocated hmem
    have := List.count_eq_zero.mpr hcalls
    have := List.count_eq_zero.mpr hheld
    have := List.count_eq_zero.mpr hdone
    omega

/-- The steps of `Proceed` once a caller has its call, the event of its `Finish` included. -/
def Label.isProceed : Label ρ → Prop
  | .compare | .pushCommand | .handlerCurrent | .handlerPool | .pushDone | .finishEvent _ => True
  | _ => False

/-- Unless a handler has crashed, the thread can go on while it has a call in its
hands or the event of a `Finish` to take. -/
theorem Accounts.goesOn (h : Accounts services s)
    (hcrashed : ∀ crash sid call todo, s.pc ≠ .crashed crash sid call todo)
    (hwork : s.pc ≠ .idle ∨ s.finishing ≠ []) :
    ∃ l t, Label.isProceed l ∧ s.step services l = some t := by
  suffices hact : ∃ l, Label.isProceed l ∧ (s.act services l).isSome by
    obtain ⟨l, hproceed, hact⟩ := hact
    obtain ⟨t, ht⟩ := Option.isSome_iff_exists.mp hact
    refine ⟨l, t.release, hproceed, ?_⟩
    rw [State.step_eq hcrashed, ht, Option.map_some]
  cases hpc : s.pc with
  | idle =>
    have hpos : 0 < s.finishing.length :=
      List.length_pos_of_ne_nil (hwork.resolve_left (not_not_intro hpc))
    exact ⟨.finishEvent 0, trivial, by simp [State.act, State.finishEvent, hpc, hpos]⟩
  | compare call =>
    obtain ⟨t, ht⟩ := State.compare_some hpc
    exact ⟨.compare, trivial, Option.isSome_of_eq_some ht⟩
  | push call sid =>
    have hpointer := AList.lookup_isSome.mpr (h.pointers sid (by simp [hpc, Pc.pointers]))
    exact ⟨.pushCommand, trivial, by simp [State.act, State.pushCommand, hpc, hpointer]⟩
  | running sid todo =>
    cases todo with
    | nil => exact ⟨.pushDone, trivial, by simp [State.act, State.pushDone, hpc]⟩
    | cons call todo => exact ⟨.handlerCurrent, trivial, by simp [State.act, State.handlerCurrent, hpc]⟩
  | handler sid call todo obtained =>
    obtain ⟨t, ht⟩ := State.handlerPool_some services hpc
    exact ⟨.handlerPool, trivial, Option.isSome_of_eq_some ht⟩
  | crashed crash sid call todo => exact absurd hpc (hcrashed crash sid call todo)

/-- Every call is answered once: each arrived call is accounted for, the thread
goes on while there is something left to answer or to delete, and until the server
is shut down one caller waits for the next call of each method. -/
theorem answeredOnce_run {ls : List (Label ρ)} (hrun : (client services).run ls = some s) :
    (∀ x, AnsweredOnce s x) ∧
      ((∀ crash sid call todo, s.pc ≠ .crashed crash sid call todo) →
        s.pc ≠ .idle ∨ s.finishing ≠ [] → ∃ l t, Label.isProceed l ∧ s.step services l = some t) ∧
      (s.shutdown = false → ∀ method ∈ services.methods, ∃! x, (method, x) ∈ s.waiting) := by
  have h := accounts_run hrun
  refine ⟨h.answeredOnce, h.goesOn, fun hrunning method hmethod => ?_⟩
  have hregistered := h.registered hrunning
  have hnodup := hregistered.nodup_iff.mpr services.nodup
  obtain ⟨⟨method', x⟩, hx, rfl⟩ := List.mem_map.mp (hregistered.mem_iff.mpr hmethod)
  refine ⟨x, hx, fun y hy => ?_⟩
  exact congrArg Prod.snd (List.inj_on_of_nodup_map hnodup hy hx rfl)

/-- Two methods that count their calls in the pool. -/
def countingServices : Services Char Unit Nat where
  methods := ['m', 'n']
  nodup := by decide
  handler := fun _ _ pool => some (pool + 1, ⟨.ok, ""⟩)
  pool := 0

/-- The call of caller 0 runs, that of its successor waits for a missing serial
until the session is disabled. -/
def heldUntilDisabled : List (Label Unit) :=
  [.enableSession, .newSession, .arrive 0 (some ⟨1, 0, 5⟩) (), .compare, .pushCommand,
    .handlerCurrent, .handlerPool, .pushDone, .arrive 1 (some ⟨1, 2, 5⟩) (), .compare, .pushCommand,
    .pushDone, .finishEvent 0, .disableSession]

theorem answeredOnce_heldUntilDisabled :
    ∃ s, (client countingServices).run heldUntilDisabled = some s ∧ (∀ x, AnsweredOnce s x) ∧
      s.handled = [0] ∧ s.deleted = [0] ∧ s.cancelled = [2] ∧ s.finishing = [2] := by
  have hrun : (client countingServices).run heldUntilDisabled = some _ := rfl
  exact ⟨_, hrun, (answeredOnce_run hrun).1, rfl, rfl, rfl, rfl⟩

end ZenRemote.Client
