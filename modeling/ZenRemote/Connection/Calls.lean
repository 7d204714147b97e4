-- SUMMARY: Keepalive calls across the network: a call is answered only when the session of its server is over.
import ZenRemote.Connection

/-!
# Keepalive calls across the network

A keepalive call is answered once its session is over, which is how a server learns of it.
The calls are followed from the server session that starts one to the response, through
the callers of the client.
-/

namespace ZenRemote

open Client (Status)

universe u v

namespace Connection

variable {α : Type u} {Pool : Type v} {pool : Pool} {s s' : State α Pool} {p q id : Nat} {x y : Session}
  {messages : List Message} {c c' : Client.Keepalive.State α Pool} {l : Client.Keepalive.Label Pool}

-- ---------------------------------------------------------------------------
-- The calls of the client
-- ---------------------------------------------------------------------------

section Client

open Client.Keepalive (Answered)

/-- What is known of the keepalive calls in every run, also when a session is replaced while a
call is attached to it. -/
structure Calls (c : Client.Keepalive.State α Pool) : Prop where
  wellFormed : c.remote.WellFormed
  held : ∀ {sid session caller}, c.remote.sessions.lookup sid = some session →
    session.keepaliveCaller = some caller → (caller, sid) ∈ c.attached
  attaching : ∀ {caller sid}, c.attaching = some (caller, sid) →
    caller < c.arrived ∧ ∀ sid, (caller, sid) ∉ c.attached
  attached : ∀ {caller sid}, (caller, sid) ∈ c.attached → caller < c.arrived
  answered : ∀ caller, Answered c caller → caller < c.arrived

theorem calls_init : Calls ({} : Client.Keepalive.State α Pool) where
  wellFormed := Client.Remote.controlled_init.toWellFormed
  held h := by cases h
  attaching h := by cases h
  attached h := by cases h
  answered _ h := by cases h

/-- The client goes on with other sessions, and finishes calls that were attached. -/
theorem Calls.apply (h : Calls c) {out : Client.Remote α Pool × List Nat} (hwellFormed : out.1.WellFormed)
    (hheld : ∀ {sid session caller}, out.1.sessions.lookup sid = some session →
      session.keepaliveCaller = some caller → (caller, sid) ∈ c.attached)
    (hcallers : ∀ caller ∈ out.2, ∃ sid, (caller, sid) ∈ c.attached) : Calls (c.apply out) where
  wellFormed := hwellFormed
  held := hheld
  attaching := h.attaching
  attached := h.attached
  answered caller hanswered := by
    rcases Client.Keepalive.answered_finish.mp hanswered with hold | hnew
    · exact h.answered caller hold
    · obtain ⟨sid, hattached⟩ := hcallers caller hnew
      exact h.attached hattached

theorem Calls.of_eq (h : Calls c) {r : Client.Remote α Pool} {life : Client.Keepalive.Life}
    (hwellFormed : r.WellFormed) (hsessions : r.sessions = c.remote.sessions) :
    Calls { c with remote := r, life := life } :=
  ⟨hwellFormed, fun hsession => h.held (hsessions ▸ hsession), h.attaching, h.attached, h.answered⟩

theorem Calls.takeAway (h : Calls c) : Calls (c.apply c.remote.takeAway) := by
  have hwellFormed := h.wellFormed.takeAway
  cases hcurrent : c.remote.current with
  | none =>
    have hsame : c.remote.takeAway = (c.remote, []) := by
      unfold Client.Remote.takeAway
      rw [hcurrent]
    rw [hsame]
    exact h.apply h.wellFormed h.held fun caller hcaller => absurd hcaller List.not_mem_nil
  | some id =>
    obtain ⟨current, hlookup, -⟩ := h.wellFormed.current id hcurrent
    rw [Client.Keepalive.takeAway_of_current hcurrent hlookup] at hwellFormed ⊢
    refine h.apply hwellFormed ?_ fun caller hcaller => ⟨id, h.held hlookup (Option.mem_toList.mp hcaller)⟩
    intro sid session caller hsession hcaller
    rcases Client.Remote.lookup_modify_cases hlookup hsession with ⟨-, rfl⟩ | ⟨-, hold⟩
    · cases hcaller
    · exact h.held hold hcaller

theorem Calls.clearSession (h : Calls c) (id : Nat) : Calls (c.apply (c.remote.clearSession id)) := by
  have hout : Calls (c.apply (if c.remote.current = some id then c.remote.takeAway
      else (c.remote, []))) := by
    split
    · exact h.takeAway
    · exact h.apply h.wellFormed h.held fun caller hcaller => absurd hcaller List.not_mem_nil
  exact hout.of_eq (h.wellFormed.clearSession id) rfl

theorem Calls.newSession (h : Calls c) (resources : Pool) :
    Calls { c with remote := (c.remote.resetSession resources).1 } := by
  refine ⟨h.wellFormed.resetSession resources, ?_, h.attaching, h.attached, h.answered⟩
  intro sid session caller hsession hcaller
  unfold Client.Remote.resetSession at hsession
  split at hsession
  · by_cases hsid : sid = c.remote.nextId
    · subst hsid
      rw [AList.lookup_insert] at hsession
      cases hsession
      cases hcaller
    · rw [AList.lookup_insert_ne hsid] at hsession
      exact h.held hsession hcaller
  · exact h.held hsession hcaller

/-- The next call is refused, or its caller has found its session current. -/
theorem Calls.keepalive (h : Calls c) (hidle : c.attaching = none) (id : Nat) : Calls (c.keepalive id) := by
  have hrefused : Calls ({ c with arrived := c.arrived + 1 }.finish [c.arrived] .keepaliveRefused) := by
    refine ⟨h.wellFormed, h.held, fun hattaching => ?_, fun hattached => (h.attached hattached).trans
      (Nat.lt_succ_self _), fun caller hanswered => ?_⟩
    · cases hidle.symm.trans hattaching
    · rcases Client.Keepalive.answered_finish.mp hanswered with hold | hnew
      · exact (h.answered caller hold).trans (Nat.lt_succ_self _)
      · exact List.mem_singleton.mp hnew ▸ Nat.lt_succ_self _
  unfold Client.Keepalive.State.keepalive
  dsimp only
  split
  · split
    · exact hrefused
    · refine ⟨h.wellFormed, h.held, fun hattaching => ?_, fun hattached => (h.attached hattached).trans
        (Nat.lt_succ_self _), fun caller hanswered => (h.answered caller hanswered).trans (Nat.lt_succ_self _)⟩
      cases hattaching
      exact ⟨Nat.lt_succ_self _, fun sid hattached => Nat.lt_irrefl _ (h.attached hattached)⟩
  · exact hrefused

theorem Calls.setKeepaliveCaller (h : Calls c) (hstep : c.setKeepaliveCaller = some c') : Calls c' := by
  obtain ⟨⟨caller, sid⟩, hattaching, hstep⟩ := Option.bind_eq_some_iff.mp hstep
  obtain ⟨session, hsession, rfl⟩ := Option.map_eq_some_iff.mp hstep
  obtain ⟨hlt, hfree⟩ := h.attaching hattaching
  have hwellFormed : (c.remote.modify sid fun session => (session.setKeepaliveCaller caller).1).WellFormed :=
    h.wellFormed.modify sid (fun _ => Client.Session.id_setKeepaliveCaller)
      fun _ _ hactive => Client.Session.active_setKeepaliveCaller.trans hactive
  dsimp only
  rcases Client.Session.setKeepaliveCaller_cases session caller with heq | ⟨-, -, heq⟩
  · rw [heq, if_neg Bool.false_ne_true]
    refine ⟨hwellFormed, ?_, fun h => (by cases h), h.attached, fun caller' hanswered => ?_⟩
    · intro sid' session' caller' hsession' hcaller'
      rcases Client.Remote.lookup_modify_cases hsession hsession' with ⟨rfl, rfl⟩ | ⟨-, hold⟩
      · rw [heq] at hcaller'
        exact h.held hsession hcaller'
      · exact h.held hold hcaller'
    · rcases Client.Keepalive.answered_finish.mp hanswered with hold | hnew
      · exact h.answered caller' hold
      · exact List.mem_singleton.mp hnew ▸ hlt
  · rw [heq, if_pos rfl]
    refine ⟨hwellFormed, ?_, fun h => (by cases h), fun hattached => ?_, h.answered⟩
    · intro sid' session' caller' hsession' hcaller'
      rcases Client.Remote.lookup_modify_cases hsession hsession' with ⟨rfl, rfl⟩ | ⟨-, hold⟩
      · rw [heq] at hcaller'
        cases hcaller'
        exact List.mem_append_right _ (List.mem_singleton_self _)
      · exact List.mem_append_left _ (h.held hold hcaller')
    · rcases List.mem_append.mp hattached with hold | hnew
      · exact h.attached hold
      · cases List.mem_singleton.mp hnew
        exact hlt

theorem Calls.step (h : Calls c) (hstep : c.step l = some c') : Calls c' := by
  cases l with
  | setKeepaliveCaller => exact h.setKeepaliveCaller hstep
  | keepalive id =>
    obtain ⟨hidle, hstep⟩ := Option.ite_none_right_eq_some.mp hstep
    cases hstep
    exact h.keepalive (Option.isNone_iff_eq_none.mp (Bool.and_eq_true_iff.mp hidle).1) id
  | shutdownSession id =>
    obtain ⟨-, hstep⟩ := Option.ite_none_right_eq_some.mp hstep
    cases hstep
    exact h.clearSession id
  | newSession resources =>
    obtain ⟨-, hstep⟩ := Option.ite_none_right_eq_some.mp hstep
    cases hstep
    exact h.newSession resources
  | enableSession =>
    obtain ⟨-, hstep⟩ := Option.ite_none_right_eq_some.mp hstep
    cases hstep
    exact h.of_eq ⟨h.wellFormed.ids, h.wellFormed.current⟩ rfl
  | disableSession =>
    obtain ⟨-, hstep⟩ := Option.ite_none_right_eq_some.mp hstep
    cases hstep
    have hflags : Calls { c with remote :=
        { c.remote with sessionIsEnabled := false, broadcasting := false } } :=
      h.of_eq ⟨h.wellFormed.ids, h.wellFormed.current⟩ rfl
    exact hflags.takeAway
  | destroyBody =>
    obtain ⟨-, hstep⟩ := Option.ite_none_right_eq_some.mp hstep
    cases hstep
    have hflags : Calls { c with remote := { c.remote with broadcasting := false } } :=
      h.of_eq ⟨h.wellFormed.ids, h.wellFormed.current⟩ rfl
    exact hflags.takeAway.of_eq hflags.takeAway.wellFormed rfl
  | destroyMembers =>
    obtain ⟨-, hstep⟩ := Option.ite_none_right_eq_some.mp hstep
    cases hstep
    exact h.of_eq ⟨h.wellFormed.ids, fun id hid => by cases hid⟩ rfl

/-- All that a step of the client can do to the keepalive calls. -/
inductive Called (c c' : Client.Keepalive.State α Pool) : Client.Keepalive.Label Pool → Prop
  /-- Whatever ends the current session finishes the calls attached to it. -/
  | finished {l : Client.Keepalive.Label Pool} (callers : List Nat)
      (hl : (∀ id, l ≠ .keepalive id) ∧ l ≠ .setKeepaliveCaller)
      (hcallers : callers = [] ∨ c'.remote.current = none)
      (hfinished : c'.finished = c.finished ++ callers.map fun caller => (caller, ⟨.ok, ""⟩))
      (hsame : c'.arrived = c.arrived ∧ c'.attached = c.attached ∧ c'.attaching = c.attaching) :
      Called c c' l
  | refusedAtOnce {id : Nat} (hcurrent : c.remote.current ≠ some id)
      (hfinished : c'.finished = c.finished ++ [(c.arrived, .keepaliveRefused)])
      (hsame : c'.attached = c.attached ∧ c'.attaching = none ∧ c'.remote = c.remote)
      (harrived : c'.arrived = c.arrived + 1) : Called c c' (.keepalive id)
  | attaching {id : Nat} (hattaching : c'.attaching = some (c.arrived, id))
      (hsame : c'.attached = c.attached ∧ c'.finished = c.finished ∧ c'.remote = c.remote)
      (harrived : c'.arrived = c.arrived + 1) : Called c c' (.keepalive id)
  | attached {caller sid : Nat} (hattaching : c.attaching = some (caller, sid))
      (hattached : c'.attached = c.attached ++ [(caller, sid)])
      (hsame : c'.arrived = c.arrived ∧ c'.attaching = none ∧ c'.finished = c.finished ∧
        c'.remote.current = c.remote.current) : Called c c' .setKeepaliveCaller
  | refused {caller sid : Nat} (hattaching : c.attaching = some (caller, sid))
      (hreason : c.remote.current ≠ some sid ∨ ∃ caller', caller' ≠ caller ∧ (caller', sid) ∈ c.attached)
      (hfinished : c'.finished = c.finished ++ [(caller, .keepaliveRefused)])
      (hsame : c'.arrived = c.arrived ∧ c'.attaching = none ∧ c'.attached = c.attached ∧
        c'.remote.current = c.remote.current) : Called c c' .setKeepaliveCaller

theorem called_setKeepaliveCaller (h : Calls c) (hstep : c.setKeepaliveCaller = some c') :
    Called c c' .setKeepaliveCaller := by
  obtain ⟨⟨caller, sid⟩, hattaching, hstep⟩ := Option.bind_eq_some_iff.mp hstep
  obtain ⟨session, hsession, rfl⟩ := Option.map_eq_some_iff.mp hstep
  obtain ⟨-, hfree⟩ := h.attaching hattaching
  dsimp only
  by_cases hrefused : !session.active || session.keepaliveCaller.isSome
  · have hset : (session.setKeepaliveCaller caller).2 = false := by
      rw [Client.Session.setKeepaliveCaller, if_pos hrefused]
    rw [hset, if_neg Bool.false_ne_true]
    refine .refused hattaching ?_ rfl ⟨rfl, rfl, rfl, Client.Remote.current_modify ..⟩
    rcases Bool.or_eq_true_iff.mp hrefused with hinactive | hheld
    · left
      intro hcurrent
      obtain ⟨session', hsession', hactive⟩ := h.wellFormed.current sid hcurrent
      obtain rfl := Option.some.inj (hsession.symm.trans hsession')
      simp [hactive] at hinactive
    · right
      obtain ⟨caller', hcaller'⟩ := Option.isSome_iff_exists.mp hheld
      have hattached := h.held hsession hcaller'
      exact ⟨caller', fun heq => hfree sid (heq ▸ hattached), hattached⟩
  · have hset : (session.setKeepaliveCaller caller).2 = true := by
      rw [Client.Session.setKeepaliveCaller, if_neg hrefused]
    rw [hset, if_pos rfl]
    exact .attached hattaching rfl ⟨rfl, rfl, rfl, Client.Remote.current_modify ..⟩

theorem called_keepalive (h : Calls c) (hidle : c.attaching = none) :
    Called c (c.keepalive id) (.keepalive id) := by
  unfold Client.Keepalive.State.keepalive
  dsimp only
  split
  · rename_i session hcurrent
    obtain ⟨sid, hsid, hsession⟩ := Option.bind_eq_some_iff.mp hcurrent
    have hid : session.id = sid := (h.wellFormed.ids sid session hsession).1
    split
    · rename_i hne
      refine .refusedAtOnce ?_ rfl ⟨rfl, hidle, rfl⟩ rfl
      rw [hsid, ← hid]
      exact fun heq => hne (Option.some.inj heq)
    · rename_i heq
      exact .attaching (congrArg (fun id => some (c.arrived, id)) (not_not.mp heq)) ⟨rfl, rfl, rfl⟩ rfl
  · rename_i hnone
    refine .refusedAtOnce (fun hcurrent => ?_) rfl ⟨rfl, hidle, rfl⟩ rfl
    obtain ⟨session, hsession, -⟩ := h.wellFormed.current id hcurrent
    rw [Client.Remote.currentSession, hcurrent, Option.bind_some, hsession] at hnone
    cases hnone

theorem called_step (h : Calls c) (hstep : c.step l = some c') : Called c c' l := by
  cases l with
  | setKeepaliveCaller => exact called_setKeepaliveCaller h hstep
  | keepalive id =>
    obtain ⟨hidle, hstep⟩ := Option.ite_none_right_eq_some.mp hstep
    cases hstep
    exact called_keepalive h (Option.isNone_iff_eq_none.mp (Bool.and_eq_true_iff.mp hidle).1)
  | shutdownSession id =>
    obtain ⟨-, hstep⟩ := Option.ite_none_right_eq_some.mp hstep
    cases hstep
    refine .finished (c.remote.clearSession id).2 (by simp) ?_ rfl ⟨rfl, rfl, rfl⟩
    by_cases hid : c.remote.current = some id
    · right
      show (c.remote.clearSession id).1.current = none
      rw [Client.Remote.current_clearSession, if_pos hid]
    · left
      show (if c.remote.current = some id then c.remote.takeAway else (c.remote, [])).2 = []
      rw [if_neg hid]
  | newSession _ | enableSession | destroyMembers =>
    obtain ⟨-, hstep⟩ := Option.ite_none_right_eq_some.mp hstep
    cases hstep
    exact .finished [] (by simp) (.inl rfl) (List.append_nil _).symm ⟨rfl, rfl, rfl⟩
  | disableSession | destroyBody =>
    obtain ⟨-, hstep⟩ := Option.ite_none_right_eq_some.mp hstep
    cases hstep
    exact .finished _ (by simp) (.inr Client.Remote.current_takeAway) rfl ⟨rfl, rfl, rfl⟩

theorem Called.prefix_finished (h : Called c c' l) : c.finished <+: c'.finished := by
  cases h with
  | finished callers _ _ hfinished _ => exact hfinished ▸ List.prefix_append _ _
  | refusedAtOnce _ hfinished _ _ | refused _ _ hfinished _ => exact hfinished ▸ List.prefix_append _ _
  | attaching _ hsame _ => rw [hsame.2.1]
  | attached _ _ hsame => rw [hsame.2.2.1]

theorem Called.answered (h : Called c c' l) {caller : Nat} (hanswered : Answered c caller) :
    Answered c' caller :=
  (List.IsPrefix.map Prod.fst h.prefix_finished).subset hanswered

end Client

-- ---------------------------------------------------------------------------
-- The keepalive calls
-- ---------------------------------------------------------------------------

open Client.Keepalive (Answered)

/-- A session has an id and makes its keepalive call once it is connected, and is notified
when the call returns. -/
structure Session.WellFormed (x : Session) : Prop where
  early : x.phase = .fresh ∨ x.phase = .connecting ∨ x.phase = .failed →
    x.id = 0 ∧ x.keepalive = .notStarted
  notified : x.phase = .connected → x.keepalive = .answered ∨ x.keepalive = .failed → x.notified

/-- The client has answered the keepalive call of server session `p`. -/
def Told (s : State α Pool) (p : Nat) : Prop :=
  ∃ caller : Nat, s.callers[caller]? = some p ∧ Answered s.client caller

/-- Each server session makes at most one call, with the id that it has been given, and
the client answers it only when the session of that id is over. -/
structure Accounts (s : State α Pool) : Prop where
  client : Calls s.client
  sessions : ∀ p, (s.sessions p).WellFormed
  arrived : s.client.arrived ≤ s.callers.length
  nodup : s.callers.Nodup
  requests : ∀ p id, .keepalive p id ∈ s.network → (s.sessions p).id = id ∧ id ≠ 0 ∧
    (s.sessions p).keepalive ≠ .notStarted ∧ p ∉ s.callers
  once : ∀ p id, s.network.count (.keepalive p id) ≤ 1
  started : ∀ p ∈ s.callers, (s.sessions p).id ≠ 0 ∧ (s.sessions p).keepalive ≠ .notStarted
  named : ∀ (caller sid p : Nat), s.callers[caller]? = some p →
    (caller, sid) ∈ s.client.attached ∨ s.client.attaching = some (caller, sid) → (s.sessions p).id = sid
  told : ∀ p, Told s p → s.client.remote.current ≠ some (s.sessions p).id
  responses : ∀ p status, .keepaliveResponse p status ∈ s.network → Told s p
  answered : ∀ p, (s.sessions p).keepalive = .answered → Told s p

theorem accounts_init : Accounts ({} : State α Pool) where
  client := calls_init
  sessions p := ⟨fun _ => ⟨rfl, rfl⟩, by simp⟩
  arrived := Nat.le_refl _
  nodup := List.nodup_nil
  requests := by simp
  once := by simp
  started := by simp
  named := by simp
  told := by simp [Told]
  responses := by simp
  answered := by simp

theorem Accounts.erase (h : Accounts s) (m : Message) :
    Accounts { s with network := s.network.erase m } where
  client := h.client
  sessions := h.sessions
  arrived := h.arrived
  nodup := h.nodup
  requests p id hm := h.requests p id (List.mem_of_mem_erase hm)
  once p id := (List.erase_sublist.count_le _).trans (h.once p id)
  started := h.started
  named := h.named
  told := h.told
  responses p status hm := h.responses p status (List.mem_of_mem_erase hm)
  answered := h.answered

/-- A server session that keeps its id and does not forget its call. -/
theorem Accounts.update (h : Accounts s) (hx : x.WellFormed)
    (hid : (s.sessions p).id ≠ 0 → x.id = (s.sessions p).id)
    (hstarted : (s.sessions p).keepalive ≠ .notStarted → x.keepalive ≠ .notStarted)
    (hanswered : x.keepalive = .answered → Told s p) : Accounts (s.update p x) := by
  have hids : ∀ q, (s.sessions q).id ≠ 0 → ((s.update p x).sessions q).id = (s.sessions q).id := by
    intro q hq
    rw [sessions_update]
    split
    · rename_i hqp
      subst hqp
      exact hid hq
    · rfl
  have hcalls : ∀ q, (s.sessions q).keepalive ≠ .notStarted →
      ((s.update p x).sessions q).keepalive ≠ .notStarted := by
    intro q hq
    rw [sessions_update]
    split
    · rename_i hqp
      subst hqp
      exact hstarted hq
    · exact hq
  refine ⟨h.client, fun q => ?_, h.arrived, h.nodup, fun q id hm => ?_, h.once, fun q hq => ?_,
    fun caller sid q hq hor => ?_, fun q hq => ?_, h.responses, fun q hq => ?_⟩
  · rw [sessions_update]
    split
    · exact hx
    · exact h.sessions q
  · obtain ⟨rfl, hpos, hcall, hfree⟩ := h.requests q id hm
    exact ⟨hids q hpos, hpos, hcalls q hcall, hfree⟩
  · obtain ⟨hpos, hcall⟩ := h.started q hq
    exact ⟨hids q hpos ▸ hpos, hcalls q hcall⟩
  · rw [hids q (h.started q (List.mem_of_getElem? hq)).1]
    exact h.named caller sid q hq hor
  · obtain ⟨caller, hcaller, hanswered⟩ := hq
    rw [hids q (h.started q (List.mem_of_getElem? hcaller)).1]
    exact h.told q ⟨caller, hcaller, hanswered⟩
  · rw [sessions_update] at hq
    split at hq
    · rename_i hqp
      subst hqp
      exact hanswered hq
    · exact h.answered q hq

/-- Messages that are no responses to keepalive calls, and at most one new such call. -/
theorem Accounts.send (h : Accounts s) (hresponses : ∀ q status, .keepaliveResponse q status ∉ messages)
    (hrequests : ∀ q id, .keepalive q id ∈ messages → .keepalive q id ∉ s.network ∧
      (s.sessions q).id = id ∧ id ≠ 0 ∧ (s.sessions q).keepalive ≠ .notStarted ∧ q ∉ s.callers)
    (honce : messages.Nodup) : Accounts (s.send messages) where
  client := h.client
  sessions := h.sessions
  arrived := h.arrived
  nodup := h.nodup
  requests q id hm := (List.mem_append.mp hm).elim (h.requests q id) fun hm => (hrequests q id hm).2
  once q id := by
    rw [State.send, List.count_append]
    by_cases hm : .keepalive q id ∈ messages
    · rw [List.count_eq_zero_of_not_mem (hrequests q id hm).1, List.count_eq_one_of_mem honce hm]
    · rw [List.count_eq_zero_of_not_mem hm]
      exact h.once q id
  started := h.started
  named := h.named
  told := h.told
  responses q status hm := (List.mem_append.mp hm).elim (h.responses q status)
    fun hm => absurd hm (hresponses q status)
  answered := h.answered

theorem Called.arrived (h : Called c c' l) : c'.arrived = c.arrived ∧ (∀ id, l ≠ .keepalive id) ∨
    c'.arrived = c.arrived + 1 ∧ ∃ id, l = .keepalive id := by
  cases h with
  | finished _ hl _ _ hsame => exact .inl ⟨hsame.1, hl.1⟩
  | refusedAtOnce _ _ _ harrived | attaching _ _ harrived => exact .inr ⟨harrived, _, rfl⟩
  | attached _ _ hsame | refused _ _ _ hsame => exact .inl ⟨hsame.1, by simp⟩

theorem mem_finished_of_called {caller : Nat} {status : Status}
    (hm : (caller, status) ∈ c'.finished.drop c.finished.length) : Answered c' caller :=
  List.mem_map_of_mem (List.mem_of_mem_drop hm)

theorem told_of_mem_turn {status : Status}
    (hm : .keepaliveResponse p status ∈ (s.turn c).network) :
    .keepaliveResponse p status ∈ s.network ∨ Told (s.turn c) p := by
  refine (List.mem_append.mp hm).imp_right fun hm => ?_
  obtain ⟨⟨caller, status'⟩, hfinished, hm⟩ := List.mem_flatMap.mp hm
  obtain ⟨p', hp', heq⟩ := List.mem_map.mp hm
  cases heq
  exact ⟨caller, Option.mem_toList.mp hp', mem_finished_of_called hfinished⟩

/-- A session that has begun and is not current stays so in a step. -/
theorem Fenced.over_step (h : Fenced s) (hc : s.client.step l = some c) (hpos : (s.sessions p).id ≠ 0)
    (hover : s.client.remote.current ≠ some (s.sessions p).id) :
    c.remote.current ≠ some (s.sessions p).id := by
  cases turned_step hc with
  | kept hcurrent _ _ => exact hcurrent ▸ hover
  | ended _ hcurrent _ _ => simp [hcurrent]
  | began _ hcurrent _ =>
    intro heq
    have hid := Option.some.inj (hcurrent.symm.trans heq)
    obtain ⟨hlt, -⟩ := List.getElem?_eq_some_iff.mp (h.sessions p (.inr hpos)).2
    have := h.nextId
    omega

/-- Why the client has answered a call in a step: it refuses the call, or nothing is current. -/
theorem Accounts.told_turn (h : Accounts s) (hfenced : Fenced s) (hc : s.client.step l = some c)
    (hcaller : ∀ id, l = .keepalive id →
      ∃ p, s.callers[s.client.arrived]? = some p ∧ (s.sessions p).id = id)
    (htold : Told (s.turn c) p) : c.remote.current ≠ some (s.sessions p).id := by
  obtain ⟨caller, hp, hanswered⟩ := htold
  have hp : s.callers[caller]? = some p := hp
  have hpos := (h.started p (List.mem_of_getElem? hp)).1
  have hover := hfenced.over_step hc hpos
  by_cases hold : Answered s.client caller
  · exact hover (h.told p ⟨caller, hp, hold⟩)
  -- the call is answered in this step
  cases called_step h.client hc with
  | finished callers _ hcallers hfinished _ =>
    rcases hcallers with rfl | hcurrent
    · rw [List.map_nil, List.append_nil] at hfinished
      exact absurd (show caller ∈ s.client.finished.map Prod.fst from hfinished ▸ hanswered) hold
    · simp [hcurrent]
  | @refusedAtOnce id hcurrent hfinished _ _ =>
    obtain ⟨p', hp', hid⟩ := hcaller id rfl
    have hmem : caller ∈ s.client.finished.map Prod.fst ∨ caller = s.client.arrived := by
      have : caller ∈ c.finished.map Prod.fst := hanswered
      simpa [hfinished] using this
    obtain rfl := hmem.resolve_left hold
    obtain rfl := Option.some.inj (hp.symm.trans hp')
    exact hover (hid ▸ hcurrent)
  | attaching _ hsame _ =>
    exact absurd (show caller ∈ s.client.finished.map Prod.fst from hsame.2.1 ▸ hanswered) hold
  | attached _ _ hsame =>
    exact absurd (show caller ∈ s.client.finished.map Prod.fst from hsame.2.2.1 ▸ hanswered) hold
  | @refused caller' sid hattaching hreason hfinished _ =>
    have hmem : caller ∈ s.client.finished.map Prod.fst ∨ caller = caller' := by
      have : caller ∈ c.finished.map Prod.fst := hanswered
      simpa [hfinished] using this
    obtain rfl := hmem.resolve_left hold
    obtain hid := h.named caller sid p hp (.inr hattaching)
    rcases hreason with hcurrent | ⟨caller', hne, hattached⟩
    · exact hover (hid ▸ hcurrent)
    · -- no other call names the session
      have hlt := Nat.lt_of_lt_of_le (h.client.attached hattached) h.arrived
      have hp' : s.callers[caller']? = some s.callers[caller'] := List.getElem?_eq_getElem hlt
      have hid' := h.named caller' sid _ hp' (.inl hattached)
      have hpos' := (h.started _ (List.mem_of_getElem? hp')).1
      have howner := hfenced.sessions p (.inr hpos)
      have howner' := hfenced.sessions _ (.inr hpos')
      rw [hid'] at howner'
      rw [hid] at howner
      have hcallers := hp.trans (congrArg some (howner.unique howner') |>.trans hp'.symm)
      exact absurd ((List.getElem?_inj (List.getElem?_eq_some_iff.mp hp).1 h.nodup).mp hcallers).symm hne

theorem Accounts.named_turn (h : Accounts s) (hc : s.client.step l = some c)
    (hcaller : ∀ id, l = .keepalive id →
      ∃ p, s.callers[s.client.arrived]? = some p ∧ (s.sessions p).id = id) {caller sid : Nat}
    (hp : s.callers[caller]? = some p) (hor : (caller, sid) ∈ c.attached ∨ c.attaching = some (caller, sid)) :
    (s.sessions p).id = sid := by
  cases called_step h.client hc with
  | finished _ _ _ _ hsame =>
    rw [hsame.2.1, hsame.2.2] at hor
    exact h.named caller sid p hp hor
  | refusedAtOnce _ _ hsame _ =>
    rw [hsame.1, hsame.2.1] at hor
    exact h.named caller sid p hp (.inl (hor.resolve_right (by simp)))
  | @attaching id hattaching hsame _ =>
    rw [hsame.1, hattaching] at hor
    rcases hor with hattached | hnew
    · exact h.named caller sid p hp (.inl hattached)
    · cases hnew
      obtain ⟨p', hp', hid⟩ := hcaller sid rfl
      obtain rfl := Option.some.inj (hp.symm.trans hp')
      exact hid
  | attached hattaching hattached hsame =>
    rw [hattached, hsame.2.1] at hor
    rcases List.mem_append.mp (hor.resolve_right (by simp)) with hold | hnew
    · exact h.named caller sid p hp (.inl hold)
    · cases List.mem_singleton.mp hnew
      exact h.named caller sid p hp (.inr hattaching)
  | refused _ _ _ hsame =>
    rw [hsame.2.1, hsame.2.2.1] at hor
    exact h.named caller sid p hp (.inl (hor.resolve_right (by simp)))

/-- The client takes a step; a keepalive call that arrives is the last one noted. -/
theorem Accounts.turn (h : Accounts s) (hfenced : Fenced s) (hc : s.client.step l = some c)
    (hcaller : ∀ id, l = .keepalive id →
      ∃ p, s.callers[s.client.arrived]? = some p ∧ (s.sessions p).id = id) : Accounts (s.turn c) where
  client := h.client.step hc
  sessions := h.sessions
  arrived := by
    show c.arrived ≤ s.callers.length
    rcases (called_step h.client hc).arrived with ⟨hsame, -⟩ | ⟨hnew, id, hl⟩
    · exact hsame.trans_le h.arrived
    · obtain ⟨p, hp, -⟩ := hcaller id hl
      obtain ⟨hlt, -⟩ := List.getElem?_eq_some_iff.mp hp
      exact hnew.trans_le hlt
  nodup := h.nodup
  requests := by
    intro p id hm
    rcases mem_turn hm with hm | ⟨p', status, heq⟩
    · exact h.requests p id hm
    · cases heq
  once := by
    intro p id
    have hnone : Message.keepalive p id ∉ s.responses (c.finished.drop s.client.finished.length) := by
      intro hm
      obtain ⟨_, -, hm⟩ := List.mem_flatMap.mp hm
      obtain ⟨_, -, heq⟩ := List.mem_map.mp hm
      cases heq
    show List.count _ (s.network ++ _) ≤ 1
    rw [List.count_append, List.count_eq_zero_of_not_mem hnone]
    exact h.once p id
  started := h.started
  named _ _ _ hp hor := h.named_turn hc hcaller hp hor
  told _ htold := h.told_turn hfenced hc hcaller htold
  responses := by
    intro p status hm
    rcases told_of_mem_turn hm with hm | htold
    · obtain ⟨caller, hp, hanswered⟩ := h.responses p status hm
      exact ⟨caller, hp, (called_step h.client hc).answered hanswered⟩
    · exact htold
  answered := by
    intro p hp
    obtain ⟨caller, hp, hanswered⟩ := h.answered p hp
    exact ⟨caller, hp, (called_step h.client hc).answered hanswered⟩

-- ---------------------------------------------------------------------------
-- Who is told
-- ---------------------------------------------------------------------------

theorem Session.WellFormed.notifyDisconnection (h : x.WellFormed) : x.notifyDisconnection.WellFormed := by
  unfold Session.notifyDisconnection
  split
  · rename_i hphase
    exact ⟨fun hearly => by simp [hphase] at hearly, fun _ _ => rfl⟩
  · exact h

theorem Session.WellFormed.keepaliveReturned (h : x.WellFormed) (outcome : Call) :
    (x.keepaliveReturned outcome).WellFormed := by
  unfold Session.keepaliveReturned
  split
  · rename_i hcall
    have hearly : ¬ (x.phase = .fresh ∨ x.phase = .connecting ∨ x.phase = .failed) := by
      intro hearly
      cases hcall.symm.trans (h.early hearly).2
    unfold Session.notifyDisconnection
    split
    · exact ⟨fun hearly' => absurd hearly' hearly, fun _ _ => rfl⟩
    · rename_i hphase
      exact ⟨fun hearly' => absurd hearly' hearly, fun hphase' => absurd hphase' hphase⟩
  · exact h

theorem keepalive_notifyDisconnection : x.notifyDisconnection.keepalive = x.keepalive := by
  unfold Session.notifyDisconnection
  split
  · rfl
  · rfl

theorem keepalive_keepaliveReturned (outcome : Call) : (x.keepaliveReturned outcome).keepalive =
    if x.keepalive = .pending then outcome else x.keepalive := by
  unfold Session.keepaliveReturned
  split
  · exact keepalive_notifyDisconnection
  · rfl

theorem Session.WellFormed.step (h : x.WellFormed) {l : Session.Label}
    (hstep : Session.Stepped p x l y messages) : y.WellFormed := by
  cases hstep with
  | connect hphase =>
    exact ⟨fun _ => h.early (.inl hphase), by simp⟩
  | connectFails hphase =>
    exact ⟨fun _ => h.early (.inr (.inl hphase)), by simp⟩
  | startKeepalive hphase _ => exact ⟨by simp [hphase], by simp⟩
  | keepaliveFails => exact h.keepaliveReturned _
  | callFails => exact h.notifyDisconnection
  | handleControlEvent _ _ => exact ⟨by simp, by simp⟩
  | destroy _ => exact ⟨by simp, by simp⟩

theorem Session.WellFormed.newReturned (h : x.WellFormed) (id : Option Nat) :
    (x.newReturned id).WellFormed := by
  unfold Session.newReturned
  split
  · rename_i hphase
    obtain ⟨hid, hcall⟩ := h.early (.inr (.inl hphase))
    cases id with
    | none => exact ⟨fun _ => ⟨hid, hcall⟩, by simp⟩
    | some id => exact ⟨by simp, by simp [hcall]⟩
  · exact h

/-- What a server session does about its keepalive call. -/
theorem Session.Stepped.keepalive {l : Session.Label} (h : Session.Stepped p x l y messages) :
    y.keepalive = x.keepalive ∧ (∀ q id, .keepalive q id ∉ messages) ∨
      y.keepalive = .failed ∧ x.keepalive = .pending ∧ messages = [] ∨
      y.keepalive = .pending ∧ x.keepalive = .notStarted ∧ x.phase = .connected ∧
        messages = [.keepalive p x.id] := by
  cases h with
  | connect _ | connectFails _ | handleControlEvent _ _ => exact .inl ⟨rfl, by simp⟩
  | startKeepalive hphase hcall => exact .inr (.inr ⟨rfl, hcall, hphase, rfl⟩)
  | keepaliveFails =>
    rw [keepalive_keepaliveReturned]
    split
    · rename_i hcall
      exact .inr (.inl ⟨rfl, hcall, rfl⟩)
    · exact .inl ⟨rfl, by simp⟩
  | callFails => exact .inl ⟨keepalive_notifyDisconnection, by simp⟩
  | destroy _ =>
    refine .inl ⟨rfl, fun q id hm => ?_⟩
    split at hm
    · cases List.mem_singleton.mp hm
    · cases hm

theorem Session.Stepped.sends {l : Session.Label} (h : Session.Stepped p x l y messages) :
    messages.Nodup ∧ ∀ q status, .keepaliveResponse q status ∉ messages := by
  cases h with
  | connect _ | connectFails _ | startKeepalive _ _ | keepaliveFails | callFails
  | handleControlEvent _ _ => exact ⟨by simp, by simp⟩
  | destroy _ =>
    split
    · exact ⟨List.nodup_singleton _, by simp⟩
    · exact ⟨List.nodup_nil, by simp⟩

theorem Accounts.session (h : Accounts s) (hfenced : Fenced s) {l : Session.Label}
    (hx : (s.sessions p).step p l = some (x, messages)) : Accounts ((s.update p x).send messages) := by
  have hstepped := Session.step_cases hx
  obtain ⟨hnodup, hresponses⟩ := hstepped.sends
  have hid := (session_step hx).1
  have hwellFormed := (h.sessions p).step hstepped
  rcases hstepped.keepalive with ⟨hsame, hnone⟩ | ⟨hfailed, hpending, rfl⟩ |
      ⟨hpending, hcall, hphase, rfl⟩
  · have hupdate := h.update hwellFormed (fun _ => hid) (fun hcall => hsame ▸ hcall)
      fun hcall => h.answered p (hsame ▸ hcall)
    exact hupdate.send hresponses (fun q id hm => absurd hm (hnone q id)) hnodup
  · have hupdate := h.update hwellFormed (fun _ => hid) (fun _ => by simp [hfailed])
      fun hcall => by simp [hfailed] at hcall
    exact hupdate.send hresponses (by simp) hnodup
  · have hupdate := h.update hwellFormed (fun _ => hid) (fun _ => by simp [hpending])
      fun hcall' => by simp [hpending] at hcall'
    refine hupdate.send hresponses (fun q id hm => ?_) hnodup
    cases List.mem_singleton.mp hm
    have hpos := (hfenced.sessions p (.inl hphase)).1
    have hx : (s.update p x).sessions p = x := sessions_update.trans (if_pos rfl)
    refine ⟨fun hm => ?_, by rw [hx, hid], hpos, by rw [hx, hpending]; simp, fun hp => ?_⟩
    · exact (h.requests p _ hm).2.2.1 hcall
    · exact (h.started p hp).2 hcall

theorem Accounts.newReturned (h : Accounts s) (p : Nat) (id : Option Nat) :
    Accounts (s.update p ((s.sessions p).newReturned id)) := by
  refine h.update ((h.sessions p).newReturned id) (fun hpos => ?_) (fun hcall => ?_) fun hcall => ?_
  · unfold Session.newReturned
    split
    · rename_i hphase
      exact absurd ((h.sessions p).early (.inr (.inl hphase))).1 hpos
    · rfl
  · unfold Session.newReturned
    split
    · rename_i hphase
      exact absurd ((h.sessions p).early (.inr (.inl hphase))).2 hcall
    · exact hcall
  · refine h.answered p ?_
    unfold Session.newReturned at hcall
    split at hcall
    · cases id with
      | some id => exact hcall
      | none => exact hcall
    · exact hcall

theorem Accounts.keepaliveReturned (h : Accounts s) (htold : Told s p) :
    Accounts (s.update p ((s.sessions p).keepaliveReturned .answered)) := by
  refine h.update ((h.sessions p).keepaliveReturned _) (fun _ => id_keepaliveReturned _) (fun hcall => ?_)
    fun _ => htold
  rw [keepalive_keepaliveReturned]
  split
  · simp
  · exact hcall

/-- The caller of a keepalive call is noted when the call arrives. -/
theorem Accounts.note (h : Accounts s) (hid : (s.sessions p).id = id) (hpos : id ≠ 0)
    (hcall : (s.sessions p).keepalive ≠ .notStarted) (hfree : p ∉ s.callers)
    (hnone : ∀ id, .keepalive p id ∉ s.network) (harrived : s.callers.length = s.client.arrived) :
    Accounts { s with callers := s.callers ++ [p] } := by
  have hold : ∀ {caller q : Nat}, (s.callers ++ [p])[caller]? = some q → caller < s.client.arrived →
      s.callers[caller]? = some q := by
    intro caller q hq hlt
    rwa [List.getElem?_append_left (by omega)] at hq
  have htold : ∀ q, Told { s with callers := s.callers ++ [p] } q → Told s q := by
    rintro q ⟨caller, hq, hanswered⟩
    exact ⟨caller, hold hq (h.client.answered caller hanswered), hanswered⟩
  have hmore : ∀ q, Told s q → Told { s with callers := s.callers ++ [p] } q := by
    rintro q ⟨caller, hq, hanswered⟩
    refine ⟨caller, ?_, hanswered⟩
    obtain ⟨hlt, -⟩ := List.getElem?_eq_some_iff.mp hq
    exact (List.getElem?_append_left hlt).trans hq
  refine ⟨h.client, h.sessions, ?_, ?_, fun q id hm => ?_, h.once, fun q hq => ?_,
    fun caller sid q hq hor => ?_, fun q hq => h.told q (htold q hq),
    fun q status hm => hmore q (h.responses q status hm), fun q hq => hmore q (h.answered q hq)⟩
  · show s.client.arrived ≤ (s.callers ++ [p]).length
    rw [List.length_append]
    exact Nat.le_add_right_of_le h.arrived
  · exact List.nodup_append.mpr ⟨h.nodup, List.nodup_singleton p, fun q hq q' hq' =>
      fun heq => hfree (List.mem_singleton.mp hq' ▸ heq ▸ hq)⟩
  · obtain ⟨hid, hpos, hcall, hfree⟩ := h.requests q id hm
    refine ⟨hid, hpos, hcall, fun hq => ?_⟩
    rcases List.mem_append.mp hq with hq | hq
    · exact hfree hq
    · exact hnone id (List.mem_singleton.mp hq ▸ hm)
  · rcases List.mem_append.mp hq with hq | hq
    · exact h.started q hq
    · rw [List.mem_singleton.mp hq]
      exact ⟨hid ▸ hpos, hcall⟩
  · refine h.named caller sid q (hold hq ?_) hor
    rcases hor with hattached | hattaching
    · exact h.client.attached hattached
    · exact (h.client.attaching hattaching).1

structure Inv (s : State α Pool) : Prop where
  fenced : Fenced s
  accounts : Accounts s
  /-- The callers are noted as their calls arrive. -/
  noted : s.callers.length = s.client.arrived

theorem inv_init : Inv ({} : State α Pool) := ⟨fenced_init, accounts_init, rfl⟩

theorem Inv.erase (h : Inv s) (m : Message) : Inv { s with network := s.network.erase m } :=
  ⟨h.fenced.erase m, h.accounts.erase m, h.noted⟩

theorem Inv.accounts_turn (h : Inv s) (hc : s.client.step l = some c) (hl : ∀ id, l ≠ .keepalive id) :
    Accounts (s.turn c) ∧ s.callers.length = c.arrived := by
  refine ⟨h.accounts.turn h.fenced hc fun id hid => absurd hid (hl id), ?_⟩
  rcases (called_step h.accounts.client hc).arrived with ⟨hsame, -⟩ | ⟨-, id, hid⟩
  · exact h.noted.trans hsame.symm
  · exact absurd hid (hl id)

theorem Inv.accounts_keepalive (h : Inv s) (hc : s.client.step (.keepalive id) = some c)
    (hid : (s.sessions p).id = id) (hpos : id ≠ 0) (hcall : (s.sessions p).keepalive ≠ .notStarted)
    (hfree : p ∉ s.callers) (hnone : ∀ id, .keepalive p id ∉ s.network) :
    Accounts (State.turn { s with callers := s.callers ++ [p] } c) ∧
      (s.callers ++ [p]).length = c.arrived := by
  have hnoted := h.accounts.note hid hpos hcall hfree hnone h.noted
  have hfenced : Fenced { s with callers := s.callers ++ [p] } :=
    ⟨h.fenced.nextId, h.fenced.current, h.fenced.sessions, h.fenced.messages⟩
  refine ⟨hnoted.turn hfenced hc ?_, ?_⟩
  · rintro id' ⟨⟩
    exact ⟨p, h.noted ▸ List.getElem?_concat_length, hid⟩
  · rcases (called_step h.accounts.client hc).arrived with ⟨-, hl⟩ | ⟨hnew, -⟩
    · exact absurd rfl (hl id)
    · rw [List.length_append, h.noted, hnew]
      rfl

theorem Inv.receive (h : Inv s) {m : Message} (hm : Authorized s.accepted m)
    (hrequest : ∀ p id, m = .keepalive p id → (s.sessions p).id = id ∧ id ≠ 0 ∧
      (s.sessions p).keepalive ≠ .notStarted ∧ p ∉ s.callers ∧ ∀ id, .keepalive p id ∉ s.network)
    (hresponse : ∀ p status, m = .keepaliveResponse p status → Told s p) (hs' : Received pool s m s') :
    Inv s' := by
  have hfenced := h.fenced.receive hm hs'
  cases hs' with
  | new hc =>
    obtain ⟨haccounts, hnoted⟩ := h.accounts_turn hc (by simp)
    refine ⟨hfenced, Accounts.send ⟨haccounts.client, haccounts.sessions, haccounts.arrived,
      haccounts.nodup, haccounts.requests, haccounts.once, haccounts.started, haccounts.named,
      haccounts.told, haccounts.responses, haccounts.answered⟩ (by simp) (by simp)
      (List.nodup_singleton _), hnoted⟩
  | newResponse p id => exact ⟨hfenced, h.accounts.newReturned p id, h.noted⟩
  | keepalive hc =>
    obtain ⟨hid, hpos, hcall, hfree, hnone⟩ := hrequest _ _ rfl
    obtain ⟨haccounts, hnoted⟩ := h.accounts_keepalive hc hid hpos hcall hfree hnone
    exact ⟨hfenced, haccounts, hnoted⟩
  | keepaliveResponse p status =>
    exact ⟨hfenced, h.accounts.keepaliveReturned (hresponse p status rfl), h.noted⟩
  | shutdown hc =>
    obtain ⟨haccounts, hnoted⟩ := h.accounts_turn hc (by simp)
    exact ⟨hfenced, haccounts, hnoted⟩

/-- A call that has arrived is in flight no more. -/
theorem Accounts.not_mem_erase (h : Accounts s) (hm : .keepalive p id ∈ s.network) (id' : Nat) :
    .keepalive p id' ∉ s.network.erase (.keepalive p id) := by
  intro hm'
  obtain rfl : id = id' := (h.requests p id hm).1.symm.trans (h.requests p id' (List.mem_of_mem_erase hm')).1
  have hcount := List.count_pos_iff.mpr hm'
  rw [List.count_erase_self] at hcount
  have honce := h.once p id
  omega

theorem Inv.step (h : Inv s) {l : Label Pool} (hstep : (machine α pool).step s l = some s') : Inv s' := by
  cases step_cases hstep with
  | session hx => exact ⟨h.fenced.session hx, h.accounts.session h.fenced hx, h.noted⟩
  | @client l c hown hc =>
    have hnew : ∀ id, l ≠ .keepalive id := by
      rintro id rfl
      cases hown
    obtain ⟨haccounts, hnoted⟩ := h.accounts_turn hc hnew
    exact ⟨h.fenced.step hstep, haccounts, hnoted⟩
  | @deliver m _ hm hs' =>
    refine (h.erase m).receive (h.fenced.messages m hm) ?_ ?_ hs'
    · rintro p id rfl
      obtain ⟨hid, hpos, hcall, hfree⟩ := h.accounts.requests p id hm
      exact ⟨hid, hpos, hcall, hfree, h.accounts.not_mem_erase hm⟩
    · rintro p status rfl
      exact h.accounts.responses p status hm
  | @lose m hm => exact h.erase m

theorem inv_run {ls : List (Label Pool)} (hrun : (machine α pool).run ls = some s) : Inv s :=
  Machine.run_invariant (I := Inv) inv_init (fun _ _ _ h hstep => h.step hstep) hrun

/-- Whatever is lost or fails, a server session whose keepalive call is answered is not the
owner of the current session, and never will be again. -/
theorem answered_run {ls : List (Label Pool)} (hrun : (machine α pool).run ls = some s)
    (hp : (s.sessions p).keepalive = .answered) {ls' : List (Label Pool)}
    (hafter : (machine α pool).runFrom s ls' = some s') :
    s'.client.remote.current ≠ some (s.sessions p).id := by
  have h := inv_run hrun
  obtain ⟨caller, hcaller, hanswered⟩ := h.accounts.answered p hp
  have hover := h.accounts.told p ⟨caller, hcaller, hanswered⟩
  have hpos := (h.accounts.started p (List.mem_of_getElem? hcaller)).1
  obtain ⟨hlt, -⟩ := List.getElem?_eq_some_iff.mp (h.fenced.sessions p (.inr hpos)).2
  exact h.fenced.over (by omega) hover hafter

/-- The client takes the session away, and the server is told. -/
def takenAway : List (Label Unit) :=
  [.client .enableSession, .session 0 .connect, .deliver (.new 0), .deliver (.newResponse 0 (some 1)),
    .session 0 .startKeepalive, .deliver (.keepalive 0 1), .client .setKeepaliveCaller,
    .client .disableSession, .deliver (.keepaliveResponse 0 ⟨.ok, ""⟩)]

/-- Another server connects. -/
def nextServer : List (Label Unit) := [.client .enableSession, .session 1 .connect, .deliver (.new 1)]

theorem answered_takenAway : ∃ s s', (machine Unit ()).run takenAway = some s ∧
    (machine Unit ()).runFrom s nextServer = some s' ∧
    s'.client.remote.current ≠ some (s.sessions 0).id := by
  have hrun := (Option.some_get (x := (machine Unit ()).run takenAway) rfl).symm
  have hafter := (Option.some_get
    (x := (machine Unit ()).runFrom (((machine Unit ()).run takenAway).get rfl) nextServer) rfl).symm
  exact ⟨_, _, hrun, hafter, answered_run hrun rfl hafter⟩

end Connection

end ZenRemote
