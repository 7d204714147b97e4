-- SUMMARY: When nothing is lost, the servers and the client come to agree on the session that is current.
import Mathlib.Algebra.Order.BigOperators.Group.List
import Mathlib.Algebra.Order.Group.Nat
import Mathlib.Algebra.Ring.Nat
import ZenRemote.Connection.Calls

/-!
# Agreement

Servers and client do not agree at every moment: a session can be over on one side, with
the message that tells the other one still in flight. Over a network that loses nothing,
every difference is accounted for by such a message, and is gone when it has arrived.
-/

namespace ZenRemote

open Client (Status)
open Client.Keepalive (Answered)

universe u v

namespace Connection

variable {α : Type u} {Pool : Type v} {pool : Pool} {s s' : State α Pool} {p q id : Nat} {x y : Session}
  {messages : List Message} {c c' : Client.Keepalive.State α Pool} {l : Client.Keepalive.Label Pool}

/-- The call of `New` by server session `p`, or the response to it. -/
def isNewCall (p : Nat) : Message → Bool
  | .new q | .newResponse q _ => q = p
  | .keepalive _ _ | .keepaliveResponse _ _ | .shutdown _ _ => false

/-- Nothing gets lost: whatever one side does not know yet, is on its way to it. -/
structure Delivered (s : State α Pool) : Prop where
  calls : ∀ p, s.network.countP (isNewCall p) = if (s.sessions p).phase = .connecting then 1 else 0
  owners : ∀ id p, Owner s.accepted id p →
    .newResponse p (some id) ∈ s.network ∨ (s.sessions p).id = id
  requested : ∀ p, (s.sessions p).keepalive = .pending →
    (∃ id, .keepalive p id ∈ s.network) ∨ p ∈ s.callers
  responded : ∀ p, Told s p → (s.sessions p).keepalive = .pending →
    ∃ status, .keepaliveResponse p status ∈ s.network
  shutdowns : ∀ p, (s.sessions p).phase = .destroyed → (s.sessions p).id ≠ 0 →
    .shutdown p (s.sessions p).id ∈ s.network ∨ s.client.remote.current ≠ some (s.sessions p).id

theorem delivered_init : Delivered ({} : State α Pool) where
  calls := by simp
  owners := by simp [Owner]
  requested := by simp
  responded := by simp
  shutdowns := by simp

-- ---------------------------------------------------------------------------
-- Steps of a server session
-- ---------------------------------------------------------------------------

/-- Only `connect` calls `New`. -/
theorem Session.Stepped.calls {l : Session.Label} (h : Session.Stepped p x l y messages)
    (hl : l ≠ .connectFails) : (∀ q, q ≠ p → messages.countP (isNewCall q) = 0) ∧
      messages.countP (isNewCall p) + (if x.phase = .connecting then 1 else 0) =
        if y.phase = .connecting then 1 else 0 := by
  cases h with
  | connect hphase => simp +contextual [hphase, isNewCall, eq_comm]
  | connectFails _ => exact absurd rfl hl
  | startKeepalive hphase _ | handleControlEvent hphase _ => simp [hphase, isNewCall]
  | keepaliveFails | callFails => simp
  | destroy hphase =>
    rw [not_or] at hphase
    split
    · simp [hphase.1, isNewCall]
    · simp [hphase.1]

theorem Session.Stepped.destroyed {l : Session.Label} (h : Session.Stepped p x l y messages)
    (hphase : y.phase = .destroyed) (hpos : y.id ≠ 0) :
    x.phase = .destroyed ∨ .shutdown p y.id ∈ messages := by
  cases h with
  | connect _ | connectFails _ | handleControlEvent _ _ => cases hphase
  | startKeepalive _ _ => exact .inl hphase
  | keepaliveFails => exact .inl (by simpa using hphase)
  | callFails => exact .inl (by simpa using hphase)
  | destroy _ => exact .inr (by rw [if_pos hpos]; exact List.mem_singleton_self _)

theorem Delivered.session (h : Delivered s) (hinv : Inv s) {l : Session.Label} (hl : l ≠ .connectFails)
    (hx : (s.sessions p).step p l = some (x, messages)) : Delivered ((s.update p x).send messages) := by
  have hstepped := Session.step_cases hx
  have hid := (session_step hx).1
  obtain ⟨hothers, hcalls⟩ := hstepped.calls hl
  have hkept : ∀ {m}, m ∈ s.network → m ∈ ((s.update p x).send messages).network :=
    fun hm => List.mem_append_left _ hm
  have hsessions : ∀ q, ((s.update p x).send messages).sessions q = if q = p then x else s.sessions q :=
    fun q => sessions_update
  refine ⟨fun q => ?_, fun id q hq => ?_, fun q hq => ?_, fun q htold hq => ?_, fun q hphase hpos => ?_⟩
  · show (s.network ++ messages).countP (isNewCall q) = _
    rw [List.countP_append, h.calls, hsessions]
    by_cases hqp : q = p
    · subst hqp
      rw [if_pos rfl, Nat.add_comm]
      exact hcalls
    · rw [if_neg hqp, hothers q hqp, Nat.add_zero]
  · refine (h.owners id q hq).imp hkept fun hq => ?_
    rw [hsessions]
    split
    · rename_i hqp
      exact hid.trans (hqp ▸ hq)
    · exact hq
  · rw [hsessions] at hq
    split at hq
    · rename_i hqp
      subst hqp
      rcases hstepped.keepalive with ⟨hsame, -⟩ | ⟨hfailed, -, -⟩ | ⟨-, -, -, rfl⟩
      · exact (h.requested q (hsame ▸ hq)).imp_left fun ⟨id, hm⟩ => ⟨id, hkept hm⟩
      · cases hfailed.symm.trans hq
      · exact .inl ⟨_, List.mem_append_right _ (List.mem_singleton_self _)⟩
    · exact (h.requested q hq).imp_left fun ⟨id, hm⟩ => ⟨id, hkept hm⟩
  · have htold : Told s q := htold
    rw [hsessions] at hq
    have hpending : (s.sessions q).keepalive = .pending := by
      split at hq
      · rename_i hqp
        subst hqp
        rcases hstepped.keepalive with ⟨hsame, -⟩ | ⟨hfailed, -, -⟩ | ⟨-, hcall, -, -⟩
        · exact hsame ▸ hq
        · cases hfailed.symm.trans hq
        · obtain ⟨caller, hcaller, -⟩ := htold
          exact absurd hcall (hinv.accounts.started q (List.mem_of_getElem? hcaller)).2
      · exact hq
    obtain ⟨status, hm⟩ := h.responded q htold hpending
    exact ⟨status, hkept hm⟩
  · rw [hsessions] at hphase hpos ⊢
    split
    · rename_i hqp
      subst hqp
      rw [if_pos rfl] at hphase hpos
      rcases hstepped.destroyed hphase hpos with hold | hm
      · rw [hid] at hpos ⊢
        exact (h.shutdowns q hold hpos).imp_left hkept
      · exact .inl (List.mem_append_right _ hm)
    · rename_i hqp
      rw [if_neg hqp] at hphase hpos
      exact (h.shutdowns q hphase hpos).imp_left hkept

-- ---------------------------------------------------------------------------
-- Steps of the client
-- ---------------------------------------------------------------------------

/-- The answers that the client gives in a step are on their way. -/
theorem told_turn_cases (hcalled : Called s.client c l) (htold : Told (s.turn c) p) :
    Told s p ∨ ∃ status, .keepaliveResponse p status ∈ (s.turn c).network := by
  obtain ⟨caller, hp, hanswered⟩ := htold
  have hp : s.callers[caller]? = some p := hp
  obtain ⟨new, hfinished⟩ := hcalled.prefix_finished
  have hmem : caller ∈ c.finished.map Prod.fst := hanswered
  rw [← hfinished, List.map_append] at hmem
  rcases List.mem_append.mp hmem with hold | hnew
  · exact .inl ⟨caller, hp, hold⟩
  · obtain ⟨⟨caller', status⟩, hanswer, rfl⟩ := List.mem_map.mp hnew
    refine .inr ⟨status, List.mem_append_right _ (List.mem_flatMap.mpr ⟨(caller', status), ?_, ?_⟩)⟩
    · rw [← hfinished, List.drop_left]
      exact hanswer
    · exact List.mem_map.mpr ⟨p, Option.mem_toList.mpr hp, rfl⟩

theorem countP_responses (s : State α Pool) (finished : List (Nat × Status)) (q : Nat) :
    (s.responses finished).countP (isNewCall q) = 0 := by
  rw [List.countP_eq_zero]
  intro m hm
  obtain ⟨_, -, hm⟩ := List.mem_flatMap.mp hm
  obtain ⟨_, -, rfl⟩ := List.mem_map.mp hm
  exact Bool.false_ne_true

theorem Delivered.turn (h : Delivered s) (hfenced : Fenced s)
    (hclient : Calls s.client) (hc : s.client.step l = some c) : Delivered (s.turn c) := by
  have hkept : ∀ {m}, m ∈ s.network → m ∈ (s.turn c).network := fun hm => List.mem_append_left _ hm
  refine ⟨fun q => ?_, fun id q hq => ?_, fun q hq => ?_, fun q htold hq => ?_, fun q hphase hpos => ?_⟩
  · show (s.network ++ s.responses _).countP (isNewCall q) = _
    rw [List.countP_append, countP_responses, Nat.add_zero]
    exact h.calls q
  · exact (h.owners id q hq).imp_left hkept
  · exact (h.requested q hq).imp_left fun ⟨id, hm⟩ => ⟨id, hkept hm⟩
  · rcases told_turn_cases (called_step hclient hc) htold with hold | hnew
    · obtain ⟨status, hm⟩ := h.responded q hold hq
      exact ⟨status, hkept hm⟩
    · exact hnew
  · exact (h.shutdowns q hphase hpos).imp hkept (hfenced.over_step hc hpos)

-- ---------------------------------------------------------------------------
-- Arrivals
-- ---------------------------------------------------------------------------

theorem countP_erase {m : Message} (hm : m ∈ s.network) (q : Nat) :
    (s.network.erase m).countP (isNewCall q) + (if isNewCall q m then 1 else 0) =
      s.network.countP (isNewCall q) := by
  rw [(List.perm_cons_erase hm).countP_eq, List.countP_cons]

/-- Of a call of `New` there is one message at most. -/
theorem Delivered.newCall_unique (h : Delivered s) {m m' : Message} (hm : m ∈ s.network)
    (hm' : m' ∈ s.network) (hcall : isNewCall p m) (hcall' : isNewCall p m') : m' = m := by
  by_contra hne
  have hcount := countP_erase hm p
  rw [if_pos hcall, h.calls p] at hcount
  have hpos : 0 < (s.network.erase m).countP (isNewCall p) :=
    List.countP_pos_iff.mpr ⟨m', (List.mem_erase_of_ne hne).mpr hm', hcall'⟩
  split at hcount
  · omega
  · omega

theorem Delivered.connecting (h : Delivered s) {m : Message} (hm : m ∈ s.network) (hcall : isNewCall p m) :
    (s.sessions p).phase = .connecting := by
  have hpos : 0 < s.network.countP (isNewCall p) := List.countP_pos_iff.mpr ⟨m, hm, hcall⟩
  rw [h.calls p] at hpos
  by_contra hphase
  rw [if_neg hphase] at hpos
  exact Nat.lt_irrefl _ hpos

/-- A message that has nothing to tell any more. -/
theorem Delivered.erase (h : Delivered s) {m : Message} (hm : m ∈ s.network)
    (hnew : ∀ q, isNewCall q m = false) (hrequest : ∀ p id, m = .keepalive p id → p ∈ s.callers)
    (hresponse : ∀ p status, m = .keepaliveResponse p status → (s.sessions p).keepalive ≠ .pending)
    (hshutdown : ∀ p id, m = .shutdown p id → s.client.remote.current ≠ some id) :
    Delivered { s with network := s.network.erase m } := by
  have hkept : ∀ {m'}, m' ∈ s.network → m' ≠ m → m' ∈ s.network.erase m :=
    fun hm' hne => (List.mem_erase_of_ne hne).mpr hm'
  refine ⟨fun q => ?_, fun id q hq => ?_, fun q hq => ?_, fun q htold hq => ?_, fun q hphase hpos => ?_⟩
  · have hcount := countP_erase hm q
    rw [hnew, if_neg Bool.false_ne_true, Nat.add_zero] at hcount
    exact hcount.trans (h.calls q)
  · refine (h.owners id q hq).imp_left fun hresponse => hkept hresponse ?_
    rintro rfl
    have := hnew q
    simp [isNewCall] at this
  · rcases h.requested q hq with ⟨id, hcall⟩ | hcaller
    · by_cases heq : Message.keepalive q id = m
      · exact .inr (hrequest q id heq.symm)
      · exact .inl ⟨id, hkept hcall heq⟩
    · exact .inr hcaller
  · obtain ⟨status, hanswer⟩ := h.responded q htold hq
    exact ⟨status, hkept hanswer fun heq => hresponse q status heq.symm hq⟩
  · rcases h.shutdowns q hphase hpos with hsent | hover
    · by_cases heq : Message.shutdown q (s.sessions q).id = m
      · exact .inr (hshutdown q _ heq.symm)
      · exact .inl (hkept hsent heq)
    · exact .inr hover

theorem turn_erase {m : Message} (hm : m ∈ s.network) :
    State.turn { s with network := s.network.erase m } c =
      { s.turn c with network := (s.turn c).network.erase m } :=
  congrArg (fun network => { s.turn c with network }) (List.erase_append_left _ hm).symm

theorem Delivered.shutdown (h : Delivered s) (hinv : Inv s) (hm : .shutdown p id ∈ s.network)
    (hc : s.client.step (.shutdownSession id) = some c) :
    Delivered (State.turn { s with network := s.network.erase (.shutdown p id) } c) := by
  have hcurrent : c.remote.current ≠ some id := by
    obtain ⟨-, hstep⟩ := Option.ite_none_right_eq_some.mp hc
    cases hstep
    show (s.client.remote.clearSession id).1.current ≠ some id
    rw [Client.Remote.current_clearSession]
    split
    · simp
    · assumption
  rw [turn_erase hm]
  refine (h.turn hinv.fenced hinv.accounts.client hc).erase (List.mem_append_left _ hm) (fun _ => rfl)
    (by simp) (by simp) ?_
  rintro _ _ ⟨⟩
  exact hcurrent

theorem Delivered.keepalive (h : Delivered s) (hinv : Inv s) (hm : .keepalive p id ∈ s.network)
    (hc : s.client.step (.keepalive id) = some c) : Delivered (State.turn
      { s with network := s.network.erase (.keepalive p id), callers := s.callers ++ [p] } c) := by
  have hnoted : Delivered { s with callers := s.callers ++ [p] } := by
    refine ⟨h.calls, h.owners, fun q hq => (h.requested q hq).imp_right (List.mem_append_left _),
      fun q htold hq => ?_, h.shutdowns⟩
    obtain ⟨caller, hcaller, hanswered⟩ := htold
    have hlt := hinv.accounts.client.answered caller hanswered
    have hcaller : (s.callers ++ [p])[caller]? = some q := hcaller
    rw [List.getElem?_append_left (hinv.noted ▸ hlt)] at hcaller
    exact h.responded q ⟨caller, hcaller, hanswered⟩ hq
  have hfenced : Fenced { s with callers := s.callers ++ [p] } :=
    ⟨hinv.fenced.nextId, hinv.fenced.current, hinv.fenced.sessions, hinv.fenced.messages⟩
  rw [turn_erase (s := { s with callers := s.callers ++ [p] }) hm]
  refine (hnoted.turn hfenced hinv.accounts.client hc).erase (List.mem_append_left _ hm) (fun _ => rfl)
    ?_ (by simp) (by simp)
  rintro _ _ ⟨⟩
  exact List.mem_append_right _ (List.mem_singleton_self _)

theorem Delivered.keepaliveResponse (h : Delivered s) {status : Status}
    (hm : .keepaliveResponse p status ∈ s.network) : Delivered (State.update
      { s with network := s.network.erase (.keepaliveResponse p status) } p
      ((s.sessions p).keepaliveReturned .answered)) := by
  have hkeepalive : ((s.sessions p).keepaliveReturned .answered).keepalive ≠ .pending := by
    rw [keepalive_keepaliveReturned]
    split
    · simp
    · assumption
  have hupdate : Delivered (s.update p ((s.sessions p).keepaliveReturned .answered)) := by
    have hphase : ∀ q, ((s.update p ((s.sessions p).keepaliveReturned .answered)).sessions q).phase =
        (s.sessions q).phase := by
      intro q
      rw [sessions_update]
      split
      · rename_i hqp
        rw [hqp, phase_keepaliveReturned]
      · rfl
    have hid : ∀ q, ((s.update p ((s.sessions p).keepaliveReturned .answered)).sessions q).id =
        (s.sessions q).id := by
      intro q
      rw [sessions_update]
      split
      · rename_i hqp
        rw [hqp, id_keepaliveReturned]
      · rfl
    have hpending : ∀ q, ((s.update p ((s.sessions p).keepaliveReturned .answered)).sessions q).keepalive =
        .pending → (s.sessions q).keepalive = .pending := by
      intro q hq
      rw [sessions_update] at hq
      split at hq
      · exact absurd hq hkeepalive
      · exact hq
    refine ⟨fun q => ?_, fun id q hq => ?_, fun q hq => h.requested q (hpending q hq),
      fun q htold hq => h.responded q htold (hpending q hq), fun q hdestroyed hpos => ?_⟩
    · rw [hphase]
      exact h.calls q
    · rw [hid]
      exact h.owners id q hq
    · rw [hphase] at hdestroyed
      rw [hid] at hpos ⊢
      exact h.shutdowns q hdestroyed hpos
  refine hupdate.erase hm (fun _ => rfl) (by simp) ?_ (by simp)
  rintro _ _ ⟨⟩
  rw [sessions_update, if_pos rfl]
  exact hkeepalive

theorem Delivered.newResponse (h : Delivered s) (hinv : Inv s) {id : Option Nat}
    (hm : .newResponse p id ∈ s.network) : Delivered (State.update
      { s with network := s.network.erase (.newResponse p id) } p ((s.sessions p).newReturned id)) := by
  have hphase := h.connecting hm (p := p) (by simp [isNewCall])
  obtain ⟨hid, hcall⟩ := (hinv.accounts.sessions p).early (.inr (.inl hphase))
  have hkept : ∀ {m}, m ∈ s.network → m ≠ .newResponse p id → m ∈ s.network.erase (.newResponse p id) :=
    fun hm' hne => (List.mem_erase_of_ne hne).mpr hm'
  -- the session has returned from `Connect`
  have hreturned : ((s.sessions p).newReturned id).phase ≠ .connecting ∧
      ((s.sessions p).newReturned id).phase ≠ .destroyed ∧
      ((s.sessions p).newReturned id).keepalive = .notStarted ∧
      ∀ id', id = some id' → ((s.sessions p).newReturned id).id = id' := by
    unfold Session.newReturned
    rw [if_pos hphase]
    cases id with
    | some id => exact ⟨by simp, by simp, hcall, by simp⟩
    | none => exact ⟨by simp, by simp, hcall, by simp⟩
  have hsessions : ∀ q, q ≠ p → (State.update { s with network := s.network.erase (.newResponse p id) } p
      ((s.sessions p).newReturned id)).sessions q = s.sessions q :=
    fun q hqp => sessions_update.trans (if_neg hqp)
  have hself : (State.update { s with network := s.network.erase (.newResponse p id) } p
      ((s.sessions p).newReturned id)).sessions p = (s.sessions p).newReturned id :=
    sessions_update.trans (if_pos rfl)
  have hcount := countP_erase hm
  refine ⟨fun q => ?_, fun id' q hq => ?_, fun q hq => ?_, fun q htold hq => ?_, fun q hdestroyed hpos => ?_⟩
  · show (s.network.erase (.newResponse p id)).countP (isNewCall q) = _
    have hcount := hcount q
    rw [h.calls q] at hcount
    by_cases hqp : q = p
    · subst hqp
      rw [hself, if_neg hreturned.1]
      rw [if_pos hphase, if_pos (by simp [isNewCall])] at hcount
      omega
    · rw [hsessions q hqp]
      rw [if_neg (by simp [isNewCall, Ne.symm hqp])] at hcount
      exact hcount
  · by_cases hqp : q = p
    · subst hqp
      rw [hself]
      right
      rcases h.owners id' q hq with hresponse | hid'
      · have heq := h.newCall_unique (p := q) hm hresponse (by simp [isNewCall]) (by simp [isNewCall])
        cases heq
        exact hreturned.2.2.2 id' rfl
      · exact absurd (hid.symm.trans hid').symm hq.1
    · rw [hsessions q hqp]
      exact (h.owners id' q hq).imp_left fun hresponse => hkept hresponse (by simp [hqp])
  · by_cases hqp : q = p
    · subst hqp
      rw [hself, hreturned.2.2.1] at hq
      cases hq
    · rw [hsessions q hqp] at hq
      exact (h.requested q hq).imp_left fun ⟨id', hm'⟩ => ⟨id', hkept hm' (by simp)⟩
  · by_cases hqp : q = p
    · subst hqp
      rw [hself, hreturned.2.2.1] at hq
      cases hq
    · rw [hsessions q hqp] at hq
      obtain ⟨status, hm'⟩ := h.responded q htold hq
      exact ⟨status, hkept hm' (by simp)⟩
  · by_cases hqp : q = p
    · subst hqp
      rw [hself] at hdestroyed
      exact absurd hdestroyed hreturned.2.1
    · rw [hsessions q hqp] at hdestroyed hpos ⊢
      exact (h.shutdowns q hdestroyed hpos).imp_left fun hm' => hkept hm' (by simp)

theorem Owner.of_concat {accepted : List Nat} (h : Owner (accepted ++ [p]) id q) :
    Owner accepted id q ∨ id = accepted.length + 1 ∧ q = p := by
  obtain ⟨hpos, hq⟩ := h
  rcases Nat.lt_or_ge (id - 1) accepted.length with hlt | hge
  · rw [List.getElem?_append_left hlt] at hq
    exact .inl ⟨hpos, hq⟩
  · rw [List.getElem?_append_right hge] at hq
    obtain ⟨hindex, hq⟩ := List.getElem?_eq_some_iff.mp hq
    rw [List.length_singleton] at hindex
    rw [List.getElem_singleton] at hq
    exact .inr ⟨by omega, hq.symm⟩

theorem Delivered.new (h : Delivered s) (hinv : Inv s) (hm : .new p ∈ s.network)
    (hc : s.client.step (.newSession pool) = some c) : Delivered (State.send
      { State.turn { s with network := s.network.erase (.new p) } c with
        accepted := s.accepted ++ (s.client.remote.resetSession pool).2.toList.map fun _ => p }
      [.newResponse p (s.client.remote.resetSession pool).2]) := by
  have hturn := h.turn hinv.fenced hinv.accounts.client hc
  have hm' : .new p ∈ (s.turn c).network := List.mem_append_left _ hm
  have howner : ∀ id q, Owner (s.accepted ++ (s.client.remote.resetSession pool).2.toList.map fun _ => p)
      id q → Owner s.accepted id q ∨ (s.client.remote.resetSession pool).2 = some id ∧ q = p := by
    intro id q hq
    cases turned_step hc with
    | ended _ _ _ hl => exact absurd rfl (hl pool)
    | kept _ _ hrefused =>
      rw [hrefused pool rfl, Option.toList_none, List.map_nil, List.append_nil] at hq
      exact .inl hq
    | began hbegan _ _ =>
      rw [hbegan, hinv.fenced.nextId] at hq ⊢
      exact hq.of_concat.imp_right fun ⟨hid, hqp⟩ => ⟨congrArg some hid.symm, hqp⟩
  rw [turn_erase hm]
  have hkept : ∀ {m} (messages : List Message), m ∈ (s.turn c).network → m ≠ .new p →
      m ∈ (s.turn c).network.erase (.new p) ++ messages :=
    fun _ hm' hne => List.mem_append_left _ ((List.mem_erase_of_ne hne).mpr hm')
  refine ⟨fun q => ?_, fun id q hq => ?_, fun q hq => ?_, fun q htold hq => ?_, fun q hdestroyed hpos => ?_⟩
  · have hcount := countP_erase hm' q
    rw [hturn.calls q] at hcount
    show ((s.turn c).network.erase (.new p) ++ [Message.newResponse p _]).countP (isNewCall q) = _
    rw [List.countP_append, List.countP_singleton]
    exact hcount
  · rcases howner id q hq with hold | ⟨hid, rfl⟩
    · exact (hturn.owners id q hold).imp_left fun hresponse => hkept _ hresponse (by simp)
    · exact .inl (List.mem_append_right _ (by rw [hid]; exact List.mem_singleton_self _))
  · exact (hturn.requested q hq).imp_left fun ⟨id, hcall⟩ => ⟨id, hkept _ hcall (by simp)⟩
  · obtain ⟨status, hanswer⟩ := hturn.responded q htold hq
    exact ⟨status, hkept _ hanswer (by simp)⟩
  · exact (hturn.shutdowns q hdestroyed hpos).imp_left fun hsent => hkept _ hsent (by simp)

/-- No message is lost, and no call of `New` fails on its way; a session that is replaced has
no keepalive call attached. -/
def Reliable (s : State α Pool) : Label Pool → Prop
  | .lose _ | .session _ .connectFails => False
  | .deliver (.new _) | .client .destroyMembers => Client.Keepalive.NoCaller s.client.remote
  | _ => True

/-- The client answers its calls as it should, where none is attached to a session that is
replaced. -/
theorem Reliable.answers {l : Label Pool} (hl : Reliable s l) (h : Client.Keepalive.Invariant s.client)
    (hstep : (machine α pool).step s l = some s') : Client.Keepalive.Invariant s'.client := by
  cases step_cases hstep with
  | session hx => exact h
  | @client l c hown hc =>
    refine h.step (l := l) ?_ hc
    cases l with
    | newSession _ | shutdownSession _ | keepalive _ => cases hown
    | destroyMembers => exact hl
    | _ => trivial
  | lose hm => exact h
  | deliver hm hs' =>
    cases hs' with
    | new hc => exact h.step (l := .newSession pool) hl hc
    | newResponse p id => exact h
    | keepalive hc => exact h.step (l := .keepalive _) trivial hc
    | keepaliveResponse p status => exact h
    | shutdown hc => exact h.step (l := .shutdownSession _) trivial hc

theorem Delivered.step (h : Delivered s) (hinv : Inv s) {l : Label Pool} (hl : Reliable s l)
    (hstep : (machine α pool).step s l = some s') : Delivered s' := by
  cases step_cases hstep with
  | @session p l x messages hx =>
    refine h.session hinv ?_ hx
    rintro rfl
    exact hl
  | client hown hc => exact h.turn hinv.fenced hinv.accounts.client hc
  | lose hm => exact absurd hl (by simp [Reliable])
  | deliver hm hs' =>
    cases hs' with
    | new hc => exact h.new hinv hm hc
    | newResponse p id => exact h.newResponse hinv hm
    | keepalive hc => exact h.keepalive hinv hm hc
    | keepaliveResponse p status => exact h.keepaliveResponse hm
    | shutdown hc => exact h.shutdown hinv hm hc

theorem delivered_run {ls : List (Label Pool)} (halong : (machine α pool).Along Reliable ls)
    (hrun : (machine α pool).run ls = some s) :
    Inv s ∧ Delivered s ∧ Client.Keepalive.Invariant s.client :=
  Machine.Along.invariant (I := fun s => Inv s ∧ Delivered s ∧ Client.Keepalive.Invariant s.client)
    ⟨inv_init, delivered_init, Client.Keepalive.invariant_init⟩ (fun _ _ _ h hl hstep =>
      ⟨h.1.step hstep, h.2.1.step h.1 hl hstep, hl.answers h.2.2 hstep⟩) halong hrun

-- ---------------------------------------------------------------------------
-- Settling
-- ---------------------------------------------------------------------------

/-- The steps that bring what is under way to its end. -/
def Arrives : Label Pool → Prop
  | .deliver _ | .client .setKeepaliveCaller | .session _ .startKeepalive
  | .session _ .handleControlEvent => True
  | _ => False

def Session.work (x : Session) : Nat :=
  if x.phase = .connected then if x.keepalive = .notStarted then 6 else 1 else 0

def Message.work : Message → Nat
  | .keepalive _ _ => 4
  | _ => 1

/-- What the calls still to be answered make the client do. -/
def clientWork (c : Client.Keepalive.State α Pool) : Nat :=
  2 * (c.arrived - c.finished.length) + c.attaching.toList.length

/-- What the arrival of a keepalive call adds to that. -/
def chargeOf : Client.Keepalive.Label Pool → Nat
  | .keepalive _ => 3
  | _ => 0

/-- What attaching a call takes from it. -/
def gainOf : Client.Keepalive.Label Pool → Nat
  | .setKeepaliveCaller => 1
  | _ => 0

/-- An upper bound of the number of such steps. -/
def State.work (s : State α Pool) : Nat :=
  (s.accepted.map fun p => (s.sessions p).work).sum + (s.network.map Message.work).sum +
    clientWork s.client

theorem sum_map_add_le {ps : List Nat} {f g : Nat → Nat} {k : Nat} (hp : p ∈ ps) (hlt : g p + k ≤ f p)
    (hle : ∀ q, g q ≤ f q) : (ps.map g).sum + k ≤ (ps.map f).sum := by
  have hsplit : ∀ f : Nat → Nat, (ps.map f).sum = f p + ((ps.erase p).map f).sum :=
    fun f => ((List.perm_cons_erase hp).map f).sum_eq
  have hrest : ((ps.erase p).map g).sum ≤ ((ps.erase p).map f).sum :=
    List.sum_le_sum fun q _ => hle q
  rw [hsplit f, hsplit g]
  omega

theorem work_erase {m : Message} (hm : m ∈ s.network) :
    State.work { s with network := s.network.erase m } + m.work = s.work := by
  have hsum : (s.network.map Message.work).sum = m.work + ((s.network.erase m).map Message.work).sum :=
    ((List.perm_cons_erase hm).map Message.work).sum_eq
  unfold State.work
  dsimp only
  omega

theorem work_send : (s.send messages).work = s.work + (messages.map Message.work).sum := by
  show _ + ((s.network ++ messages).map Message.work).sum + _ = _ + _ + _ + _
  rw [List.map_append, List.sum_append]
  simp only [State.send]
  omega

theorem work_responses_le (s : State α Pool) (finished : List (Nat × Status)) :
    ((s.responses finished).map Message.work).sum ≤ finished.length := by
  induction finished with
  | nil => exact Nat.le_refl _
  | cons answer finished ih =>
    have hone : ∀ p : Option Nat, ((p.toList.map fun p =>
        Message.keepaliveResponse p answer.2).map Message.work).sum ≤ 1 := by
      rintro (_ | p)
      · exact Nat.zero_le _
      · exact Nat.le_refl _
    have hfirst := hone s.callers[answer.1]?
    rw [State.responses, List.flatMap_cons, List.map_append, List.sum_append, List.length_cons]
    exact (Nat.add_le_add hfirst ih).trans_eq (Nat.add_comm ..)

theorem length_finished_le (h : Client.Keepalive.Invariant c) : c.finished.length ≤ c.arrived := by
  have hsubset : c.finished.map Prod.fst ⊆ List.range c.arrived :=
    fun caller hcaller => List.mem_range.mpr (h.answered caller hcaller)
  have hle := (List.subperm_of_subset h.once hsubset).length_le
  rwa [List.length_map, List.length_range] at hle

/-- Answering a call takes more from the client than the answer brings to the network. -/
theorem clientWork_called (h' : Client.Keepalive.Invariant c') (hcalled : Called c c' l) :
    (c'.finished.length - c.finished.length) + clientWork c' + gainOf l ≤ clientWork c + chargeOf l := by
  have hle := length_finished_le h'
  unfold clientWork
  cases hcalled with
  | finished callers hl _ hfinished hsame =>
    have hgain : gainOf l = 0 := by
      cases l with
      | setKeepaliveCaller => exact absurd rfl hl.2
      | _ => rfl
    rw [hfinished, List.length_append, List.length_map] at hle ⊢
    rw [hsame.1, hsame.2.2, hgain]
    rw [hsame.1] at hle
    omega
  | refusedAtOnce _ hfinished hsame harrived =>
    rw [hfinished, List.length_append, List.length_singleton] at hle ⊢
    rw [harrived, hsame.2.1, Option.toList_none, List.length_nil]
    simp only [chargeOf, gainOf]
    omega
  | attaching hattaching hsame harrived =>
    rw [hsame.2.1, harrived, hattaching, Option.toList_some, List.length_singleton]
    simp only [chargeOf, gainOf]
    omega
  | attached hattaching _ hsame =>
    rw [hsame.1, hsame.2.1, hsame.2.2.1, hattaching, Option.toList_none, Option.toList_some,
      List.length_nil, List.length_singleton]
    simp only [chargeOf, gainOf]
    omega
  | refused hattaching _ hfinished hsame =>
    rw [hfinished, List.length_append, List.length_singleton] at hle ⊢
    rw [hsame.1, hsame.2.1, hattaching, Option.toList_none, Option.toList_some, List.length_nil,
      List.length_singleton]
    rw [hsame.1] at hle
    simp only [chargeOf, gainOf]
    omega

theorem work_turn (h' : Client.Keepalive.Invariant c) (hcalled : Called s.client c l) :
    (s.turn c).work + gainOf l ≤ s.work + chargeOf l := by
  have hclient := clientWork_called h' hcalled
  have hresponses := work_responses_le s (c.finished.drop s.client.finished.length)
  rw [List.length_drop] at hresponses
  show (s.accepted.map fun p => (s.sessions p).work).sum +
    ((s.network ++ s.responses (c.finished.drop s.client.finished.length)).map Message.work).sum +
      clientWork c + _ ≤ (s.accepted.map fun p => (s.sessions p).work).sum +
        (s.network.map Message.work).sum + clientWork s.client + _
  rw [List.map_append, List.sum_append]
  omega

/-- A server session that has been given its id does something. -/
theorem work_update {k : Nat} (hp : p ∈ s.accepted) (hx : x.work + k ≤ (s.sessions p).work) :
    (s.update p x).work + k ≤ s.work := by
  have hsum := sum_map_add_le (k := k) (f := fun p => (s.sessions p).work)
    (g := fun q => ((s.update p x).sessions q).work) hp ?_ fun q => ?_
  · show (s.accepted.map fun q => ((s.update p x).sessions q).work).sum +
      (s.network.map Message.work).sum + clientWork s.client + k ≤
        (s.accepted.map fun p => (s.sessions p).work).sum + (s.network.map Message.work).sum +
          clientWork s.client
    omega
  · rw [sessions_update, if_pos rfl]
    exact hx
  · rw [sessions_update]
    split
    · rename_i hqp
      rw [hqp]
      omega
    · exact Nat.le_refl _

theorem work_update_le (hx : x.work ≤ (s.sessions p).work) : (s.update p x).work ≤ s.work := by
  have hsum : (s.accepted.map fun q => ((s.update p x).sessions q).work).sum ≤
      (s.accepted.map fun p => (s.sessions p).work).sum := by
    refine List.sum_le_sum fun q _ => ?_
    rw [sessions_update]
    split
    · rename_i hqp
      exact hqp ▸ hx
    · exact Nat.le_refl _
  exact Nat.add_le_add_right (Nat.add_le_add_right hsum _) _

/-- No server is connecting, and the client is there to take calls. -/
structure Settling (s : State α Pool) : Prop where
  inv : Inv s
  delivered : Delivered s
  answers : Client.Keepalive.Invariant s.client
  quiet : ∀ p, (s.sessions p).phase ≠ .connecting
  alive : s.client.life ≠ .destroyed

theorem life_step (hstep : c.step l = some c') (hl : l ≠ .destroyMembers) (halive : c.life ≠ .destroyed) :
    c'.life ≠ .destroyed := by
  cases l with
  | destroyMembers => exact absurd rfl hl
  | setKeepaliveCaller =>
    obtain ⟨⟨caller, sid⟩, -, hstep⟩ := Option.bind_eq_some_iff.mp hstep
    obtain ⟨session, -, rfl⟩ := Option.map_eq_some_iff.mp hstep
    dsimp only
    split
    · exact halive
    · exact halive
  | keepalive id =>
    obtain ⟨-, hstep⟩ := Option.ite_none_right_eq_some.mp hstep
    cases hstep
    unfold Client.Keepalive.State.keepalive
    dsimp only
    split
    · split
      · exact halive
      · exact halive
    · exact halive
  | destroyBody =>
    obtain ⟨-, hstep⟩ := Option.ite_none_right_eq_some.mp hstep
    cases hstep
    simp [Client.Keepalive.State.destroyBody]
  | newSession _ | shutdownSession _ | enableSession | disableSession =>
    obtain ⟨-, hstep⟩ := Option.ite_none_right_eq_some.mp hstep
    cases hstep
    exact halive

theorem Settling.not_mem (h : Settling s) {m : Message} (hcall : isNewCall p m) : m ∉ s.network :=
  fun hm => h.quiet p (h.delivered.connecting hm hcall)

theorem quiet_update (h : ∀ p, (s.sessions p).phase ≠ .connecting) (hx : x.phase ≠ .connecting) (q : Nat) :
    ((s.update p x).sessions q).phase ≠ .connecting := by
  rw [sessions_update]
  split
  · exact hx
  · exact h q

theorem Settling.reliable (h : Settling s) {l : Label Pool} (hl : Arrives l)
    (hstep : (machine α pool).step s l = some s') : Reliable s l := by
  cases l with
  | session p l =>
    cases l with
    | connectFails => exact hl.elim
    | _ => trivial
  | client l =>
    cases l with
    | destroyMembers => exact hl.elim
    | _ => trivial
  | deliver m =>
    cases m with
    | new p =>
      obtain ⟨hm, -⟩ := Option.ite_none_right_eq_some.mp hstep
      exact absurd hm (h.not_mem (p := p) (by simp [isNewCall]))
    | _ => trivial
  | lose m => exact hl.elim

theorem work_keepaliveReturned_le (x : Session) : (x.keepaliveReturned .answered).work ≤ x.work := by
  rw [Session.work, Session.work, phase_keepaliveReturned, keepalive_keepaliveReturned]
  split
  · split
    · rename_i hpending
      simp [hpending]
    · exact Nat.le_refl _
  · exact Nat.le_refl _

theorem Settling.step (h : Settling s) {l : Label Pool} (hl : Arrives l)
    (hstep : (machine α pool).step s l = some s') : Settling s' ∧ s'.work < s.work := by
  have hreliable := h.reliable hl hstep
  have hinv := h.inv.step hstep
  have hanswers := hreliable.answers h.answers hstep
  have hdelivered := h.delivered.step h.inv hreliable hstep
  cases step_cases hstep with
  | @session p l x messages hx =>
    refine ⟨⟨hinv, hdelivered, hanswers, ?_, h.alive⟩, ?_⟩
    · cases Session.step_cases hx with
      | connect _ | connectFails _ | keepaliveFails | callFails | destroy _ => exact hl.elim
      | startKeepalive _ _ => exact quiet_update h.quiet (h.quiet p)
      | handleControlEvent _ _ => exact quiet_update h.quiet (by simp)
    · cases Session.step_cases hx with
      | connect _ | connectFails _ | keepaliveFails | callFails | destroy _ => exact hl.elim
      | startKeepalive hphase hcall =>
        have hp := List.mem_of_getElem? (h.inv.fenced.sessions p (.inl hphase)).2
        have hupdate := work_update (k := 5) (x := { s.sessions p with keepalive := .pending }) hp
          (by simp [Session.work, hphase, hcall])
        rw [work_send]
        exact (Nat.add_lt_add_left (Nat.lt_succ_self 4) _).trans_le hupdate
      | handleControlEvent hphase _ =>
        have hp := List.mem_of_getElem? (h.inv.fenced.sessions p (.inl hphase)).2
        have hupdate := work_update (k := 1) (x := { s.sessions p with phase := .disconnected }) hp ?_
        · rw [work_send]
          exact hupdate
        · rw [Session.work, Session.work, if_pos hphase, if_neg (by simp)]
          split
          · exact Nat.succ_le_succ (Nat.zero_le 5)
          · exact Nat.le_refl 1
  | @client l c hown hc =>
    obtain rfl : l = .setKeepaliveCaller := by
      cases l with
      | setKeepaliveCaller => rfl
      | _ => exact hl.elim
    refine ⟨⟨hinv, hdelivered, hanswers, h.quiet, life_step hc (by simp) h.alive⟩, ?_⟩
    exact work_turn hanswers (called_step h.inv.accounts.client hc)
  | lose hm => exact hl.elim
  | deliver hm hs' =>
    have hwork := work_erase hm
    cases hs' with
    | @new p c hc => exact absurd hm (h.not_mem (p := p) (by simp [isNewCall]))
    | newResponse p id => exact absurd hm (h.not_mem (p := p) (by simp [isNewCall]))
    | @keepalive p id c hc =>
      refine ⟨⟨hinv, hdelivered, hanswers, h.quiet, life_step hc (by simp) h.alive⟩, ?_⟩
      have hturn := work_turn
        (s := { s with network := s.network.erase (.keepalive p id), callers := s.callers ++ [p] })
        hanswers (called_step h.inv.accounts.client hc)
      exact hturn.trans_lt (hwork ▸ Nat.lt_succ_self _)
    | keepaliveResponse p status =>
      have hphase := phase_keepaliveReturned (x := s.sessions p) .answered
      refine ⟨⟨hinv, hdelivered, hanswers, quiet_update h.quiet (hphase ▸ h.quiet p), h.alive⟩, ?_⟩
      have hupdate := work_update_le (s := { s with network := s.network.erase (.keepaliveResponse p status) })
        (work_keepaliveReturned_le (s.sessions p))
      exact hupdate.trans_lt (hwork ▸ Nat.lt_succ_self _)
    | @shutdown p id c hc =>
      refine ⟨⟨hinv, hdelivered, hanswers, h.quiet, life_step hc (by simp) h.alive⟩, ?_⟩
      have hturn := work_turn (s := { s with network := s.network.erase (.shutdown p id) })
        hanswers (called_step h.inv.accounts.client hc)
      exact hturn.trans_lt (hwork ▸ Nat.lt_succ_self _)

/-- What the end of all deliveries finds. -/
theorem Settling.delivered_all (h : Settling s)
    (hsettled : ∀ l, Arrives l → (machine α pool).step s l = none) :
    s.client.attaching = none ∧ s.network = [] := by
  have hattaching : s.client.attaching = none := by
    rw [Option.eq_none_iff_forall_ne_some]
    rintro ⟨caller, sid⟩ hattaching
    obtain ⟨-, -, -, session, hsession, -⟩ := h.answers.attaching hattaching
    have hstep : s.client.step .setKeepaliveCaller = none :=
      Option.map_eq_none_iff.mp (hsettled (.client .setKeepaliveCaller) trivial)
    have hnone := (Option.bind_eq_none_iff.mp hstep) (caller, sid) hattaching
    cases hsession.symm.trans (Option.map_eq_none_iff.mp hnone)
  refine ⟨hattaching, List.eq_nil_iff_forall_not_mem.mpr fun m hm => ?_⟩
  have hidle : s.client.isIdle := by simp [Client.Keepalive.State.isIdle, hattaching, h.alive]
  have hnone : State.receive pool { s with network := s.network.erase m } m = none := by
    have hstep := hsettled (.deliver m) trivial
    change (if m ∈ s.network then _ else none) = none at hstep
    rwa [if_pos hm] at hstep
  cases m with
  | new p => exact h.not_mem (p := p) (by simp [isNewCall]) hm
  | newResponse p id => exact h.not_mem (p := p) (by simp [isNewCall]) hm
  | keepaliveResponse p status => cases hnone
  | keepalive p id =>
    have hstep := Option.map_eq_none_iff.mp hnone
    cases (if_pos hidle).symm.trans hstep
  | shutdown p id =>
    have hstep := Option.map_eq_none_iff.mp hnone
    cases (if_pos hidle).symm.trans hstep

/-- A server session that is connected when all has been delivered is the current one. -/
theorem Settling.current_of_connected (h : Settling s)
    (hsettled : ∀ l, Arrives l → (machine α pool).step s l = none)
    (hp : (s.sessions p).phase = .connected) : s.client.remote.current = some (s.sessions p).id := by
  obtain ⟨hattaching, hnetwork⟩ := h.delivered_all hsettled
  have hstarted : (s.sessions p).keepalive ≠ .notStarted := by
    intro hcall
    have hstep := Option.map_eq_none_iff.mp (hsettled (.session p .startKeepalive) trivial)
    cases (if_pos ⟨hp, hcall⟩).symm.trans hstep
  have hunnotified : ¬ (s.sessions p).notified := by
    intro hnotified
    have hstep := Option.map_eq_none_iff.mp (hsettled (.session p .handleControlEvent) trivial)
    cases (if_pos ⟨hp, hnotified⟩).symm.trans hstep
  have hpending : (s.sessions p).keepalive = .pending := by
    cases hcall : (s.sessions p).keepalive with
    | notStarted => exact absurd hcall hstarted
    | pending => rfl
    | answered => exact absurd ((h.inv.accounts.sessions p).notified hp (.inl hcall)) hunnotified
    | failed => exact absurd ((h.inv.accounts.sessions p).notified hp (.inr hcall)) hunnotified
  -- its call has arrived, and is not answered
  obtain ⟨caller, hlt, hcaller⟩ : ∃ caller, ∃ hlt : caller < s.callers.length, s.callers[caller] = p := by
    rcases h.delivered.requested p hpending with ⟨id, hm⟩ | hmem
    · simp [hnetwork] at hm
    · exact List.mem_iff_getElem.mp hmem
  have hcaller : s.callers[caller]? = some p := hcaller ▸ List.getElem?_eq_getElem hlt
  have hopen : ¬ Answered s.client caller := by
    intro hanswered
    obtain ⟨status, hm⟩ := h.delivered.responded p ⟨caller, hcaller, hanswered⟩ hpending
    simp [hnetwork] at hm
  have hattached : ∃ sid, (caller, sid) ∈ s.client.attached := by
    by_contra hnone
    push Not at hnone
    refine hopen (List.mem_map_of_mem (h.answers.refused caller ?_ hnone ?_))
    · exact hlt.trans_eq h.inv.noted
    · simp [hattaching]
  obtain ⟨sid, hattached⟩ := hattached
  obtain ⟨-, -, -, hcurrent⟩ := h.answers.waiting hattached hopen
  rw [h.inv.accounts.named caller sid p hcaller (.inl hattached)]
  exact hcurrent

/-- The current session belongs to a server session that has not been destroyed. -/
theorem Settling.owner_of_current (h : Settling s)
    (hsettled : ∀ l, Arrives l → (machine α pool).step s l = none)
    (hcurrent : s.client.remote.current = some id) : ∃ p, (s.sessions p).id = id ∧
      ((s.sessions p).phase = .connected ∨ (s.sessions p).phase = .disconnected) := by
  obtain ⟨-, hnetwork⟩ := h.delivered_all hsettled
  obtain ⟨hpos, hle⟩ := h.inv.fenced.current id hcurrent
  obtain ⟨p, howner⟩ := exists_owner hpos hle
  have hid : (s.sessions p).id = id := (h.delivered.owners id p howner).resolve_left (by simp [hnetwork])
  refine ⟨p, hid, ?_⟩
  have hlate : ¬ ((s.sessions p).phase = .fresh ∨ (s.sessions p).phase = .connecting ∨
      (s.sessions p).phase = .failed) :=
    fun hearly => hpos (hid.symm.trans ((h.inv.accounts.sessions p).early hearly).1)
  have halive : (s.sessions p).phase ≠ .destroyed := by
    intro hdestroyed
    rcases h.delivered.shutdowns p hdestroyed (hid ▸ hpos) with hm | hover
    · simp [hnetwork] at hm
    · exact hover (hid ▸ hcurrent)
  cases hphase : (s.sessions p).phase with
  | connected => exact .inl rfl
  | disconnected => exact .inr rfl
  | fresh => exact absurd (.inl hphase) hlate
  | connecting => exact absurd (.inr (.inl hphase)) hlate
  | failed => exact absurd (.inr (.inr hphase)) hlate
  | destroyed => exact absurd hphase halive

/-- Once no server is connecting any more, and the network delivers, servers and client come
to agree, whatever the order: only the owner of the current session is still connected, and
a session that is current has an owner that has not been destroyed. It takes that `New` has
never found a keepalive call attached to the session that it replaces, which nobody would
answer, and that `~Remote` is not over. -/
theorem agrees_run {ls : List (Label Pool)} (halong : (machine α pool).Along Reliable ls)
    (hrun : (machine α pool).run ls = some s) (hquiet : ∀ p, (s.sessions p).phase ≠ .connecting)
    (halive : s.client.life ≠ .destroyed) {ls' : List (Label Pool)} (hls' : ∀ l ∈ ls', Arrives l)
    (hrun' : (machine α pool).runFrom s ls' = some s') : ls'.length ≤ s.work ∧
      ((∀ l, Arrives l → (machine α pool).step s' l = none) →
        s'.network = [] ∧
        (∀ p, (s'.sessions p).phase = .connected →
          s'.client.remote.current = some (s'.sessions p).id) ∧
        ∀ id, s'.client.remote.current = some id → ∃ p, (s'.sessions p).id = id ∧
          ((s'.sessions p).phase = .connected ∨ (s'.sessions p).phase = .disconnected)) := by
  obtain ⟨hinv, hdelivered, hanswers⟩ := delivered_run halong hrun
  have h : Settling s := ⟨hinv, hdelivered, hanswers, hquiet, halive⟩
  refine ⟨Machine.length_le_of_measure (I := Settling) (P := Arrives) (m := State.work)
    (fun _ _ _ h hl hstep => h.step hl hstep) h hls' hrun', fun hsettled => ?_⟩
  have h' : Settling s' := Machine.AlongFrom.invariant (I := Settling) (C := fun _ l => Arrives l)
    (fun _ _ _ h hl hstep => (h.step hl hstep).1) h
    (Machine.alongFrom_of_mem fun l hl _ => hls' l hl) hrun'
  exact ⟨(h'.delivered_all hsettled).2, fun p => h'.current_of_connected hsettled,
    fun id => h'.owner_of_current hsettled⟩

instance (r : Client.Remote α Pool) : Decidable (Client.Keepalive.NoCaller r) :=
  inferInstanceAs (Decidable (∀ session ∈ r.currentSession, session.keepaliveCaller = none))

instance (s : State α Pool) (l : Label Pool) : Decidable (Reliable s l) :=
  match l with
  | .lose _ | .session _ .connectFails => isFalse (fun h => h)
  | .deliver (.new _) | .client .destroyMembers => inferInstanceAs (Decidable (Client.Keepalive.NoCaller _))
  | .deliver (.newResponse _ _) | .deliver (.keepalive _ _) | .deliver (.keepaliveResponse _ _)
  | .deliver (.shutdown _ _) | .session _ .connect | .session _ .startKeepalive
  | .session _ .keepaliveFails | .session _ .callFails | .session _ .handleControlEvent
  | .session _ .destroy | .client (.newSession _) | .client (.shutdownSession _)
  | .client .enableSession | .client .disableSession | .client (.keepalive _)
  | .client .setKeepaliveCaller | .client .destroyBody => isTrue trivial

/-- The client takes the session away, and another server connects. -/
def takenAwayAndOver : List (Label Unit) :=
  [.client .enableSession, .session 0 .connect, .deliver (.new 0), .deliver (.newResponse 0 (some 1)),
    .session 0 .startKeepalive, .deliver (.keepalive 0 1), .client .setKeepaliveCaller,
    .client .disableSession, .client .enableSession, .session 1 .connect, .deliver (.new 1),
    .deliver (.newResponse 1 (some 2))]

/-- The first server is told, and the call of the second one is attached. -/
def settledAfter : List (Label Unit) :=
  [.session 1 .startKeepalive, .deliver (.keepalive 1 2), .deliver (.keepaliveResponse 0 ⟨.ok, ""⟩),
    .client .setKeepaliveCaller, .session 0 .handleControlEvent]

theorem agrees_takenAwayAndOver : ∃ s s', (machine Unit ()).run takenAwayAndOver = some s ∧
    (machine Unit ()).runFrom s settledAfter = some s' ∧
    s'.client.remote.current = some (s'.sessions 1).id := by
  have hrun := (Option.some_get (x := (machine Unit ()).run takenAwayAndOver) rfl).symm
  have hafter := (Option.some_get (x := (machine Unit ()).runFrom
    (((machine Unit ()).run takenAwayAndOver).get rfl) settledAfter) rfl).symm
  refine ⟨_, _, hrun, hafter, ?_⟩
  refine ((agrees_run (by decide) hrun ?_ ?_ ?_ hafter).2 ?_).2.1 1 rfl
  · rintro (_ | _ | p)
    · decide
    · decide
    · show Phase.fresh ≠ .connecting
      decide
  · decide
  · simp [settledAfter, Arrives]
  · intro l hl
    cases l with
    | deliver m => rfl
    | lose m => cases hl
    | client l =>
      cases l with
      | setKeepaliveCaller => rfl
      | _ => cases hl
    | session p l =>
      obtain _ | _ | p := p
      · cases l with
        | startKeepalive | handleControlEvent => rfl
        | _ => cases hl
      · cases l with
        | startKeepalive | handleControlEvent => rfl
        | _ => cases hl
      · cases l with
        | startKeepalive | handleControlEvent => rfl
        | _ => cases hl

end Connection

end ZenRemote
