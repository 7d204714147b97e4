-- SUMMARY: Keepalive calls: how they are attached to sessions, and who answers them when a session stops being current.
import ZenRemote.Client.CompletionQueue
import ZenRemote.Client.SessionControl

/-!
# Keepalive calls

A keepalive call stays unanswered as long as its session is current, so that its
answer tells the server that the session is over. The call is attached to the session
by the completion-queue thread; whatever ends the session has to finish it. The
application thread can get in between the comparison and the attachment.
-/

namespace ZenRemote.Client

universe u v

def Status.keepaliveRefused : Status :=
  ⟨.aborted, "Specified session is invalid or already attached a keepalive request"⟩

namespace Session

variable {α : Type u} {Pool : Type v} {s : Session α Pool} {caller : Nat}

def setKeepaliveCaller (s : Session α Pool) (caller : Nat) : Session α Pool × Bool :=
  if !s.active || s.keepaliveCaller.isSome then (s, false)
  else ({ s with keepaliveCaller := some caller }, true)

theorem id_setKeepaliveCaller : (s.setKeepaliveCaller caller).1.id = s.id := by
  unfold setKeepaliveCaller
  split
  · rfl
  · rfl

theorem active_setKeepaliveCaller : (s.setKeepaliveCaller caller).1.active = s.active := by
  unfold setKeepaliveCaller
  split
  · rfl
  · rfl

theorem setKeepaliveCaller_cases (s : Session α Pool) (caller : Nat) :
    s.setKeepaliveCaller caller = (s, false) ∨
      (s.active ∧ s.keepaliveCaller = none ∧
        s.setKeepaliveCaller caller = ({ s with keepaliveCaller := some caller }, true)) := by
  unfold setKeepaliveCaller
  split
  · exact .inl rfl
  · rename_i hfree
    rw [Bool.or_eq_true, not_or, Option.not_isSome_iff_eq_none, Bool.not_eq_true] at hfree
    exact .inr ⟨by simpa using hfree.1, hfree.2, rfl⟩

end Session

namespace Keepalive

/-- How far `~Remote` is. Its body takes the current session away; the completion-queue
thread runs until the member that owns it is destroyed, and then the pointer goes. -/
inductive Life where
  | alive
  | bodyDone
  | destroyed
  deriving DecidableEq, Repr

/-- A caller is known by the place of its call among the keepalive calls. The last group
of fields records which callers were attached, and what was answered. -/
structure State (α : Type u) (Pool : Type v) where
  remote : Remote α Pool := {}
  life : Life := .alive
  /-- The caller that has found its session current, with a pointer to that. -/
  attaching : Option (Nat × Nat) := none
  arrived : Nat := 0
  attached : List (Nat × Nat) := []
  finished : List (Nat × Status) := []

inductive Label (Pool : Type v) where
  | newSession (resources : Pool)
  | shutdownSession (id : Nat)
  | enableSession
  | disableSession
  /-- A keepalive call arrives, and its caller compares session ids. -/
  | keepalive (id : Nat)
  | setKeepaliveCaller
  /-- The body of `~Remote`. -/
  | destroyBody
  /-- The members are destroyed, the gRPC server before the current session. -/
  | destroyMembers

namespace State

variable {α : Type u} {Pool : Type v}

def finish (s : State α Pool) (callers : List Nat) (status : Status) : State α Pool :=
  { s with finished := s.finished ++ callers.map fun caller => (caller, status) }

/-- An operation of `Remote`, and the calls it finishes. -/
def apply (s : State α Pool) (out : Remote α Pool × List Nat) : State α Pool :=
  { s with remote := out.1 }.finish out.2 ⟨.ok, ""⟩

/-- The completion-queue thread runs and is not in the middle of a call. -/
def isIdle (s : State α Pool) : Bool := s.attaching.isNone && s.life ≠ .destroyed

/-- `Proceed` in `kProcess`, up to the comparison. -/
def keepalive (s : State α Pool) (id : Nat) : State α Pool :=
  let caller := s.arrived
  let s := { s with arrived := s.arrived + 1 }
  match s.remote.currentSession with
  | some session =>
    if session.id ≠ id then s.finish [caller] .keepaliveRefused
    else { s with attaching := some (caller, session.id) }
  | none => s.finish [caller] .keepaliveRefused

/-- `SetKeepaliveCaller`, and what `Proceed` does after it. -/
def setKeepaliveCaller (s : State α Pool) : Option (State α Pool) :=
  s.attaching.bind fun (caller, sid) =>
    (s.remote.sessions.lookup sid).map fun session =>
      let s := { s with
        remote := s.remote.modify sid fun session => (session.setKeepaliveCaller caller).1
        attaching := none }
      if (session.setKeepaliveCaller caller).2 then
        { s with attached := s.attached ++ [(caller, sid)] }
      else s.finish [caller] .keepaliveRefused

def destroyBody (s : State α Pool) : State α Pool :=
  { s.apply { s.remote with broadcasting := false }.takeAway with life := .bodyDone }

def destroyMembers (s : State α Pool) : State α Pool :=
  { s with remote := { s.remote with current := none }, life := .destroyed }

def step (s : State α Pool) : Label Pool → Option (State α Pool)
  | .newSession resources =>
    if s.isIdle then some { s with remote := (s.remote.resetSession resources).1 } else none
  | .shutdownSession id => if s.isIdle then some (s.apply (s.remote.clearSession id)) else none
  | .enableSession =>
    if s.life = .alive then some { s with remote := s.remote.enableSession } else none
  | .disableSession => if s.life = .alive then some (s.apply s.remote.disableSession) else none
  | .keepalive id => if s.isIdle then some (s.keepalive id) else none
  | .setKeepaliveCaller => s.setKeepaliveCaller
  | .destroyBody => if s.life = .alive then some s.destroyBody else none
  | .destroyMembers =>
    if s.attaching = none ∧ s.life = .bodyDone then some s.destroyMembers else none

end State

def machine (α : Type u) (Pool : Type v) : Machine (State α Pool) (Label Pool) where
  init := {}
  step := State.step

-- ---------------------------------------------------------------------------
-- Accounts
-- ---------------------------------------------------------------------------

variable {α : Type u} {Pool : Type v} {s s' : State α Pool}

/-- The call has been answered. -/
def Answered (s : State α Pool) (caller : Nat) : Prop := caller ∈ s.finished.map Prod.fst

/-- No call is answered twice; of those attached to a session at most one waits for its
answer, and it has it by the time the session is not current any more; every other call
has been refused, except for one that is still in the hands of its caller. -/
structure AnsweredOnce (s : State α Pool) : Prop where
  once : (s.finished.map Prod.fst).Nodup
  alone : ∀ c c' sid, (c, sid) ∈ s.attached → (c', sid) ∈ s.attached →
    ¬ Answered s c → ¬ Answered s c' → c = c'
  ended : ∀ c sid, (c, sid) ∈ s.attached → s.remote.current ≠ some sid → (c, ⟨.ok, ""⟩) ∈ s.finished
  refused : ∀ c < s.arrived, (∀ sid, (c, sid) ∉ s.attached) → (∀ sid, s.attaching ≠ some (c, sid)) →
    (c, Status.keepaliveRefused) ∈ s.finished

structure Invariant (s : State α Pool) : Prop where
  wellFormed : s.remote.WellFormed
  holds : ∀ {sid session}, s.remote.sessions.lookup sid = some session →
    ∀ c, session.keepaliveCaller = some c ↔ (c, sid) ∈ s.attached ∧ ¬ Answered s c
  current : ∀ {sid session c}, s.remote.sessions.lookup sid = some session →
    session.keepaliveCaller = some c → s.remote.current = some sid
  attaching : ∀ {c sid}, s.attaching = some (c, sid) →
    c < s.arrived ∧ ¬ Answered s c ∧ (∀ sid, (c, sid) ∉ s.attached) ∧
      ∃ session, s.remote.sessions.lookup sid = some session ∧
        (s.remote.current = some sid ∨ session.active = false)
  attached : ∀ {c sid}, (c, sid) ∈ s.attached → c < s.arrived ∧ sid ∈ s.remote.sessions
  answered : ∀ c, Answered s c → c < s.arrived
  once : (s.finished.map Prod.fst).Nodup
  status : ∀ {c sid status}, (c, sid) ∈ s.attached → (c, status) ∈ s.finished → status = ⟨.ok, ""⟩
  refused : ∀ c < s.arrived, (∀ sid, (c, sid) ∉ s.attached) → (∀ sid, s.attaching ≠ some (c, sid)) →
    (c, Status.keepaliveRefused) ∈ s.finished

/-- A call that waits for its answer is attached to the current session. -/
theorem Invariant.waiting (h : Invariant s) {c sid : Nat} (hc : (c, sid) ∈ s.attached)
    (hopen : ¬ Answered s c) : ∃ session, s.remote.sessions.lookup sid = some session ∧
      session.keepaliveCaller = some c ∧ s.remote.current = some sid := by
  obtain ⟨session, hsession⟩ := Option.isSome_iff_exists.mp
    (AList.lookup_isSome.mpr (h.attached hc).2)
  have hheld := (h.holds hsession c).mpr ⟨hc, hopen⟩
  exact ⟨session, hsession, hheld, h.current hsession hheld⟩

theorem Invariant.answeredOnce (h : Invariant s) : AnsweredOnce s := by
  refine ⟨h.once, ?_, ?_, h.refused⟩
  · intro c c' sid hc hc' hopen hopen'
    obtain ⟨session, hsession, hheld, -⟩ := h.waiting hc hopen
    exact Option.some.inj (hheld.symm.trans ((h.holds hsession c').mpr ⟨hc', hopen'⟩))
  · intro c sid hc hcurrent
    have hanswered : Answered s c := by
      by_contra hopen
      obtain ⟨-, -, -, hcurrent'⟩ := h.waiting hc hopen
      exact hcurrent hcurrent'
    obtain ⟨⟨c', status⟩, hmem, rfl⟩ := List.mem_map.mp hanswered
    exact h.status hc hmem ▸ hmem

theorem invariant_init : Invariant ({} : State α Pool) where
  wellFormed := Remote.controlled_init.toWellFormed
  holds := nofun
  current := nofun
  attaching := nofun
  attached := nofun
  answered := nofun
  once := .nil
  status := nofun
  refused := nofun

/-- The flags of `Remote` and the progress of its destruction play no part. -/
theorem Invariant.of_eq (h : Invariant s) {r : Remote α Pool} {life : Life}
    (hcurrent : r.current = s.remote.current) (hsessions : r.sessions = s.remote.sessions)
    (hnextId : r.nextId = s.remote.nextId) : Invariant { s with remote := r, life := life } := by
  obtain ⟨enabled, broadcasting, current, nextId, sessions⟩ := r
  dsimp only at hcurrent hsessions hnextId
  subst hcurrent hsessions hnextId
  exact {
    wellFormed := ⟨h.wellFormed.ids, h.wellFormed.current⟩
    holds := h.holds
    current := h.current
    attaching := h.attaching
    attached := h.attached
    answered := h.answered
    once := h.once
    status := h.status
    refused := h.refused }

theorem mem_finish {callers : List Nat} {status status' : Status} {c : Nat} :
    (c, status') ∈ (s.finish callers status).finished ↔
      (c, status') ∈ s.finished ∨ c ∈ callers ∧ status' = status := by
  simp only [State.finish, List.mem_append, List.mem_map, Prod.mk.injEq]
  constructor
  · rintro (hold | ⟨c', hc', rfl, rfl⟩)
    · exact .inl hold
    · exact .inr ⟨hc', rfl⟩
  · rintro (hold | ⟨hc, rfl⟩)
    · exact .inl hold
    · exact .inr ⟨c, hc, rfl, rfl⟩

theorem answered_finish {callers : List Nat} {status : Status} {c : Nat} :
    Answered (s.finish callers status) c ↔ Answered s c ∨ c ∈ callers := by
  simp [Answered, State.finish]

theorem once_finish {callers : List Nat} {status : Status} (honce : (s.finished.map Prod.fst).Nodup)
    (hcallers : callers.Nodup) (hopen : ∀ c ∈ callers, ¬ Answered s c) :
    ((s.finish callers status).finished.map Prod.fst).Nodup := by
  have hmap : (callers.map fun caller => (caller, status)).map Prod.fst = callers := by
    rw [List.map_map]
    exact List.map_id callers
  rw [State.finish, List.map_append, hmap, List.nodup_append]
  refine ⟨honce, hcallers, ?_⟩
  rintro c hc c' hc' rfl
  exact hopen c hc' hc

theorem takeAway_of_current {r : Remote α Pool} {id : Nat} {session : Session α Pool}
    (hcurrent : r.current = some id) (hsession : r.sessions.lookup id = some session) :
    r.takeAway = ({ r.modify id (fun session => session.shutdown.1) with current := none },
      session.keepaliveCaller.toList) := by
  unfold Remote.takeAway
  rw [hcurrent]
  dsimp only
  rw [hsession]
  rfl

/-- The current session is shut down, and the call attached to it answered. -/
theorem Invariant.shutdownCurrent (h : Invariant s) {id : Nat} {session : Session α Pool}
    (hcurrent : s.remote.current = some id) (hsession : s.remote.sessions.lookup id = some session) :
    Invariant (s.apply ({ s.remote.modify id (fun session => session.shutdown.1) with current := none },
      session.keepaliveCaller.toList)) := by
  have hcaller : ∀ c ∈ session.keepaliveCaller.toList, (c, id) ∈ s.attached ∧ ¬ Answered s c :=
    fun c hc => (h.holds hsession c).mp (Option.mem_toList.mp hc)
  -- after it no session has a caller attached
  have hnone : ∀ {sid session'}, (s.remote.modify id fun session => session.shutdown.1).sessions.lookup
      sid = some session' → session'.keepaliveCaller = none := by
    intro sid session' hsession'
    rcases Remote.lookup_modify_cases hsession hsession' with ⟨-, rfl⟩ | ⟨hne, hold⟩
    · rfl
    · rw [Option.eq_none_iff_forall_ne_some]
      intro c hc
      exact hne (Option.some.inj ((h.current hold hc).symm.trans hcurrent))
  have hanswered : ∀ {c sid}, (c, sid) ∈ s.attached →
      Answered s c ∨ c ∈ session.keepaliveCaller.toList := by
    intro c sid hc
    rw [or_iff_not_imp_left]
    intro hopen
    obtain ⟨session', hsession', hheld, hcurrent'⟩ := h.waiting hc hopen
    obtain rfl := Option.some.inj (hcurrent'.symm.trans hcurrent)
    obtain rfl := Option.some.inj (hsession'.symm.trans hsession)
    exact Option.mem_toList.mpr hheld
  constructor
  · exact takeAway_of_current hcurrent hsession ▸ h.wellFormed.takeAway
  · intro sid session' hsession' c
    rw [hnone hsession', State.apply, answered_finish]
    constructor
    · exact nofun
    · rintro ⟨hc, hopen⟩
      exact absurd (hanswered hc) hopen
  · intro sid session' c hsession' hc
    rw [hnone hsession'] at hc
    cases hc
  · intro c sid hattaching
    obtain ⟨hbelow, hopen, hfree, session', hsession', hstate⟩ := h.attaching hattaching
    refine ⟨hbelow, ?_, hfree, ?_⟩
    · rw [State.apply, answered_finish]
      rintro (hold | hnew)
      · exact hopen hold
      · exact hfree id (hcaller c hnew).1
    · show ∃ session', (s.remote.modify id _).sessions.lookup sid = some session' ∧ _
      rw [Remote.lookup_modify, hsession]
      split
      · exact ⟨_, rfl, .inr rfl⟩
      · rename_i hne
        refine ⟨session', hsession', .inr (hstate.resolve_left fun hsid => ?_)⟩
        exact hne (Option.some.inj (hsid.symm.trans hcurrent))
  · exact fun hc => ⟨(h.attached hc).1, Remote.mem_modify _ (h.attached hc).2⟩
  · intro c hc
    rcases answered_finish.mp hc with hold | hnew
    · exact h.answered c hold
    · exact (h.attached (hcaller c hnew).1).1
  · exact once_finish h.once (Option.toList_nodup _) fun c hc => (hcaller c hc).2
  · intro c sid status hc hstatus
    rcases mem_finish.mp hstatus with hold | ⟨-, heq⟩
    · exact h.status hc hold
    · exact heq
  · intro c hc hfree hattaching
    exact mem_finish.mpr (.inl (h.refused c hc hfree hattaching))

theorem Invariant.takeAway (h : Invariant s) : Invariant (s.apply s.remote.takeAway) := by
  cases hcurrent : s.remote.current with
  | none =>
    have hsame : s.apply s.remote.takeAway = s := by
      unfold State.apply Remote.takeAway
      rw [hcurrent]
      exact congrArg (fun finished => { s with finished }) (List.append_nil s.finished)
    rw [hsame]
    exact h
  | some id =>
    obtain ⟨session, hsession, -⟩ := h.wellFormed.current id hcurrent
    rw [takeAway_of_current hcurrent hsession]
    exact h.shutdownCurrent hcurrent hsession

theorem Invariant.disableSession (h : Invariant s) : Invariant (s.apply s.remote.disableSession) := by
  have hflags : Invariant { s with remote :=
      { s.remote with sessionIsEnabled := false, broadcasting := false } } := h.of_eq rfl rfl rfl
  exact hflags.takeAway

theorem Invariant.clearSession (h : Invariant s) (id : Nat) :
    Invariant (s.apply (s.remote.clearSession id)) := by
  have hout : Invariant (s.apply (if s.remote.current = some id then s.remote.takeAway
      else (s.remote, []))) := by
    split
    · exact h.takeAway
    · have hsame : s.apply (s.remote, []) = s :=
        congrArg (fun finished => { s with finished }) (List.append_nil s.finished)
      rw [hsame]
      exact h
  exact hout.of_eq rfl rfl rfl

theorem Invariant.destroyBody (h : Invariant s) : Invariant s.destroyBody := by
  have hflags : Invariant { s with remote := { s.remote with broadcasting := false } } :=
    h.of_eq rfl rfl rfl
  exact hflags.takeAway.of_eq rfl rfl rfl

/-- No call is attached to the current session. -/
def NoCaller (r : Remote α Pool) : Prop :=
  ∀ session, r.currentSession = some session → session.keepaliveCaller = none

theorem Invariant.no_caller (h : Invariant s) (hnone : NoCaller s.remote) {sid : Nat}
    {session : Session α Pool} (hsession : s.remote.sessions.lookup sid = some session) :
    session.keepaliveCaller = none := by
  rw [Option.eq_none_iff_forall_ne_some]
  intro c hc
  have hcurrent : s.remote.currentSession = some session := by
    rw [Remote.currentSession, h.current hsession hc]
    exact hsession
  cases (hnone session hcurrent).symm.trans hc

theorem Invariant.destroyMembers (h : Invariant s) (hnone : NoCaller s.remote)
    (hidle : s.attaching = none) : Invariant s.destroyMembers where
  wellFormed := ⟨h.wellFormed.ids, nofun⟩
  holds := h.holds
  current := fun hsession hc => nomatch (h.no_caller hnone hsession).symm.trans hc
  attaching := fun hattaching => nomatch hidle.symm.trans hattaching
  attached := h.attached
  answered := h.answered
  once := h.once
  status := h.status
  refused := h.refused

theorem Invariant.newSession (h : Invariant s) (hnone : NoCaller s.remote)
    (hidle : s.attaching = none) (resources : Pool) :
    Invariant { s with remote := (s.remote.resetSession resources).1 } := by
  have hwellFormed := h.wellFormed.resetSession resources
  have hfresh := h.wellFormed.fresh
  unfold Remote.resetSession at hwellFormed ⊢
  split
  · rename_i henabled
    rw [if_pos henabled] at hwellFormed
    have hlookup : ∀ {sid session}, (s.remote.sessions.insert s.remote.nextId
        { id := s.remote.nextId, resources := resources }).lookup sid = some session →
          session.keepaliveCaller = none ∧ (sid ≠ s.remote.nextId →
            s.remote.sessions.lookup sid = some session) := by
      intro sid session hsession
      cases Decidable.em (sid = s.remote.nextId) with
      | inl heq =>
        rw [heq, AList.lookup_insert] at hsession
        cases hsession
        exact ⟨rfl, fun hne => absurd heq hne⟩
      | inr hne =>
        rw [AList.lookup_insert_ne hne] at hsession
        exact ⟨h.no_caller hnone hsession, fun _ => hsession⟩
    constructor
    · exact hwellFormed
    · intro sid session hsession c
      obtain ⟨hcaller, hold⟩ := hlookup hsession
      rw [hcaller]
      refine ⟨nofun, fun hc => ?_⟩
      have hne : sid ≠ s.remote.nextId := by
        rintro rfl
        exact hfresh (h.attached hc.1).2
      exact hcaller.symm.trans ((h.holds (hold hne) c).mpr hc)
    · intro sid session c hsession hc
      cases (hlookup hsession).1.symm.trans hc
    · exact fun hattaching => nomatch hidle.symm.trans hattaching
    · exact fun hc => ⟨(h.attached hc).1, (AList.mem_insert _).mpr (.inr (h.attached hc).2)⟩
    · exact h.answered
    · exact h.once
    · exact h.status
    · exact h.refused
  · exact h

/-- A call is refused that is attached to no session and not answered yet. -/
theorem Invariant.refuse (h : Invariant s) {r : Remote α Pool} {arrived caller : Nat}
    (hwellFormed : r.WellFormed) (hcurrent : r.current = s.remote.current)
    (hlookup : ∀ sid, r.sessions.lookup sid = s.remote.sessions.lookup sid) (hle : s.arrived ≤ arrived)
    (hbelow : caller < arrived) (hopen : ¬ Answered s caller) (hfree : ∀ sid, (caller, sid) ∉ s.attached)
    (hrefused : ∀ c < arrived, c ≠ caller → (∀ sid, (c, sid) ∉ s.attached) →
      (c, Status.keepaliveRefused) ∈ s.finished) :
    Invariant (({ s with remote := r, attaching := none, arrived } : State α Pool).finish [caller]
      .keepaliveRefused) := by
  constructor
  · exact hwellFormed
  · intro sid session hsession c
    rw [h.holds ((hlookup sid).symm.trans hsession) c]
    refine and_congr_right fun hc => not_congr ⟨fun hold => answered_finish.mpr (.inl hold), ?_⟩
    intro hor
    refine (answered_finish.mp hor).resolve_right fun hmem => ?_
    rw [List.mem_singleton.mp hmem] at hc
    exact hfree sid hc
  · intro sid session c hsession hc
    exact hcurrent.trans (h.current ((hlookup sid).symm.trans hsession) hc)
  · exact nofun
  · intro c sid hc
    obtain ⟨hattached, hmem⟩ := h.attached hc
    rw [← AList.lookup_isSome, ← hlookup, AList.lookup_isSome] at hmem
    exact ⟨Nat.lt_of_lt_of_le hattached hle, hmem⟩
  · intro c hc
    rcases answered_finish.mp hc with hold | hmem
    · exact Nat.lt_of_lt_of_le (h.answered c hold) hle
    · exact List.mem_singleton.mp hmem ▸ hbelow
  · exact once_finish h.once (List.nodup_singleton _) fun c hc => List.mem_singleton.mp hc ▸ hopen
  · intro c sid status hc hstatus
    rcases mem_finish.mp hstatus with hold | ⟨hmem, -⟩
    · exact h.status hc hold
    · rw [List.mem_singleton.mp hmem] at hc
      exact absurd hc (hfree sid)
  · intro c hc hfree' _
    cases Decidable.em (c = caller) with
    | inl hcaller => exact mem_finish.mpr (.inr ⟨List.mem_singleton.mpr hcaller, rfl⟩)
    | inr hne => exact mem_finish.mpr (.inl (hrefused c hc hne hfree'))

/-- The call is refused as soon as its turn comes. -/
theorem Invariant.refuseAtOnce (h : Invariant s) (hidle : s.attaching = none) :
    Invariant ({ s with arrived := s.arrived + 1 }.finish [s.arrived] .keepaliveRefused) := by
  have hrefused := h.refuse h.wellFormed rfl (fun _ => rfl) (Nat.le_succ s.arrived)
    (Nat.lt_succ_self s.arrived) (fun hold => Nat.lt_irrefl _ (h.answered _ hold))
    (fun sid hc => Nat.lt_irrefl _ (h.attached hc).1) fun c hc hne hfree =>
      h.refused c (Nat.lt_of_le_of_ne (Nat.le_of_lt_succ hc) hne) hfree fun sid heq =>
        nomatch hidle.symm.trans heq
  rw [← hidle] at hrefused
  exact hrefused

theorem Invariant.keepalive (h : Invariant s) (hidle : s.attaching = none) (id : Nat) :
    Invariant (s.keepalive id) := by
  unfold State.keepalive
  dsimp only
  split
  · rename_i session hcurrent
    split
    · exact h.refuseAtOnce hidle
    · obtain ⟨sid, hsid, hsession⟩ := Option.bind_eq_some_iff.mp hcurrent
      obtain ⟨rfl, -⟩ := h.wellFormed.ids sid session hsession
      have hopen : ¬ Answered s s.arrived := fun hold => Nat.lt_irrefl _ (h.answered _ hold)
      constructor
      · exact h.wellFormed
      · exact h.holds
      · exact h.current
      · rintro c sid ⟨⟩
        exact ⟨Nat.lt_succ_self _, hopen, fun sid hc => Nat.lt_irrefl _ (h.attached hc).1,
          session, hsession, .inl hsid⟩
      · exact fun hc => ⟨Nat.lt_succ_of_lt (h.attached hc).1, (h.attached hc).2⟩
      · exact fun c hc => Nat.lt_succ_of_lt (h.answered c hc)
      · exact h.once
      · exact h.status
      · intro c hc hfree hattaching
        cases Nat.lt_succ_iff_lt_or_eq.mp hc with
        | inl hlt => exact h.refused c hlt hfree fun sid heq => nomatch hidle.symm.trans heq
        | inr heq => exact absurd (congrArg (fun c => some (c, session.id)) heq.symm) (hattaching _)
  · exact h.refuseAtOnce hidle

/-- All calls that are neither attached nor in the hands of a caller have been refused. -/
theorem Invariant.refused_of_ne (h : Invariant s) {caller sid : Nat}
    (hattaching : s.attaching = some (caller, sid)) :
    ∀ c < s.arrived, c ≠ caller → (∀ sid, (c, sid) ∉ s.attached) →
      (c, Status.keepaliveRefused) ∈ s.finished := by
  intro c hc hne hfree
  refine h.refused c hc hfree fun sid' heq => hne ?_
  cases hattaching.symm.trans heq
  rfl

theorem Invariant.modify_setKeepaliveCaller (h : Invariant s) (sid caller : Nat) :
    (s.remote.modify sid fun session => (session.setKeepaliveCaller caller).1).WellFormed :=
  h.wellFormed.modify sid (fun _ => Session.id_setKeepaliveCaller)
    fun _ _ hactive => Session.active_setKeepaliveCaller.trans hactive

/-- The call is attached to its session, which no other call is attached to. -/
theorem Invariant.attach (h : Invariant s) {caller sid : Nat} {session : Session α Pool}
    (hattaching : s.attaching = some (caller, sid)) (hsession : s.remote.sessions.lookup sid = some session)
    (hactive : session.active) (hnone : session.keepaliveCaller = none)
    (heq : session.setKeepaliveCaller caller = ({ session with keepaliveCaller := some caller }, true)) :
    Invariant { s with
      remote := s.remote.modify sid fun session => (session.setKeepaliveCaller caller).1
      attaching := none
      attached := s.attached ++ [(caller, sid)] } := by
  obtain ⟨hbelow, hopen, hfree, session', hsession', hstate⟩ := h.attaching hattaching
  obtain rfl := Option.some.inj (hsession.symm.trans hsession')
  -- only a session that is still current can be active
  have hcurrent : s.remote.current = some sid := by
    refine hstate.resolve_right fun hinactive => ?_
    rw [hinactive] at hactive
    cases hactive
  have hlookup : ∀ {sid' session''}, (s.remote.modify sid fun session =>
      (session.setKeepaliveCaller caller).1).sessions.lookup sid' = some session'' →
        (sid' = sid ∧ session''.keepaliveCaller = some caller) ∨
          (sid' ≠ sid ∧ s.remote.sessions.lookup sid' = some session'') := by
    intro sid' session'' hsession''
    rcases Remote.lookup_modify_cases hsession hsession'' with ⟨hsid, rfl⟩ | hother
    · exact .inl ⟨hsid, by rw [heq]⟩
    · exact .inr hother
  -- nothing else is attached to it
  have halone : ∀ c, (c, sid) ∈ s.attached → Answered s c := by
    intro c hc
    by_contra hopen'
    cases hnone.symm.trans ((h.holds hsession c).mpr ⟨hc, hopen'⟩)
  have hattached : ∀ {c sid'}, (c, sid') ∈ s.attached ++ [(caller, sid)] ↔
      (c, sid') ∈ s.attached ∨ c = caller ∧ sid' = sid := by
    intro c sid'
    rw [List.mem_append, List.mem_singleton, Prod.mk.injEq]
  constructor
  · exact h.modify_setKeepaliveCaller sid caller
  · intro sid' session'' hsession'' c
    show _ ↔ (c, sid') ∈ s.attached ++ [(caller, sid)] ∧ ¬ Answered s c
    rw [hattached]
    rcases hlookup hsession'' with ⟨rfl, hcaller⟩ | ⟨hne, hold⟩
    · rw [hcaller]
      constructor
      · rintro ⟨⟩
        exact ⟨.inr ⟨rfl, rfl⟩, hopen⟩
      · rintro ⟨hc, hopen'⟩
        rcases hc with hc | ⟨rfl, -⟩
        · exact absurd (halone c hc) hopen'
        · rfl
    · rw [h.holds hold c]
      refine and_congr_left fun _ => ⟨.inl, fun hor => hor.resolve_right ?_⟩
      exact fun hc => hne hc.2
  · intro sid' session'' c hsession'' hc
    refine (Remote.current_modify ..).trans ?_
    rcases hlookup hsession'' with ⟨rfl, -⟩ | ⟨-, hold⟩
    · exact hcurrent
    · exact h.current hold hc
  · exact nofun
  · intro c sid' hc
    rcases hattached.mp hc with hc | ⟨rfl, rfl⟩
    · exact ⟨(h.attached hc).1, Remote.mem_modify _ (h.attached hc).2⟩
    · exact ⟨hbelow, Remote.mem_modify _ (AList.lookup_isSome.mp (hsession ▸ rfl))⟩
  · exact h.answered
  · exact h.once
  · intro c sid' status hc hstatus
    rcases hattached.mp hc with hc | ⟨rfl, rfl⟩
    · exact h.status hc hstatus
    · exact absurd (List.mem_map_of_mem hstatus) hopen
  · intro c hc hfree' _
    have hfree'' : ∀ sid', (c, sid') ∉ s.attached ∧ ¬ (c = caller ∧ sid' = sid) :=
      fun sid' => not_or.mp fun hor => hfree' sid' (hattached.mpr hor)
    exact h.refused_of_ne hattaching c hc (fun hne => (hfree'' sid).2 ⟨hne, rfl⟩) fun sid' => (hfree'' sid').1

theorem Invariant.setKeepaliveCaller (h : Invariant s) (hstep : s.setKeepaliveCaller = some s') :
    Invariant s' := by
  obtain ⟨⟨caller, sid⟩, hattaching, hstep⟩ := Option.bind_eq_some_iff.mp hstep
  obtain ⟨session, hsession, rfl⟩ := Option.map_eq_some_iff.mp hstep
  obtain ⟨hbelow, hopen, hfree, -⟩ := h.attaching hattaching
  dsimp only
  rcases Session.setKeepaliveCaller_cases session caller with heq | ⟨hactive, hnone, heq⟩
  · -- the session has been shut down, or another call is attached
    have hlookup : ∀ sid', (s.remote.modify sid fun session =>
        (session.setKeepaliveCaller caller).1).sessions.lookup sid' =
          s.remote.sessions.lookup sid' := by
      intro sid'
      rw [Remote.lookup_modify]
      split
      · rename_i hsid
        rw [hsid, hsession, Option.map_some, heq]
      · rfl
    rw [heq, if_neg Bool.false_ne_true]
    exact h.refuse (h.modify_setKeepaliveCaller sid caller) (Remote.current_modify ..) hlookup
      (Nat.le_refl _) hbelow hopen hfree (h.refused_of_ne hattaching)
  · rw [heq, if_pos rfl]
    exact h.attach hattaching hsession hactive hnone heq

/-- A `New` that is accepted finds no call attached to the session it replaces, and neither
does the destructor of the pointer to the current session. -/
def LeavesNoCaller (s : State α Pool) : Label Pool → Prop
  | .newSession _ | .destroyMembers => NoCaller s.remote
  | _ => True

theorem Invariant.step (h : Invariant s) {l : Label Pool} (hl : LeavesNoCaller s l)
    (hstep : s.step l = some s') : Invariant s' := by
  have hidle : s.isIdle → s.attaching = none :=
    fun hidle => Option.isNone_iff_eq_none.mp (Bool.and_eq_true_iff.mp hidle).1
  cases l with
  | setKeepaliveCaller => exact h.setKeepaliveCaller hstep
  | newSession resources =>
    obtain ⟨hcq, hstep⟩ := Option.ite_none_right_eq_some.mp hstep
    cases hstep
    exact h.newSession hl (hidle hcq) resources
  | shutdownSession id =>
    obtain ⟨-, hstep⟩ := Option.ite_none_right_eq_some.mp hstep
    cases hstep
    exact h.clearSession id
  | enableSession =>
    obtain ⟨-, hstep⟩ := Option.ite_none_right_eq_some.mp hstep
    cases hstep
    exact h.of_eq rfl rfl rfl
  | disableSession =>
    obtain ⟨-, hstep⟩ := Option.ite_none_right_eq_some.mp hstep
    cases hstep
    exact h.disableSession
  | keepalive id =>
    obtain ⟨hcq, hstep⟩ := Option.ite_none_right_eq_some.mp hstep
    cases hstep
    exact h.keepalive (hidle hcq) id
  | destroyBody =>
    obtain ⟨-, hstep⟩ := Option.ite_none_right_eq_some.mp hstep
    cases hstep
    exact h.destroyBody
  | destroyMembers =>
    obtain ⟨hdone, hstep⟩ := Option.ite_none_right_eq_some.mp hstep
    cases hstep
    exact h.destroyMembers hl hdone.1

theorem keepaliveAnswered_run {ls : List (Label Pool)}
    (halong : (machine α Pool).Along LeavesNoCaller ls) (hrun : (machine α Pool).run ls = some s) :
    AnsweredOnce s := by
  have hinvariant : Invariant s :=
    halong.invariant invariant_init (fun _ _ _ h hl hstep => h.step hl hstep) hrun
  exact hinvariant.answeredOnce

/-- The session is shut down while a call is attached, then replaced. -/
def shutDownAndReplaced : List (Label Unit) :=
  [.enableSession, .newSession (), .keepalive 1, .setKeepaliveCaller, .shutdownSession 1,
    .newSession (), .keepalive 1]

theorem keepaliveAnswered_shutDownAndReplaced :
    ∃ s, (machine Unit Unit).run shutDownAndReplaced = some s ∧ AnsweredOnce s := by
  obtain ⟨s, hrun⟩ : ∃ s, (machine Unit Unit).run shutDownAndReplaced = some s := ⟨_, rfl⟩
  have halong : (machine Unit Unit).Along LeavesNoCaller shutDownAndReplaced :=
    ⟨trivial, nofun, trivial, trivial, trivial, nofun, trivial, trivial⟩
  exact ⟨s, hrun, keepaliveAnswered_run halong hrun⟩

/-- The session is replaced while a call is attached. -/
def replacedWhileAttached : List (Label Unit) :=
  [.enableSession, .newSession (), .keepalive 1, .setKeepaliveCaller, .newSession ()]

/-- A session that is created after the body of the destructor. -/
def createdWhileDestroyed : List (Label Unit) :=
  [.enableSession, .destroyBody, .newSession (), .keepalive 1, .setKeepaliveCaller, .destroyMembers]

theorem not_answeredOnce_replacedWhileAttached :
    (∃ s, (machine Unit Unit).run replacedWhileAttached = some s ∧ ¬ AnsweredOnce s) ∧
      ∃ s, (machine Unit Unit).run createdWhileDestroyed = some s ∧ ¬ AnsweredOnce s := by
  refine ⟨⟨_, rfl, fun h => ?_⟩, ⟨_, rfl, fun h => ?_⟩⟩
  · cases h.ended 0 1 (.head _) (by decide)
  · cases h.ended 0 1 (.head _) (by decide)

end Keepalive

end ZenRemote.Client
