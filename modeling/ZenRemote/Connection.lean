-- SUMMARY: Servers connect to one client: the messages between them, and what can end a session that is current.
import Mathlib.Logic.Function.Basic
import ZenRemote.Client.Keepalive

/-!
# Connections

Any number of server sessions connect to one client. Each calls `New`, then `Keepalive`
with the id it has been given, and `Shutdown` when it is destroyed. Calls and responses
arrive in any order, if at all.
-/

namespace ZenRemote

open Client (Status)

universe u v

namespace Connection

/-- The keepalive call of a server session. -/
inductive Call where
  | notStarted
  | pending
  | answered
  | failed
  deriving DecidableEq, Repr

/-- `connected` is `connected_`. A session whose `Connect` has failed is as a new one, so
that its next attempt counts as another session. -/
inductive Phase where
  | fresh
  /-- In `Connect`, before the response to `New`. -/
  | connecting
  | failed
  | connected
  | disconnected
  | destroyed
  deriving DecidableEq, Repr

/-- What is on its way, with the number of the server session that it comes from or goes
to. A response to `New` has no id when the call is aborted. -/
inductive Message where
  | new (p : Nat)
  | newResponse (p : Nat) (id : Option Nat)
  | keepalive (p id : Nat)
  | keepaliveResponse (p : Nat) (status : Status)
  | shutdown (p id : Nat)
  deriving DecidableEq, Repr

/-- A server session. -/
structure Session where
  phase : Phase := .fresh
  id : Nat := 0
  keepalive : Call := .notStarted
  /-- The control pipe has been written to. -/
  notified : Bool := false

inductive Session.Label where
  | connect
  /-- `New` fails on the way there or back. -/
  | connectFails
  /-- The job that `StartKeepalive` has pushed. -/
  | startKeepalive
  | keepaliveFails
  /-- Another call of the session fails. -/
  | callFails
  | handleControlEvent
  | destroy

namespace Session

/-- A channel writes to the control pipe as long as it has not been disabled. -/
def notifyDisconnection (x : Session) : Session :=
  if x.phase = .connected then { x with notified := true } else x

def newReturned (x : Session) (id : Option Nat) : Session :=
  if x.phase = .connecting then
    match id with
    | some id => { x with phase := .connected, id }
    | none => { x with phase := .failed }
  else x

/-- The callback of the keepalive call, whatever has become of it. -/
def keepaliveReturned (x : Session) (outcome : Call) : Session :=
  if x.keepalive = .pending then { x with keepalive := outcome }.notifyDisconnection else x

/-- What session number `p` does next, and what it sends. -/
def step (p : Nat) (x : Session) : Label → Option (Session × List Message)
  | .connect => if x.phase = .fresh then some ({ x with phase := .connecting }, [.new p]) else none
  | .connectFails => if x.phase = .connecting then some ({ x with phase := .failed }, []) else none
  | .startKeepalive =>
    if x.phase = .connected ∧ x.keepalive = .notStarted then
      some ({ x with keepalive := .pending }, [.keepalive p x.id])
    else none
  | .keepaliveFails => some (x.keepaliveReturned .failed, [])
  | .callFails => some (x.notifyDisconnection, [])
  | .handleControlEvent =>
    if x.phase = .connected ∧ x.notified then some ({ x with phase := .disconnected }, []) else none
  | .destroy =>
    if x.phase = .connecting ∨ x.phase = .destroyed then none
    else some ({ x with phase := .destroyed }, if x.id ≠ 0 then [.shutdown p x.id] else [])

end Session

/-- Next to the parties and the messages in flight, the state records which server session
each id has been given to, from 1 on, and which one each keepalive call comes from. -/
structure State (α : Type u) (Pool : Type v) where
  sessions : Nat → Session := fun _ => {}
  network : List Message := []
  client : Client.Keepalive.State α Pool := {}
  accepted : List Nat := []
  callers : List Nat := []

inductive Label (Pool : Type v) where
  | session (p : Nat) (l : Session.Label)
  | client (l : Client.Keepalive.Label Pool)
  | deliver (m : Message)
  | lose (m : Message)

/-- The steps that the client takes of itself. -/
def isOwn {Pool : Type v} : Client.Keepalive.Label Pool → Bool
  | .newSession _ | .shutdownSession _ | .keepalive _ => false
  | .enableSession | .disableSession | .setKeepaliveCaller | .destroyBody | .destroyMembers => true

namespace State

variable {α : Type u} {Pool : Type v}

def update (s : State α Pool) (p : Nat) (x : Session) : State α Pool :=
  { s with sessions := Function.update s.sessions p x }

def send (s : State α Pool) (messages : List Message) : State α Pool :=
  { s with network := s.network ++ messages }

/-- The responses to the keepalive calls that have been finished. -/
def responses (s : State α Pool) (finished : List (Nat × Status)) : List Message :=
  finished.flatMap fun (caller, status) =>
    s.callers[caller]?.toList.map fun p => .keepaliveResponse p status

/-- The client has taken a step, and answers the calls that are finished by it. -/
def turn (s : State α Pool) (client : Client.Keepalive.State α Pool) : State α Pool :=
  { s with client }.send (s.responses (client.finished.drop s.client.finished.length))

/-- A new session begins with the resources `pool`. -/
def receive (pool : Pool) (s : State α Pool) : Message → Option (State α Pool)
  | .new p =>
    let id := (s.client.remote.resetSession pool).2
    (s.client.step (.newSession pool)).map fun client =>
      { s.turn client with accepted := s.accepted ++ id.toList.map fun _ => p }.send
        [.newResponse p id]
  | .newResponse p id => some (s.update p ((s.sessions p).newReturned id))
  | .keepalive p id => (s.client.step (.keepalive id)).map { s with callers := s.callers ++ [p] }.turn
  | .keepaliveResponse p _ => some (s.update p ((s.sessions p).keepaliveReturned .answered))
  | .shutdown _ id => (s.client.step (.shutdownSession id)).map s.turn

def step (pool : Pool) (s : State α Pool) : Label Pool → Option (State α Pool)
  | .session p l => ((s.sessions p).step p l).map fun (x, messages) => (s.update p x).send messages
  | .client l => if isOwn l then (s.client.step l).map s.turn else none
  | .deliver m =>
    if m ∈ s.network then { s with network := s.network.erase m }.receive pool m else none
  | .lose m => if m ∈ s.network then some { s with network := s.network.erase m } else none

end State

def machine (α : Type u) {Pool : Type v} (pool : Pool) : Machine (State α Pool) (Label Pool) where
  init := {}
  step := State.step pool

variable {α : Type u} {Pool : Type v} {pool : Pool} {s s' : State α Pool} {p q id : Nat} {x y : Session}
  {messages : List Message} {c c' : Client.Keepalive.State α Pool} {l : Client.Keepalive.Label Pool}

/-- All that a server session can do. -/
inductive Session.Stepped (p : Nat) (x : Session) : Session.Label → Session → List Message → Prop
  | connect (hphase : x.phase = .fresh) :
      Stepped p x .connect { x with phase := .connecting } [.new p]
  | connectFails (hphase : x.phase = .connecting) :
      Stepped p x .connectFails { x with phase := .failed } []
  | startKeepalive (hphase : x.phase = .connected) (hcall : x.keepalive = .notStarted) :
      Stepped p x .startKeepalive { x with keepalive := .pending } [.keepalive p x.id]
  | keepaliveFails : Stepped p x .keepaliveFails (x.keepaliveReturned .failed) []
  | callFails : Stepped p x .callFails x.notifyDisconnection []
  | handleControlEvent (hphase : x.phase = .connected) (hnotified : x.notified) :
      Stepped p x .handleControlEvent { x with phase := .disconnected } []
  | destroy (hphase : ¬ (x.phase = .connecting ∨ x.phase = .destroyed)) :
      Stepped p x .destroy { x with phase := .destroyed } (if x.id ≠ 0 then [.shutdown p x.id] else [])

theorem Session.step_cases {l : Session.Label} (hstep : x.step p l = some (y, messages)) :
    Session.Stepped p x l y messages := by
  cases l with
  | connect =>
    obtain ⟨hphase, hstep⟩ := Option.ite_none_right_eq_some.mp hstep
    cases hstep
    exact .connect hphase
  | connectFails =>
    obtain ⟨hphase, hstep⟩ := Option.ite_none_right_eq_some.mp hstep
    cases hstep
    exact .connectFails hphase
  | startKeepalive =>
    obtain ⟨⟨hphase, hcall⟩, hstep⟩ := Option.ite_none_right_eq_some.mp hstep
    cases hstep
    exact .startKeepalive hphase hcall
  | keepaliveFails =>
    cases hstep
    exact .keepaliveFails
  | callFails =>
    cases hstep
    exact .callFails
  | handleControlEvent =>
    obtain ⟨⟨hphase, hnotified⟩, hstep⟩ := Option.ite_none_right_eq_some.mp hstep
    cases hstep
    exact .handleControlEvent hphase hnotified
  | destroy =>
    obtain ⟨hphase, hstep⟩ := Option.ite_none_left_eq_some.mp hstep
    cases hstep
    exact .destroy hphase

/-- All that the arrival of a message can do. -/
inductive Received (pool : Pool) (s : State α Pool) : Message → State α Pool → Prop
  | new {p : Nat} {c : Client.Keepalive.State α Pool} (hc : s.client.step (.newSession pool) = some c) :
      Received pool s (.new p) (State.send { s.turn c with
        accepted := s.accepted ++ (s.client.remote.resetSession pool).2.toList.map fun _ => p }
        [.newResponse p (s.client.remote.resetSession pool).2])
  | newResponse (p : Nat) (id : Option Nat) :
      Received pool s (.newResponse p id) (s.update p ((s.sessions p).newReturned id))
  | keepalive {p id : Nat} {c : Client.Keepalive.State α Pool}
      (hc : s.client.step (.keepalive id) = some c) :
      Received pool s (.keepalive p id) (State.turn { s with callers := s.callers ++ [p] } c)
  | keepaliveResponse (p : Nat) (status : Status) :
      Received pool s (.keepaliveResponse p status)
        (s.update p ((s.sessions p).keepaliveReturned .answered))
  | shutdown {p id : Nat} {c : Client.Keepalive.State α Pool}
      (hc : s.client.step (.shutdownSession id) = some c) :
      Received pool s (.shutdown p id) (s.turn c)

theorem receive_cases {m : Message} (h : s.receive pool m = some s') : Received pool s m s' := by
  cases m with
  | new p =>
    obtain ⟨c, hc, rfl⟩ := Option.map_eq_some_iff.mp h
    exact .new hc
  | newResponse p id => exact Option.some.inj h ▸ .newResponse p id
  | keepalive p id =>
    obtain ⟨c, hc, rfl⟩ := Option.map_eq_some_iff.mp h
    exact .keepalive hc
  | keepaliveResponse p status => exact Option.some.inj h ▸ .keepaliveResponse p status
  | shutdown p id =>
    obtain ⟨c, hc, rfl⟩ := Option.map_eq_some_iff.mp h
    exact .shutdown hc

/-- All that a step can do. -/
inductive Stepped (pool : Pool) (s : State α Pool) : Label Pool → State α Pool → Prop
  | session {p : Nat} {l : Session.Label} {x : Session} {messages : List Message}
      (hx : (s.sessions p).step p l = some (x, messages)) :
      Stepped pool s (.session p l) ((s.update p x).send messages)
  | client {l : Client.Keepalive.Label Pool} {c : Client.Keepalive.State α Pool} (hown : isOwn l)
      (hc : s.client.step l = some c) : Stepped pool s (.client l) (s.turn c)
  | deliver {m : Message} {s' : State α Pool} (hm : m ∈ s.network)
      (hs' : Received pool { s with network := s.network.erase m } m s') :
      Stepped pool s (.deliver m) s'
  | lose {m : Message} (hm : m ∈ s.network) :
      Stepped pool s (.lose m) { s with network := s.network.erase m }

theorem step_cases {l : Label Pool} (h : (machine α pool).step s l = some s') : Stepped pool s l s' := by
  cases l with
  | session p l =>
    obtain ⟨⟨x, messages⟩, hx, rfl⟩ := Option.map_eq_some_iff.mp h
    exact .session hx
  | client l =>
    obtain ⟨hown, h⟩ := Option.ite_none_right_eq_some.mp h
    obtain ⟨c, hc, rfl⟩ := Option.map_eq_some_iff.mp h
    exact .client hown hc
  | deliver m =>
    obtain ⟨hm, h⟩ := Option.ite_none_right_eq_some.mp h
    exact .deliver hm (receive_cases h)
  | lose m =>
    obtain ⟨hm, h⟩ := Option.ite_none_right_eq_some.mp h
    exact Option.some.inj h ▸ .lose hm

-- ---------------------------------------------------------------------------
-- The current session
-- ---------------------------------------------------------------------------

/-- The operations that take the session `id` away. -/
def Ends (id : Nat) : Client.Keepalive.Label Pool → Prop
  | .shutdownSession id' => id' = id
  | .disableSession | .destroyBody | .destroyMembers => True
  | .newSession _ | .enableSession | .keepalive _ | .setKeepaliveCaller => False

/-- All that a step of the client can do to the current session. -/
inductive Turned (r r' : Client.Remote α Pool) : Client.Keepalive.Label Pool → Prop
  | kept {l : Client.Keepalive.Label Pool} (hcurrent : r'.current = r.current)
      (hnextId : r'.nextId = r.nextId)
      (hrefused : ∀ resources, l = .newSession resources → (r.resetSession resources).2 = none) :
      Turned r r' l
  | ended {l : Client.Keepalive.Label Pool} (hends : ∀ id, r.current = some id → Ends id l)
      (hcurrent : r'.current = none) (hnextId : r'.nextId = r.nextId)
      (hl : ∀ resources, l ≠ .newSession resources) : Turned r r' l
  | began {resources : Pool} (hid : (r.resetSession resources).2 = some r.nextId)
      (hcurrent : r'.current = some r.nextId) (hnextId : r'.nextId = r.nextId + 1) :
      Turned r r' (.newSession resources)

theorem turned_step (hstep : c.step l = some c') : Turned c.remote c'.remote l := by
  cases l with
  | newSession resources =>
    obtain ⟨-, hstep⟩ := Option.ite_none_right_eq_some.mp hstep
    cases hstep
    by_cases henabled : c.remote.sessionIsEnabled
    · refine .began ?_ ?_ ?_
      · rw [Client.Remote.resetSession, if_pos henabled]
      · simp only [Client.Remote.resetSession, if_pos henabled]
      · simp only [Client.Remote.resetSession, if_pos henabled]
    · have hrefused : ∀ resources, c.remote.resetSession resources = (c.remote, none) :=
        fun _ => if_neg henabled
      refine .kept ?_ ?_ fun resources _ => by rw [hrefused]
      · simp only [hrefused]
      · simp only [hrefused]
  | shutdownSession id =>
    obtain ⟨-, hstep⟩ := Option.ite_none_right_eq_some.mp hstep
    cases hstep
    have hcurrent : (c.remote.clearSession id).1.current = _ := Client.Remote.current_clearSession id
    have hnextId : (c.remote.clearSession id).1.nextId = _ := Client.Remote.nextId_clearSession id
    by_cases hid : c.remote.current = some id
    · rw [if_pos hid] at hcurrent
      exact .ended (fun id' hid' => Option.some.inj (hid.symm.trans hid')) hcurrent hnextId (by simp)
    · rw [if_neg hid] at hcurrent
      exact .kept hcurrent hnextId fun _ => by simp
  | enableSession =>
    obtain ⟨-, hstep⟩ := Option.ite_none_right_eq_some.mp hstep
    cases hstep
    exact .kept rfl rfl fun _ => by simp
  | disableSession =>
    obtain ⟨-, hstep⟩ := Option.ite_none_right_eq_some.mp hstep
    cases hstep
    exact .ended (fun _ _ => trivial) Client.Remote.current_takeAway Client.Remote.nextId_takeAway (by simp)
  | keepalive id =>
    obtain ⟨-, hstep⟩ := Option.ite_none_right_eq_some.mp hstep
    cases hstep
    have hremote : (c.keepalive id).remote = c.remote := by
      unfold Client.Keepalive.State.keepalive
      dsimp only
      split
      · split
        · rfl
        · rfl
      · rfl
    exact .kept (by rw [hremote]) (by rw [hremote]) fun _ => by simp
  | setKeepaliveCaller =>
    obtain ⟨⟨caller, sid⟩, -, hstep⟩ := Option.bind_eq_some_iff.mp hstep
    obtain ⟨session, -, rfl⟩ := Option.map_eq_some_iff.mp hstep
    dsimp only
    split
    · exact .kept (Client.Remote.current_modify ..) (Client.Remote.nextId_modify ..) fun _ => by simp
    · exact .kept (Client.Remote.current_modify ..) (Client.Remote.nextId_modify ..) fun _ => by simp
  | destroyBody =>
    obtain ⟨-, hstep⟩ := Option.ite_none_right_eq_some.mp hstep
    cases hstep
    exact .ended (fun _ _ => trivial) Client.Remote.current_takeAway Client.Remote.nextId_takeAway (by simp)
  | destroyMembers =>
    obtain ⟨-, hstep⟩ := Option.ite_none_right_eq_some.mp hstep
    cases hstep
    exact .ended (fun _ _ => trivial) rfl rfl (by simp)

-- ---------------------------------------------------------------------------
-- Ids and their owners
-- ---------------------------------------------------------------------------

/-- The id has been given to server session `p`. -/
def Owner (accepted : List Nat) (id p : Nat) : Prop := id ≠ 0 ∧ accepted[id - 1]? = some p

section Owner

variable {accepted : List Nat}

theorem Owner.append (h : Owner accepted id p) (more : List Nat) : Owner (accepted ++ more) id p := by
  obtain ⟨hid, hp⟩ := h
  obtain ⟨hlt, -⟩ := List.getElem?_eq_some_iff.mp hp
  exact ⟨hid, (List.getElem?_append_left hlt).trans hp⟩

theorem Owner.unique (h : Owner accepted id p) (h' : Owner accepted id q) : p = q :=
  Option.some.inj (h.2.symm.trans h'.2)

theorem owner_next : Owner (accepted ++ [p]) (accepted.length + 1) p :=
  ⟨Nat.succ_ne_zero _, List.getElem?_concat_length⟩

theorem exists_owner (hpos : id ≠ 0) (hle : id ≤ accepted.length) : ∃ p, Owner accepted id p :=
  ⟨accepted[id - 1], hpos, List.getElem?_eq_getElem (by omega)⟩

end Owner

/-- An id that the message carries is that of the server session. -/
def Authorized (accepted : List Nat) : Message → Prop
  | .newResponse p (some id) | .keepalive p id | .shutdown p id => Owner accepted id p
  | .new _ | .newResponse _ none | .keepaliveResponse _ _ => True

/-- Whoever has an id, has been given it; the current session is one that has begun. -/
structure Fenced (s : State α Pool) : Prop where
  nextId : s.client.remote.nextId = s.accepted.length + 1
  current : ∀ id, s.client.remote.current = some id → id ≠ 0 ∧ id ≤ s.accepted.length
  sessions : ∀ p, (s.sessions p).phase = .connected ∨ (s.sessions p).id ≠ 0 →
    Owner s.accepted (s.sessions p).id p
  messages : ∀ m ∈ s.network, Authorized s.accepted m

theorem fenced_init : Fenced ({} : State α Pool) where
  nextId := rfl
  current := by simp
  sessions := by
    rintro p (hphase | hid)
    · cases hphase
    · exact absurd rfl hid
  messages := by simp

theorem Authorized.append {accepted : List Nat} {m : Message} (h : Authorized accepted m)
    (more : List Nat) : Authorized (accepted ++ more) m := by
  unfold Authorized at h ⊢
  split
  · exact Owner.append h more
  · exact Owner.append h more
  · exact Owner.append h more
  · trivial
  · trivial
  · trivial

/-- A client that takes a step adds responses to keepalive calls, which carry no id. -/
theorem mem_turn {m : Message} (hm : m ∈ (s.turn c).network) :
    m ∈ s.network ∨ ∃ p status, m = .keepaliveResponse p status := by
  refine (List.mem_append.mp hm).imp_right fun hm => ?_
  obtain ⟨⟨caller, status⟩, -, hm⟩ := List.mem_flatMap.mp hm
  obtain ⟨p, -, rfl⟩ := List.mem_map.mp hm
  exact ⟨p, status, rfl⟩

theorem sessions_update : (s.update p x).sessions q = if q = p then x else s.sessions q :=
  Function.update_apply ..

@[simp] theorem phase_notifyDisconnection : x.notifyDisconnection.phase = x.phase := by
  unfold Session.notifyDisconnection
  split
  · rfl
  · rfl

@[simp] theorem id_notifyDisconnection : x.notifyDisconnection.id = x.id := by
  unfold Session.notifyDisconnection
  split
  · rfl
  · rfl

@[simp] theorem phase_keepaliveReturned (outcome : Call) :
    (x.keepaliveReturned outcome).phase = x.phase := by
  unfold Session.keepaliveReturned
  split
  · exact phase_notifyDisconnection
  · rfl

@[simp] theorem id_keepaliveReturned (outcome : Call) : (x.keepaliveReturned outcome).id = x.id := by
  unfold Session.keepaliveReturned
  split
  · exact id_notifyDisconnection
  · rfl

/-- No step of a server session makes it connected or changes its id, which alone it sends. -/
theorem session_step {l : Session.Label} (hstep : x.step p l = some (y, messages)) :
    y.id = x.id ∧ (y.phase = .connected → x.phase = .connected) ∧
      ∀ m ∈ messages, m = .new p ∨ m = .keepalive p x.id ∧ x.phase = .connected ∨
        m = .shutdown p x.id ∧ x.id ≠ 0 := by
  cases Session.step_cases hstep with
  | connect _ => exact ⟨rfl, by simp, by simp⟩
  | connectFails _ => exact ⟨rfl, by simp, by simp⟩
  | startKeepalive hphase _ => exact ⟨rfl, id, by simp [hphase]⟩
  | keepaliveFails => exact ⟨id_keepaliveReturned _, by simp, by simp⟩
  | callFails => exact ⟨id_notifyDisconnection, by simp, by simp⟩
  | handleControlEvent _ _ => exact ⟨rfl, by simp, by simp⟩
  | destroy _ =>
    refine ⟨rfl, by simp, fun m hm => ?_⟩
    split at hm
    · rename_i hid
      exact .inr (.inr ⟨List.mem_singleton.mp hm, hid⟩)
    · cases hm

theorem Fenced.update (h : Fenced s)
    (hx : x.phase = .connected ∨ x.id ≠ 0 → Owner s.accepted x.id p) : Fenced (s.update p x) where
  nextId := h.nextId
  current := h.current
  messages := h.messages
  sessions := by
    intro q
    rw [sessions_update]
    split
    · rename_i hq
      exact hq ▸ hx
    · exact h.sessions q

theorem Fenced.send (h : Fenced s) (hmessages : ∀ m ∈ messages, Authorized s.accepted m) :
    Fenced (s.send messages) where
  nextId := h.nextId
  current := h.current
  sessions := h.sessions
  messages m hm := (List.mem_append.mp hm).elim (h.messages m) (hmessages m)

theorem Fenced.erase (h : Fenced s) (m : Message) : Fenced { s with network := s.network.erase m } where
  nextId := h.nextId
  current := h.current
  sessions := h.sessions
  messages m hm := h.messages m (List.mem_of_mem_erase hm)

theorem Fenced.session (h : Fenced s) {l : Session.Label}
    (hx : (s.sessions p).step p l = some (x, messages)) : Fenced ((s.update p x).send messages) := by
  obtain ⟨hid, hconnected, hmessages⟩ := session_step hx
  have hupdate : Fenced (s.update p x) := by
    refine h.update fun hor => ?_
    rw [hid] at hor ⊢
    exact h.sessions p (hor.imp_left hconnected)
  refine hupdate.send fun m hm => ?_
  rcases hmessages m hm with rfl | ⟨rfl, hphase⟩ | ⟨rfl, hpos⟩
  · trivial
  · exact h.sessions p (.inl hphase)
  · exact h.sessions p (.inr hpos)

/-- A client that does not begin a session. -/
theorem Fenced.turn (h : Fenced s) (hc : s.client.step l = some c)
    (hl : ∀ resources, l ≠ .newSession resources) : Fenced (s.turn c) where
  nextId := by
    cases turned_step hc with
    | kept _ hnextId _ => exact hnextId.trans h.nextId
    | ended _ _ hnextId _ => exact hnextId.trans h.nextId
    | began _ _ _ => exact absurd rfl (hl _)
  current := by
    intro id (hid : c.remote.current = some id)
    cases turned_step hc with
    | kept hcurrent _ _ => exact h.current id (hcurrent.symm.trans hid)
    | ended _ hcurrent _ _ => cases hcurrent.symm.trans hid
    | began _ _ _ => exact absurd rfl (hl _)
  sessions := h.sessions
  messages := by
    intro m hm
    rcases mem_turn hm with hm | ⟨p, status, rfl⟩
    · exact h.messages m hm
    · trivial

/-- An id is given to the server session whose call has arrived. -/
theorem Fenced.new (h : Fenced s) (hc : s.client.step (.newSession pool) = some c) :
    Fenced (State.send { s.turn c with
      accepted := s.accepted ++ (s.client.remote.resetSession pool).2.toList.map fun _ => p }
      [.newResponse p (s.client.remote.resetSession pool).2]) := by
  have hauthorized : ∀ more, ∀ m ∈ (s.turn c).network, Authorized (s.accepted ++ more) m := by
    intro more m hm
    rcases mem_turn hm with hm | ⟨p, status, rfl⟩
    · exact (h.messages m hm).append more
    · trivial
  have hturned := turned_step hc
  generalize hid : (s.client.remote.resetSession pool).2 = id
  cases hturned with
  | ended _ _ _ hl => exact absurd rfl (hl pool)
  | kept hcurrent hnextId hrefused =>
    obtain rfl : id = none := hid.symm.trans (hrefused pool rfl)
    refine Fenced.send ⟨?_, ?_, ?_, hauthorized []⟩ ?_
    · show c.remote.nextId = (s.accepted ++ []).length + 1
      rw [hnextId, h.nextId, List.append_nil]
    · intro id hcurrent'
      simpa using h.current id (hcurrent.symm.trans hcurrent')
    · exact fun q hq => (h.sessions q hq).append _
    · simp [Authorized]
  | began hbegan hcurrent hnextId =>
    obtain rfl : id = some (s.accepted.length + 1) := by rw [← hid, hbegan, h.nextId]
    refine Fenced.send ⟨?_, ?_, ?_, hauthorized [p]⟩ ?_
    · show c.remote.nextId = (s.accepted ++ [p]).length + 1
      rw [hnextId, h.nextId, List.length_append]
      rfl
    · intro id hcurrent'
      obtain rfl := Option.some.inj (hcurrent.symm.trans hcurrent')
      rw [h.nextId]
      exact ⟨Nat.succ_ne_zero _, by simp⟩
    · exact fun q hq => (h.sessions q hq).append _
    · intro m hm
      rw [List.mem_singleton.mp hm]
      exact owner_next

theorem Fenced.receive (h : Fenced s) {m : Message} (hm : Authorized s.accepted m)
    (hs' : Received pool s m s') : Fenced s' := by
  cases hs' with
  | new hc => exact h.new hc
  | newResponse p id =>
    refine h.update fun hor => ?_
    unfold Session.newReturned at hor ⊢
    by_cases hphase : (s.sessions p).phase = .connecting
    · rw [if_pos hphase] at hor ⊢
      cases id with
      | some id => exact hm
      | none => exact h.sessions p (.inr (hor.resolve_left (by simp)))
    · rw [if_neg hphase] at hor ⊢
      exact h.sessions p hor
  | @keepalive p id c hc =>
    have hcallers : Fenced { s with callers := s.callers ++ [p] } :=
      ⟨h.nextId, h.current, h.sessions, h.messages⟩
    exact hcallers.turn hc (by simp)
  | keepaliveResponse p status =>
    refine h.update fun hor => ?_
    rw [phase_keepaliveReturned, id_keepaliveReturned] at hor
    rw [id_keepaliveReturned]
    exact h.sessions p hor
  | shutdown hc => exact h.turn hc (by simp)

theorem Fenced.step (h : Fenced s) {l : Label Pool} (hstep : (machine α pool).step s l = some s') :
    Fenced s' := by
  cases step_cases hstep with
  | session hx => exact h.session hx
  | client hown hc =>
    refine h.turn hc ?_
    rintro resources rfl
    cases hown
  | @deliver m _ hm hs' => exact (h.erase m).receive (h.messages m hm) hs'
  | @lose m hm => exact h.erase m

theorem fenced_of_run {ls : List (Label Pool)} (hrun : (machine α pool).run ls = some s) : Fenced s :=
  Machine.run_invariant fenced_init (fun _ _ _ h hstep => h.step hstep) hrun

/-- The step of the client that a step of the system contains. -/
theorem client_step {l : Label Pool} (hstep : (machine α pool).step s l = some s') :
    s'.client = s.client ∨ ∃ l', s.client.step l' = some s'.client ∧
      ((l = .client l' ∧ isOwn l') ∨ (∃ q, l = .deliver (.new q) ∧ l' = .newSession pool) ∨
        (∃ q id, l = .deliver (.keepalive q id) ∧ l' = .keepalive id) ∨
        ∃ q id, l = .deliver (.shutdown q id) ∧ l' = .shutdownSession id ∧
          .shutdown q id ∈ s.network) := by
  cases step_cases hstep with
  | session hx => exact .inl rfl
  | client hown hc => exact .inr ⟨_, hc, .inl ⟨rfl, hown⟩⟩
  | lose hm => exact .inl rfl
  | deliver hm hs' =>
    cases hs' with
    | new hc => exact .inr ⟨_, hc, .inr (.inl ⟨_, rfl, rfl⟩)⟩
    | newResponse p id => exact .inl rfl
    | keepalive hc => exact .inr ⟨_, hc, .inr (.inr (.inl ⟨_, _, rfl, rfl⟩))⟩
    | keepaliveResponse p status => exact .inl rfl
    | shutdown hc => exact .inr ⟨_, hc, .inr (.inr (.inr ⟨_, _, rfl, rfl, hm⟩))⟩

/-- A session that is over does not come back. -/
theorem Fenced.over (h : Fenced s) {ls : List (Label Pool)} (hle : id ≤ s.accepted.length)
    (hover : s.client.remote.current ≠ some id) (hrun : (machine α pool).runFrom s ls = some s') :
    s'.client.remote.current ≠ some id := by
  have hlt : id < s.client.remote.nextId := h.nextId ▸ Nat.lt_succ_of_le hle
  have hinvariant := Machine.runFrom_invariant (M := machine α pool)
    (I := fun s => id < s.client.remote.nextId ∧ s.client.remote.current ≠ some id) ?_ ⟨hlt, hover⟩ hrun
  · exact hinvariant.2
  rintro s l s' ⟨hlt, hover⟩ hstep
  rcases client_step hstep with hclient | ⟨l', hc, -⟩
  · rw [hclient]
    exact ⟨hlt, hover⟩
  · cases turned_step hc with
    | kept hcurrent hnextId _ => exact ⟨hnextId ▸ hlt, hcurrent ▸ hover⟩
    | ended _ hcurrent hnextId _ => exact ⟨hnextId ▸ hlt, by simp [hcurrent]⟩
    | began _ hcurrent hnextId =>
      refine ⟨by omega, fun heq => ?_⟩
      have hid := Option.some.inj (hcurrent.symm.trans heq)
      omega

/-- Each session of the client belongs to one server session. While it is current, only the
`Shutdown` of that one ends it, or a newer session in its place, or the client itself. -/
theorem fenced_run {ls : List (Label Pool)} (hrun : (machine α pool).run ls = some s) :
    (∀ p q, (s.sessions p).id ≠ 0 → (s.sessions p).id = (s.sessions q).id → p = q) ∧
      ∀ l s' id, (machine α pool).step s l = some s' → s.client.remote.current = some id →
        s'.client.remote.current ≠ some id →
          (∀ ls' t, (machine α pool).runFrom s' ls' = some t → t.client.remote.current ≠ some id) ∧
          ∃ p, Owner s.accepted id p ∧
            (l = .deliver (.shutdown p id) ∨
              (∃ q id', l = .deliver (.new q) ∧ s'.client.remote.current = some id' ∧ id < id') ∨
              l = .client .disableSession ∨ l = .client .destroyBody ∨ l = .client .destroyMembers) := by
  have h := fenced_of_run hrun
  refine ⟨fun p q hid heq => ?_, fun l s' id hstep hcurrent hover => ?_⟩
  · have hp := h.sessions p (.inr hid)
    have hq := h.sessions q (.inr (heq ▸ hid))
    exact hp.unique (heq ▸ hq)
  obtain ⟨hpos, hle⟩ := h.current id hcurrent
  obtain ⟨p, hp⟩ := exists_owner hpos hle
  have h' := h.step hstep
  rcases client_step hstep with hclient | ⟨l', hc, hl⟩
  · exact absurd (hclient ▸ hcurrent) hover
  have hle' : id ≤ s'.accepted.length := by
    have hnextId := h.nextId
    have hnextId' := h'.nextId
    cases turned_step hc with
    | kept _ hnext _ | ended _ _ hnext _ | began _ _ hnext => omega
  refine ⟨fun ls' t hrun' => h'.over hle' hover hrun', p, hp, ?_⟩
  cases turned_step hc with
  | kept hsame _ _ => exact absurd (hsame.trans hcurrent) hover
  | began _ hnew _ =>
    rcases hl with ⟨-, hown⟩ | ⟨q, rfl, -⟩ | ⟨q, id', -, hl⟩ | ⟨q, id', -, hl, -⟩
    · cases hown
    · exact .inr (.inl ⟨q, _, rfl, hnew, by have := h.nextId; omega⟩)
    · cases hl
    · cases hl
  | ended hends _ _ _ =>
    have hends := hends id hcurrent
    rcases hl with ⟨rfl, hown⟩ | ⟨q, -, rfl⟩ | ⟨q, id', -, rfl⟩ | ⟨q, id', rfl, rfl, hm⟩
    · cases l' with
      | disableSession => exact .inr (.inr (.inl rfl))
      | destroyBody => exact .inr (.inr (.inr (.inl rfl)))
      | destroyMembers => exact .inr (.inr (.inr (.inr rfl)))
      | enableSession | setKeepaliveCaller => exact hends.elim
      | newSession _ | shutdownSession _ | keepalive _ => cases hown
    · exact hends.elim
    · exact hends.elim
    · obtain rfl : id' = id := hends
      exact .inl (hp.unique (h.messages _ hm) ▸ rfl)

/-- A second server takes over, and the first one is destroyed before that. -/
def takenOver : List (Label Unit) :=
  [.client .enableSession, .session 0 .connect, .session 1 .connect, .deliver (.new 0),
    .deliver (.newResponse 0 (some 1)), .session 0 .destroy, .deliver (.new 1),
    .deliver (.newResponse 1 (some 2))]

theorem fenced_takenOver : ∃ s s', (machine Unit ()).run takenOver = some s ∧
    (s.sessions 0).id ≠ (s.sessions 1).id ∧
    (machine Unit ()).step s (.deliver (.shutdown 0 1)) = some s' ∧
    s'.client.remote.current = some 2 := by
  have hrun : (machine Unit ()).run takenOver = some _ := rfl
  obtain ⟨hids, hends⟩ := fenced_run hrun
  refine ⟨_, _, hrun, fun heq => ?_, rfl, ?_⟩
  · cases hids 0 1 (by decide) heq
  · by_contra hover
    obtain ⟨-, p, -, hl⟩ := hends (.deliver (.shutdown 0 1)) _ 2 rfl rfl hover
    rcases hl with hl | ⟨q, id', hl, -⟩ | hl | hl | hl
    · cases hl
    · cases hl
    · cases hl
    · cases hl
    · cases hl

end Connection

end ZenRemote
