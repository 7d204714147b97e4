-- SUMMARY: The expiry of a peer step by step, and who owns the peer while the closure inside it runs.
import ZenRemote.Server.PeerManager

/-!
# Peer expiry

`Expire` calls the closure `on_expired` that is stored in the peer. The closure takes the
peer off the list, and reads the id and the manager it has captured only then. The handlers
of `on_peer_lost` run before it returns, and may drop what the users hold.
-/

namespace ZenRemote.Server.PeerManager

/-- How far the closure is. -/
inductive ExpiryProgress where
  | called
  /-- `remove_if` has returned. -/
  | removed
  /-- The handlers of `on_peer_lost` run. -/
  | emitting
  deriving DecidableEq, Repr

/-- A peer whose `Expire` is running. -/
structure Expiry where
  id : Nat
  /-- The caller has just made the peer, and has a pointer to it. -/
  creating : Bool
  progress : ExpiryProgress := .called
  deriving DecidableEq, Repr

/-- `Peer::Expire`, up to the closure. -/
def expireBegin (m : PeerManager) (id : Nat) (creating : Bool) : Option (PeerManager × Expiry) :=
  if m.isAlive id then some (m.modify id fun peer => { peer with alive := false }, { id, creating })
  else none

/-- `Peer::Ping`, up to the closure. -/
def pingBegin (m : PeerManager) (id : Nat) (creating armed : Bool) : Option (PeerManager × Expiry) :=
  if armed then none else m.expireBegin id creating

def discoverBegin (m : PeerManager) (host : String) (wired created armed : Bool) :
    Option (PeerManager × Expiry) :=
  match m.findHost host with
  | some id => m.pingBegin id false armed
  | none => if created then (m.createPeer host wired).pingBegin m.nextId true armed else none

/-- The callback up to the closure, if it makes a peer expire. -/
def begin (m : PeerManager) : Label → Option (PeerManager × Expiry)
  | .acceptUdpBroadcast mask received created armed =>
    match checkPacket mask received with
    | .error _ => none
    | .ok host => m.discoverBegin host false created armed
  | .portForwardedPeerProbe success created armed =>
    if success then m.discoverBegin kPortForwardedPeerHost true created armed else none
  | .timer id =>
    if m.refersTo id ∧ ((m.made.lookup id).map Peer.armed).getD false then m.expireBegin id false
    else none
  | .get _ | .drop _ => none

/-- What the users do, on their own or in a handler. -/
def Label.ofUser : Label → Bool
  | .get _ | .drop _ => true
  | .acceptUdpBroadcast .. | .portForwardedPeerProbe .. | .timer _ => false

namespace Expiry

structure State where
  manager : PeerManager := {}
  running : Option Expiry := none

inductive Label where
  /-- A callback, which runs up to the closure if it makes a peer expire, or a step of the
  users. -/
  | manager (l : PeerManager.Label)
  /-- `remove_if` of the closure. -/
  | remove
  /-- The closure reads what it has captured and calls `on_peer_lost`. -/
  | emit
  /-- The closure, `Expire` and the callback return. -/
  | finish

/-- The peer leaves the list. -/
def remove (m : PeerManager) (e : Expiry) : PeerManager := { m with peers := m.peers.filter (· ≠ e.id) }

/-- What the caller does with a peer that it has just made. -/
def finish (m : PeerManager) (e : Expiry) : PeerManager := if e.creating then m.announce e.id else m

def step (s : State) : Label → Option State
  | .manager l =>
    match s.running with
    | none =>
      match s.manager.begin l with
      | some (m, e) => some ⟨m, some e⟩
      | none => (s.manager.step l).map fun m => ⟨m, none⟩
    | some e =>
      if l.ofUser ∧ e.progress = .emitting then (s.manager.step l).map fun m => ⟨m, some e⟩ else none
  | .remove =>
    match s.running with
    | some e =>
      if e.progress = .called then some ⟨remove s.manager e, some { e with progress := .removed }⟩
      else none
    | none => none
  | .emit =>
    match s.running with
    | some e =>
      if e.progress = .removed then
        some ⟨s.manager.emit [.onPeerLost e.id], some { e with progress := .emitting }⟩
      else none
    | none => none
  | .finish =>
    match s.running with
    | some e => if e.progress = .emitting then some ⟨finish s.manager e, none⟩ else none
    | none => none

def machine : Machine State Label := ⟨{}, step⟩

end Expiry

-- ---------------------------------------------------------------------------
-- The steps of the manager
-- ---------------------------------------------------------------------------

variable {m m' : PeerManager} {e : Expiry}

theorem held_modify {id : Nat} (f : Peer → Peer) : (m.modify id f).held = m.held := by
  unfold modify
  split
  · rfl
  · rfl

/-- The rest of the closure and of its callback, without the users. -/
def Expiry.complete (m : PeerManager) (e : Expiry) : PeerManager := e.finish (m.lose e.id)

theorem complete_pingBegin {id : Nat} {creating armed : Bool}
    (h : m.pingBegin id creating armed = some (m', e)) :
    e.complete m' = if creating then (m.ping id armed).announce id else m.ping id armed := by
  obtain ⟨harmed, h⟩ := Option.ite_none_left_eq_some.mp h
  obtain ⟨halive, h⟩ := Option.ite_none_right_eq_some.mp h
  cases h
  rw [ping, if_pos halive, if_neg harmed, expire, if_pos halive]
  rfl

theorem complete_discoverBegin {host : String} {wired created armed : Bool}
    (h : m.discoverBegin host wired created armed = some (m', e)) :
    e.complete m' = m.discover host wired created armed := by
  unfold discoverBegin at h
  unfold discover
  cases hfind : m.findHost host with
  | some id =>
    rw [hfind] at h
    exact complete_pingBegin h
  | none =>
    rw [hfind] at h
    obtain ⟨hcreated, h⟩ := Option.ite_none_right_eq_some.mp h
    rw [complete_pingBegin h, if_pos rfl]
    exact (if_pos hcreated).symm

theorem complete_begin {l : Label} (h : m.begin l = some (m', e)) : m.step l = some (e.complete m') := by
  cases l with
  | acceptUdpBroadcast mask received created armed =>
    simp only [begin] at h
    rw [step, acceptUdpBroadcast]
    cases hpacket : checkPacket mask received with
    | error signals =>
      rw [hpacket] at h
      cases h
    | ok host =>
      rw [hpacket] at h
      rw [complete_discoverBegin h]
  | portForwardedPeerProbe success created armed =>
    obtain ⟨hsuccess, h⟩ := Option.ite_none_right_eq_some.mp h
    rw [complete_discoverBegin h, step, portForwardedPeerProbe, if_pos hsuccess]
  | timer id =>
    obtain ⟨hfires, h⟩ := Option.ite_none_right_eq_some.mp h
    obtain ⟨halive, h⟩ := Option.ite_none_right_eq_some.mp h
    cases h
    rw [step, if_pos hfires, expire, if_pos halive]
    rfl
  | get id => cases h
  | drop id => cases h

/-- A pointer refers to the peer when the closure is called. -/
def Expiry.Begun (m : PeerManager) (e : Expiry) : Prop :=
  e.progress = .called ∧ (e.creating = true ∨ m.refersTo e.id)

theorem begun_expireBegin {id : Nat} {creating : Bool} (hrefers : creating = true ∨ m.refersTo id)
    (h : m.expireBegin id creating = some (m', e)) : e.Begun m' := by
  obtain ⟨-, h⟩ := Option.ite_none_right_eq_some.mp h
  cases h
  refine ⟨rfl, hrefers.imp_right fun hrefers => ?_⟩
  rw [refersTo, peers_modify, held_modify]
  exact hrefers

theorem begun_discoverBegin {host : String} {wired created armed : Bool}
    (h : m.discoverBegin host wired created armed = some (m', e)) : e.Begun m' := by
  unfold discoverBegin at h
  cases hfind : m.findHost host with
  | some id =>
    rw [hfind] at h
    have hmem : id ∈ m.peers := List.mem_of_find?_eq_some hfind
    refine begun_expireBegin (.inr ?_) (Option.ite_none_left_eq_some.mp h).2
    rw [refersTo, List.contains_iff_mem.mpr hmem, Bool.true_or]
  | none =>
    rw [hfind] at h
    obtain ⟨-, h⟩ := Option.ite_none_right_eq_some.mp h
    exact begun_expireBegin (.inl rfl) (Option.ite_none_left_eq_some.mp h).2

theorem begun_begin {l : Label} (h : m.begin l = some (m', e)) : e.Begun m' := by
  cases l with
  | acceptUdpBroadcast mask received created armed =>
    simp only [begin] at h
    split at h
    · cases h
    · exact begun_discoverBegin h
  | portForwardedPeerProbe success created armed =>
    exact begun_discoverBegin (Option.ite_none_right_eq_some.mp h).2
  | timer id =>
    obtain ⟨hfires, h⟩ := Option.ite_none_right_eq_some.mp h
    exact begun_expireBegin (.inr hfires.1) h
  | get id => cases h
  | drop id => cases h

namespace Expiry

/-- The steps of an expiry, with none of the users in between, are the step of the manager. -/
theorem runFrom_expiry {l : PeerManager.Label} (h : m.begin l = some (m', e)) :
    machine.runFrom ⟨m, none⟩ [.manager l, .remove, .emit, .finish] =
      (m.step l).map fun m => ⟨m, none⟩ := by
  obtain ⟨hcalled, -⟩ := begun_begin h
  rw [complete_begin h]
  simp only [Machine.runFrom, machine, step, h, hcalled, Option.bind_some, ↓reduceIte]
  rfl

-- ---------------------------------------------------------------------------
-- Ownership
-- ---------------------------------------------------------------------------

/-- The peer whose `Expire` is running is owned: by its caller, by the list or by a user. -/
def Owned (s : State) : Prop :=
  ∀ e, s.running = some e → e.creating = true ∨ s.manager.refersTo e.id

/-- A user, or the caller that is making the peer, has a pointer to it when the closure
takes it off the list, and keeps one as long as the closure runs. -/
def KeepsPointer (s : State) : Label → Prop
  | .remove => ∀ e, s.running = some e → e.creating = true ∨ e.id ∈ s.manager.held
  | .manager (.drop id) =>
    ∀ e, s.running = some e → e.creating = true ∨ e.id ∈ s.manager.held.erase id
  | .manager (.acceptUdpBroadcast ..) | .manager (.portForwardedPeerProbe ..) | .manager (.timer _)
  | .manager (.get _) | .emit | .finish => True

/-- The closure does not put the peer back on the list. -/
def OffList (s : State) : Prop :=
  ∀ e, s.running = some e → e.progress ≠ .called → e.id ∉ s.manager.peers

variable {s s' : State}

/-- The states that a step can lead to. -/
inductive Stepped (s : State) : Label → State → Prop
  | begin {l : PeerManager.Label} {m : PeerManager} {e : Expiry} (hrunning : s.running = none)
      (hbegin : s.manager.begin l = some (m, e)) : Stepped s (.manager l) ⟨m, some e⟩
  | idle {l : PeerManager.Label} (m : PeerManager) (hrunning : s.running = none) :
      Stepped s (.manager l) ⟨m, none⟩
  | user {l : PeerManager.Label} {m : PeerManager} (e : Expiry) (hrunning : s.running = some e)
      (huser : l.ofUser = true) (hemitting : e.progress = .emitting) (hm : s.manager.step l = some m) :
      Stepped s (.manager l) ⟨m, some e⟩
  | remove (e : Expiry) (hrunning : s.running = some e) :
      Stepped s .remove ⟨remove s.manager e, some { e with progress := .removed }⟩
  | emit (e : Expiry) (hrunning : s.running = some e) (hremoved : e.progress = .removed) :
      Stepped s .emit ⟨s.manager.emit [.onPeerLost e.id], some { e with progress := .emitting }⟩
  | finish (m : PeerManager) : Stepped s .finish ⟨m, none⟩

theorem step_cases {l : Label} (hstep : step s l = some s') : Stepped s l s' := by
  cases l with
  | manager l =>
    simp only [step] at hstep
    split at hstep
    · next hrunning =>
      split at hstep
      · next hbegin =>
        cases hstep
        exact .begin hrunning hbegin
      · obtain ⟨m, -, rfl⟩ := Option.map_eq_some_iff.mp hstep
        exact .idle m hrunning
    · next hrunning =>
      obtain ⟨⟨huser, hemitting⟩, hstep⟩ := Option.ite_none_right_eq_some.mp hstep
      obtain ⟨m, hm, rfl⟩ := Option.map_eq_some_iff.mp hstep
      exact .user _ hrunning huser hemitting hm
  | remove =>
    simp only [step] at hstep
    split at hstep
    · next hrunning =>
      obtain ⟨-, hs'⟩ := Option.ite_none_right_eq_some.mp hstep
      cases hs'
      exact .remove _ hrunning
    · cases hstep
  | emit =>
    simp only [step] at hstep
    split at hstep
    · next hrunning =>
      obtain ⟨hremoved, hs'⟩ := Option.ite_none_right_eq_some.mp hstep
      cases hs'
      exact .emit _ hrunning hremoved
    · cases hstep
  | finish =>
    simp only [step] at hstep
    split at hstep
    · obtain ⟨-, hs'⟩ := Option.ite_none_right_eq_some.mp hstep
      cases hs'
      exact .finish _
    · cases hstep

theorem owned_some : Owned ⟨m, some e⟩ ↔ e.creating = true ∨ m.refersTo e.id := by
  simp [Owned]

theorem owned_none : Owned ⟨m, none⟩ := nofun

theorem forall_running {P : Expiry → Prop} (hrunning : s.running = some e) :
    (∀ e, s.running = some e → P e) ↔ P e := by
  simp [hrunning]

theorem keepsPointer_of_idle (hrunning : s.running = none) (l : Label) : KeepsPointer s l := by
  unfold KeepsPointer
  split
  · rw [hrunning]
    exact nofun
  · rw [hrunning]
    exact nofun
  all_goals trivial

theorem refersTo_iff {id : Nat} : m.refersTo id ↔ id ∈ m.peers ∨ id ∈ m.held := by
  rw [refersTo, Bool.or_eq_true, List.contains_iff_mem, List.contains_iff_mem]

/-- What the users do leaves the list as it is. -/
theorem step_ofUser {l : PeerManager.Label} (hl : l.ofUser = true) (hstep : m.step l = some m') :
    (∃ id, l = .get id ∧ m' = { m with held := m.held ++ (m.get id).toList }) ∨
      ∃ id, l = .drop id ∧ m' = { m with held := m.held.erase id } := by
  cases l with
  | get id => exact .inl ⟨id, rfl, (Option.some.inj hstep).symm⟩
  | drop id =>
    obtain ⟨-, hm'⟩ := Option.ite_none_right_eq_some.mp hstep
    exact .inr ⟨id, rfl, (Option.some.inj hm').symm⟩
  | acceptUdpBroadcast mask received created armed => cases hl
  | portForwardedPeerProbe success created armed => cases hl
  | timer id => cases hl

theorem OffList.step (h : OffList s) {l : Label} (hstep : step s l = some s') : OffList s' := by
  cases step_cases hstep with
  | begin hrunning hbegin =>
    rintro _ ⟨rfl⟩ hprogress
    exact absurd (begun_begin hbegin).1 hprogress
  | idle m hrunning => exact nofun
  | user e hrunning huser hemitting hm =>
    rintro _ ⟨rfl⟩ hprogress
    have hoff := h e hrunning hprogress
    obtain ⟨id, -, rfl⟩ | ⟨id, -, rfl⟩ := step_ofUser huser hm
    · exact hoff
    · exact hoff
  | remove e hrunning =>
    rintro _ ⟨rfl⟩ -
    simp [remove]
  | emit e hrunning hremoved =>
    rintro _ ⟨rfl⟩ -
    exact h e hrunning (by rw [hremoved]; exact nofun)
  | finish m => exact nofun

theorem owned_step_iff (hoff : OffList s) (h : Owned s) {l : Label} (hstep : step s l = some s') :
    Owned s' ↔ KeepsPointer s l := by
  cases step_cases hstep with
  | begin hrunning hbegin =>
    exact iff_of_true (owned_some.mpr (begun_begin hbegin).2) (keepsPointer_of_idle hrunning _)
  | idle m hrunning => exact iff_of_true owned_none (keepsPointer_of_idle hrunning _)
  | user e hrunning huser hemitting hm =>
    have howned := h e hrunning
    have hpeers := hoff e hrunning (by rw [hemitting]; exact nofun)
    rw [owned_some, refersTo_iff]
    obtain ⟨id, rfl, rfl⟩ | ⟨id, rfl, rfl⟩ := step_ofUser huser hm
    · rw [refersTo_iff] at howned
      exact iff_of_true (howned.imp_right (Or.imp_right (List.mem_append_left _))) trivial
    · rw [KeepsPointer, forall_running hrunning]
      exact or_congr_right (or_iff_right hpeers)
  | remove e hrunning =>
    rw [owned_some, refersTo_iff, KeepsPointer, forall_running hrunning]
    exact or_congr_right (or_iff_right (by simp [remove]))
  | emit e hrunning hremoved => exact iff_of_true (owned_some.mpr (h e hrunning)) trivial
  | finish m => exact iff_of_true owned_none trivial

/-- The peer that expires is owned as long as its closure runs, exactly if a pointer is kept. -/
theorem owned_run_iff {ls : List Label} (hrun : machine.run ls = some s) :
    machine.Always Owned ls ↔ machine.Along KeepsPointer ls := by
  have hinit : machine.init.running = none := rfl
  exact Machine.always_iff_along (J := OffList) (by simp [OffList, hinit]) (by simp [Owned, hinit])
    (fun _ _ _ hoff _ hstep _ => hoff.step hstep) (fun _ _ _ hoff h hstep => owned_step_iff hoff h hstep) hrun

/-- A peer is discovered and taken by a user, expires, and is dropped after its closure has
returned. Another one expires while it is made. -/
def heldWhileExpiring : List Label :=
  [.manager (.portForwardedPeerProbe true true true), .manager (.get 0), .manager (.timer 0), .remove,
    .emit, .finish, .manager (.drop 0), .manager (.portForwardedPeerProbe true true false), .remove,
    .emit, .finish]

theorem owned_heldWhileExpiring : ∃ s, machine.run heldWhileExpiring = some s ∧
    s.manager.signals = [.onPeerDiscover 0, .onPeerLost 0, .onPeerLost 1, .onPeerDiscover 1] ∧
      (machine.Always Owned heldWhileExpiring ↔ machine.Along KeepsPointer heldWhileExpiring) := by
  obtain ⟨s, hs, hsignals⟩ : ∃ s, machine.run heldWhileExpiring = some s ∧
      s.manager.signals = [.onPeerDiscover 0, .onPeerLost 0, .onPeerLost 1, .onPeerDiscover 1] :=
    ⟨_, rfl, rfl⟩
  exact ⟨s, hs, hsignals, owned_run_iff hs⟩

/-- Only the list refers to the peer. -/
def heldByNobody : List Label :=
  [.manager (.portForwardedPeerProbe true true true), .manager (.timer 0), .remove]

theorem not_owned_heldByNobody : ∃ s, machine.run heldByNobody = some s ∧ ¬ Owned s :=
  ⟨_, rfl, fun h => by
    have howned := h _ rfl
    exact absurd howned (by decide)⟩

end Expiry

end ZenRemote.Server.PeerManager
