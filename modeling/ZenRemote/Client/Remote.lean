-- SUMMARY: The client's `Remote`: the current session, how it is replaced and taken away, and when a session is destroyed.
import ZenRemote.Client.Session

/-!
# The current session

Each method of `Remote` below holds `current_session_mutex_` throughout, so it is
one step. A session is a heap object behind shared pointers. Session ids are never
reused, so an id stands for the pointer.
-/

namespace ZenRemote.Client

open scoped List

universe u v

structure Remote (α : Type u) (Pool : Type v) where
  sessionIsEnabled : Bool := false
  /-- `running_` of `discovery_broadcast_`. `StartIfNotRunning` sets it and starts the
  thread; `StopAndWait` clears it, on which alone the thread returns, and joins it. -/
  broadcasting : Bool := false
  /-- `current_session_`. -/
  current : Option Nat := none
  /-- `Session::next_id_`, with session id 0 reserved. -/
  nextId : Nat := 1
  /-- The sessions that exist. -/
  sessions : AList (fun _ : Nat => Session α Pool) := ∅

namespace Remote

variable {α : Type u} {Pool : Type v}

/-- `current()`, with the session the pointer leads to. -/
def currentSession (r : Remote α Pool) : Option (Session α Pool) :=
  r.current.bind fun id => r.sessions.lookup id

/-- Changes the session behind a pointer. -/
def modify (r : Remote α Pool) (id : Nat) (f : Session α Pool → Session α Pool) : Remote α Pool :=
  match r.sessions.lookup id with
  | some session => { r with sessions := r.sessions.insert id (f session) }
  | none => r

/-- The current session is shut down and the pointer is reset. The output is the
keepalive call that is finished. -/
def takeAway (r : Remote α Pool) : Remote α Pool × List Nat :=
  match r.current with
  | some id =>
    ({ r.modify id (fun session => session.shutdown.1) with current := none },
      ((r.sessions.lookup id).map fun session => session.shutdown.2).getD [])
  | none => (r, [])

def enableSession (r : Remote α Pool) : Remote α Pool :=
  { r with sessionIsEnabled := true, broadcasting := r.broadcasting || r.current.isNone }

def disableSession (r : Remote α Pool) : Remote α Pool × List Nat :=
  { r with sessionIsEnabled := false, broadcasting := false }.takeAway

/-- A session that is still current is replaced without being shut down. -/
def resetSession (r : Remote α Pool) (resources : Pool) : Remote α Pool × Option Nat :=
  if r.sessionIsEnabled then
    ({ r with
      current := some r.nextId
      nextId := r.nextId + 1
      sessions := r.sessions.insert r.nextId { id := r.nextId, resources }
      broadcasting := false }, some r.nextId)
  else (r, none)

def clearSession (r : Remote α Pool) (id : Nat) : Remote α Pool × List Nat :=
  let out := if r.current = some id then r.takeAway else (r, [])
  ({ out.1 with
    broadcasting := out.1.broadcasting || (out.1.current.isNone && out.1.sessionIsEnabled) }, out.2)

def isNewSessionAcceptable (r : Remote α Pool) : Bool := r.current.isNone && r.sessionIsEnabled

/-- A pointer to the session is left, in `current_session_` or elsewhere. -/
def refersTo (r : Remote α Pool) (elsewhere : List Nat) (id : Nat) : Bool :=
  r.current = some id || elsewhere.contains id

/-- The sessions nothing refers to any more are destroyed. The output is what
their queues cancel. -/
def release (r : Remote α Pool) (elsewhere : List Nat) : Remote α Pool × List α :=
  ({ r with sessions := r.sessions.filterKeys (r.refersTo elsewhere) },
    (r.sessions.filterKeys fun id => !r.refersTo elsewhere id).contents Session.destroy)

/-- The commands held in the queues of all sessions. -/
def held (r : Remote α Pool) : List α := r.sessions.contents Session.destroy

/-- The queues of one session, empty if it does not exist. -/
def queuesOf (r : Remote α Pool) (id : Nat) : CommandQueues α :=
  ((r.sessions.lookup id).map Session.commandQueues).getD ∅

/-- The commands held in the queues of one session. -/
def heldBy (r : Remote α Pool) (id : Nat) : List α := (r.queuesOf id).destroy

-- ---------------------------------------------------------------------------
-- Sessions and what they hold
-- ---------------------------------------------------------------------------

variable {r : Remote α Pool}

theorem lookup_modify (f : Session α Pool → Session α Pool) (id id' : Nat) :
    (r.modify id f).sessions.lookup id' =
      if id' = id then (r.sessions.lookup id).map f else r.sessions.lookup id' := by
  by_cases h : id' = id
  · subst h
    cases hlookup : r.sessions.lookup id' with
    | none => simp [modify, hlookup]
    | some session => simp [modify, hlookup]
  · rw [if_neg h]
    cases hlookup : r.sessions.lookup id with
    | none => simp [modify, hlookup]
    | some session => simp [modify, hlookup, AList.lookup_insert_ne h]

/-- What a session is after one of them has been modified. -/
theorem lookup_modify_cases {f : Session α Pool → Session α Pool} {id id' : Nat}
    {old session : Session α Pool} (hold : r.sessions.lookup id = some old)
    (hsession : (r.modify id f).sessions.lookup id' = some session) :
    id' = id ∧ session = f old ∨ id' ≠ id ∧ r.sessions.lookup id' = some session := by
  rw [lookup_modify, hold] at hsession
  split at hsession
  · rename_i heq
    exact .inl ⟨heq, (Option.some.inj hsession).symm⟩
  · rename_i hne
    exact .inr ⟨hne, hsession⟩

theorem mem_modify {id id' : Nat} (f : Session α Pool → Session α Pool) (hmem : id' ∈ r.sessions) :
    id' ∈ (r.modify id f).sessions := by
  rw [← AList.lookup_isSome, lookup_modify]
  split
  · rename_i heq
    rw [Option.isSome_map, ← heq]
    exact AList.lookup_isSome.mpr hmem
  · exact AList.lookup_isSome.mpr hmem

@[simp] theorem current_modify (f : Session α Pool → Session α Pool) (id : Nat) :
    (r.modify id f).current = r.current := by
  unfold modify
  split <;> rfl

@[simp] theorem nextId_modify (f : Session α Pool → Session α Pool) (id : Nat) :
    (r.modify id f).nextId = r.nextId := by
  unfold modify
  split <;> rfl

theorem current_takeAway : r.takeAway.1.current = none := by
  unfold takeAway
  split
  · rfl
  · assumption

theorem current_clearSession (id : Nat) :
    (r.clearSession id).1.current = if r.current = some id then none else r.current := by
  show (if r.current = some id then r.takeAway else (r, [])).1.current = _
  split
  · exact current_takeAway
  · rfl

theorem nextId_takeAway : r.takeAway.1.nextId = r.nextId := by
  unfold takeAway
  split
  · exact nextId_modify ..
  · rfl

theorem nextId_clearSession (id : Nat) : (r.clearSession id).1.nextId = r.nextId := by
  show (if r.current = some id then r.takeAway else (r, [])).1.nextId = _
  split
  · exact nextId_takeAway
  · rfl

/-- Changing a session exchanges what it holds. -/
theorem held_modify {f : Session α Pool → Session α Pool} {id : Nat} {session : Session α Pool}
    (hlookup : r.sessions.lookup id = some session) (out back : List α)
    (hf : out ++ (f session).destroy ~ back ++ session.destroy) :
    out ++ (r.modify id f).held ~ back ++ r.held := by
  rw [modify, hlookup]
  calc out ++ AList.contents Session.destroy (r.sessions.insert id (f session))
    _ = out ++ (f session).destroy ++ (r.sessions.erase id).contents Session.destroy := by
      rw [AList.contents_insert, List.append_assoc]
    _ ~ back ++ session.destroy ++ (r.sessions.erase id).contents Session.destroy :=
      hf.append_right _
    _ = back ++ (session.destroy ++ (r.sessions.erase id).contents Session.destroy) :=
      List.append_assoc ..
    _ ~ back ++ r.held := .append_left _ (AList.contents_of_lookup _ hlookup).symm

/-- A change that leaves the queues alone. -/
theorem held_modify_of_queues {f : Session α Pool → Session α Pool} (id : Nat)
    (hf : ∀ session, (f session).commandQueues = session.commandQueues) :
    (r.modify id f).held ~ r.held := by
  cases hlookup : r.sessions.lookup id with
  | none => simp [modify, hlookup]
  | some session =>
    refine held_modify hlookup [] [] ?_
    simp [Session.destroy, hf]

theorem held_takeAway : r.takeAway.1.held ~ r.held := by
  unfold takeAway
  split
  · exact held_modify_of_queues _ fun _ => rfl
  · exact .refl _

theorem held_disableSession : r.disableSession.1.held ~ r.held := held_takeAway

theorem held_clearSession (id : Nat) : (r.clearSession id).1.held ~ r.held := by
  show (if r.current = some id then r.takeAway else (r, [])).1.held ~ r.held
  split
  · exact held_takeAway
  · exact .refl _

theorem held_resetSession (resources : Pool) (hfresh : r.nextId ∉ r.sessions) :
    (r.resetSession resources).1.held ~ r.held := by
  unfold resetSession
  split
  · rw [held, AList.contents_insert, AList.contents_of_not_mem _ (AList.lookup_eq_none.mpr hfresh)]
    exact .refl _
  · exact .refl _

theorem held_release (elsewhere : List Nat) :
    (r.release elsewhere).2 ++ (r.release elsewhere).1.held ~ r.held :=
  List.perm_append_comm.trans (AList.contents_filterKeys_perm _ _ _)

theorem heldBy_of_lookup {id : Nat} {session : Session α Pool}
    (hlookup : r.sessions.lookup id = some session) : r.heldBy id = session.destroy := by
  rw [heldBy, queuesOf, hlookup]
  rfl

theorem heldBy_subset_held (id : Nat) : r.heldBy id ⊆ r.held := by
  intro command hcommand
  cases hlookup : r.sessions.lookup id with
  | none =>
    rw [heldBy, queuesOf, hlookup] at hcommand
    cases hcommand
  | some session =>
    rw [heldBy_of_lookup hlookup] at hcommand
    exact AList.mem_contents.mpr ⟨id, session, hlookup, hcommand⟩

theorem queuesOf_modify (f : Session α Pool → Session α Pool) (id id' : Nat) :
    (r.modify id f).queuesOf id' =
      if id' = id then ((r.sessions.lookup id).map fun session => (f session).commandQueues).getD ∅
      else r.queuesOf id' := by
  rw [queuesOf, lookup_modify]
  split
  · rw [Option.map_map]
    rfl
  · rfl

/-- No session disappears, and each has the queues it had. -/
structure KeepsQueues (r r' : Remote α Pool) : Prop where
  mem : ∀ id ∈ r.sessions, id ∈ r'.sessions
  queues : ∀ id, r'.queuesOf id = r.queuesOf id

theorem KeepsQueues.refl (r : Remote α Pool) : r.KeepsQueues r := ⟨fun _ h => h, fun _ => rfl⟩

theorem keepsQueues_modify {f : Session α Pool → Session α Pool} (id : Nat)
    (hf : ∀ session, (f session).commandQueues = session.commandQueues) :
    r.KeepsQueues (r.modify id f) := by
  refine ⟨fun id' hmem => mem_modify f hmem, fun id' => ?_⟩
  rw [queuesOf_modify]
  split
  · rename_i heq
    simp only [hf, heq]
    rfl
  · rfl

theorem keepsQueues_takeAway : r.KeepsQueues r.takeAway.1 := by
  unfold takeAway
  split
  · rename_i id _
    have h := keepsQueues_modify (r := r) (f := fun session => session.shutdown.1) id fun _ => rfl
    exact ⟨h.mem, h.queues⟩
  · exact .refl r

theorem keepsQueues_disableSession : r.KeepsQueues r.disableSession.1 := by
  have h := keepsQueues_takeAway (r := { r with sessionIsEnabled := false, broadcasting := false })
  exact ⟨h.mem, h.queues⟩

theorem keepsQueues_clearSession (id : Nat) : r.KeepsQueues (r.clearSession id).1 := by
  have hout : r.KeepsQueues (if r.current = some id then r.takeAway else (r, [])).1 := by
    split
    · exact keepsQueues_takeAway
    · exact .refl r
  exact ⟨hout.mem, hout.queues⟩

theorem keepsQueues_resetSession (resources : Pool) (hfresh : r.nextId ∉ r.sessions) :
    r.KeepsQueues (r.resetSession resources).1 := by
  unfold resetSession
  split
  · refine ⟨fun id hmem => (AList.mem_insert _).mpr (.inr hmem), fun id => ?_⟩
    by_cases hid : id = r.nextId
    · subst hid
      rw [queuesOf, queuesOf, AList.lookup_insert, AList.lookup_eq_none.mpr hfresh]
      rfl
    · rw [queuesOf, AList.lookup_insert_ne hid]
      rfl
  · exact .refl r

theorem queuesOf_release (elsewhere : List Nat) (id : Nat) :
    (r.release elsewhere).1.queuesOf id =
      if r.refersTo elsewhere id then r.queuesOf id else ∅ := by
  rw [queuesOf, release, AList.lookup_filterKeys]
  split
  · rfl
  · rfl

/-- What a destroyed session held is cancelled. -/
theorem mem_release {elsewhere : List Nat} {id : Nat} (hdropped : ¬ r.refersTo elsewhere id)
    {command : α} (hcommand : command ∈ r.heldBy id) : command ∈ (r.release elsewhere).2 := by
  cases hlookup : r.sessions.lookup id with
  | none =>
    rw [heldBy, queuesOf, hlookup] at hcommand
    cases hcommand
  | some session =>
    rw [heldBy_of_lookup hlookup] at hcommand
    refine AList.mem_contents.mpr ⟨id, session, ?_, hcommand⟩
    rw [AList.lookup_filterKeys, if_pos (by simpa using hdropped)]
    exact hlookup

-- ---------------------------------------------------------------------------
-- Well-formedness
-- ---------------------------------------------------------------------------

/-- Every session has its own id, below `next_id_`, and the current session
exists and has not been shut down. -/
structure WellFormed (r : Remote α Pool) : Prop where
  ids : ∀ id session, r.sessions.lookup id = some session → session.id = id ∧ id < r.nextId
  current : ∀ id, r.current = some id → ∃ session, r.sessions.lookup id = some session ∧ session.active

theorem WellFormed.fresh (h : WellFormed r) : r.nextId ∉ r.sessions := by
  rw [← AList.lookup_eq_none]
  cases hlookup : r.sessions.lookup r.nextId with
  | none => rfl
  | some session => exact absurd (h.ids _ _ hlookup).2 (lt_irrefl _)

/-- A change of a session that is not shut down by it. -/
theorem WellFormed.modify (h : WellFormed r) {f : Session α Pool → Session α Pool} (id : Nat)
    (hid : ∀ session, (f session).id = session.id)
    (hactive : ∀ session, r.current = some id → session.active → (f session).active) :
    WellFormed (r.modify id f) := by
  constructor
  · intro id' session hlookup
    rw [lookup_modify] at hlookup
    rw [nextId_modify]
    split at hlookup
    · rename_i heq
      obtain ⟨old, hold, rfl⟩ := Option.map_eq_some_iff.mp hlookup
      rw [hid, heq]
      exact h.ids id old hold
    · exact h.ids id' session hlookup
  · intro id' hcurrent
    rw [current_modify] at hcurrent
    obtain ⟨session, hlookup, hsession⟩ := h.current id' hcurrent
    rw [lookup_modify]
    split
    · rename_i heq
      subst heq
      exact ⟨f session, by rw [hlookup]; rfl, hactive session hcurrent hsession⟩
    · exact ⟨session, hlookup, hsession⟩

theorem WellFormed.takeAway (h : WellFormed r) : WellFormed r.takeAway.1 := by
  unfold Remote.takeAway
  split
  · rename_i id hcurrent
    refine ⟨fun id' session hlookup => ?_, nofun⟩
    have hlookup' : (r.modify id fun session => session.shutdown.1).sessions.lookup id' =
      some session := hlookup
    rw [lookup_modify] at hlookup'
    show session.id = id' ∧ id' < (r.modify id _).nextId
    rw [nextId_modify]
    split at hlookup'
    · rename_i heq
      obtain ⟨old, hold, rfl⟩ := Option.map_eq_some_iff.mp hlookup'
      rw [heq]
      exact h.ids id old hold
    · exact h.ids id' session hlookup'
  · exact h

theorem WellFormed.enableSession (h : WellFormed r) : WellFormed r.enableSession := ⟨h.ids, h.current⟩

theorem WellFormed.disableSession (h : WellFormed r) : WellFormed r.disableSession.1 :=
  WellFormed.takeAway ⟨h.ids, h.current⟩

theorem WellFormed.clearSession (h : WellFormed r) (id : Nat) :
    WellFormed (r.clearSession id).1 := by
  have hout : WellFormed (if r.current = some id then r.takeAway else (r, [])).1 := by
    split
    · exact h.takeAway
    · exact h
  exact ⟨hout.ids, hout.current⟩

theorem WellFormed.resetSession (h : WellFormed r) (resources : Pool) :
    WellFormed (r.resetSession resources).1 := by
  unfold Remote.resetSession
  split
  · constructor
    · intro id session hlookup
      by_cases hid : id = r.nextId
      · subst hid
        rw [AList.lookup_insert, Option.some.injEq] at hlookup
        subst hlookup
        exact ⟨rfl, Nat.lt_succ_self _⟩
      · rw [AList.lookup_insert_ne hid] at hlookup
        exact (h.ids id session hlookup).imp_right Nat.lt_succ_of_lt
    · rintro id ⟨⟩
      exact ⟨_, AList.lookup_insert _, rfl⟩
  · exact h

theorem WellFormed.release (h : WellFormed r) (elsewhere : List Nat) :
    WellFormed (r.release elsewhere).1 := by
  constructor
  · intro id session hlookup
    refine h.ids id session ?_
    rw [Remote.release, AList.lookup_filterKeys] at hlookup
    exact (Option.ite_none_right_eq_some.mp hlookup).2
  · intro id hcurrent
    obtain ⟨session, hlookup, hactive⟩ := h.current id hcurrent
    refine ⟨session, ?_, hactive⟩
    have hrefers : r.refersTo elsewhere id := by simp [refersTo, show r.current = some id from hcurrent]
    rw [Remote.release, AList.lookup_filterKeys, if_pos hrefers]
    exact hlookup

end Remote

end ZenRemote.Client
