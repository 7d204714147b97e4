-- SUMMARY: Runs of the operations that enable, create, clear and disable sessions: discovery, the current session, and ids.
import ZenRemote.Client.Remote
import ZenRemote.Lib.Machine

/-!
# Session control

The headset is discoverable exactly when it can take a session: the broadcaster runs
as long as sessions are enabled and none is current. Each operation holds
`current_session_mutex_` throughout and is one step.
-/

namespace ZenRemote.Client

universe u v

namespace Remote

variable {α : Type u} {Pool : Type v} {r : Remote α Pool}

/-- What the operations keep. The broadcaster runs when a session can be accepted, and
the current session is the last one that was created. -/
structure Controlled (r : Remote α Pool) : Prop extends WellFormed r where
  broadcasting : r.broadcasting = r.isNewSessionAcceptable
  enabled : r.current.isSome → r.sessionIsEnabled
  latest : ∀ id, r.current = some id → id + 1 = r.nextId

/-- The control of the sessions is none of its business. -/
theorem takeAway_eq (r : Remote α Pool) :
    ∃ sessions current, r.takeAway.1 = { r with sessions, current } := by
  unfold takeAway
  split
  · unfold modify
    split
    · exact ⟨_, _, rfl⟩
    · exact ⟨_, _, rfl⟩
  · exact ⟨_, _, rfl⟩

theorem sessionIsEnabled_takeAway : r.takeAway.1.sessionIsEnabled = r.sessionIsEnabled := by
  obtain ⟨_, _, htaken⟩ := r.takeAway_eq
  rw [htaken]

theorem sessionIsEnabled_clearSession (id : Nat) :
    (r.clearSession id).1.sessionIsEnabled = r.sessionIsEnabled := by
  unfold Remote.clearSession
  dsimp only
  split
  · exact sessionIsEnabled_takeAway
  · rfl

theorem broadcasting_takeAway : r.takeAway.1.broadcasting = r.broadcasting := by
  obtain ⟨_, _, htaken⟩ := r.takeAway_eq
  rw [htaken]

theorem controlled_init : Controlled ({} : Remote α Pool) where
  ids := nofun
  current := nofun
  broadcasting := rfl
  enabled := nofun
  latest := nofun

theorem Controlled.enableSession (h : Controlled r) : Controlled r.enableSession where
  toWellFormed := h.toWellFormed.enableSession
  broadcasting := by
    show (r.broadcasting || r.current.isNone) = (r.current.isNone && true)
    rw [h.broadcasting, isNewSessionAcceptable]
    cases r.current.isNone with
    | true => exact Bool.or_true _
    | false => rfl
  enabled := fun _ => rfl
  latest := h.latest

theorem Controlled.disableSession (h : Controlled r) : Controlled r.disableSession.1 where
  toWellFormed := h.toWellFormed.disableSession
  broadcasting := by
    show Remote.broadcasting (takeAway _).1 = isNewSessionAcceptable (takeAway _).1
    rw [broadcasting_takeAway, isNewSessionAcceptable, current_takeAway, sessionIsEnabled_takeAway]
    rfl
  enabled := by
    show (takeAway _).1.current.isSome → _
    rw [current_takeAway]
    exact nofun
  latest := by
    show ∀ id, (takeAway _).1.current = some id → _
    rw [current_takeAway]
    exact nofun

theorem Controlled.resetSession (h : Controlled r) (resources : Pool) :
    Controlled (r.resetSession resources).1 := by
  refine ⟨h.toWellFormed.resetSession resources, ?_, ?_, ?_⟩
  · unfold Remote.resetSession
    split
    · rfl
    · exact h.broadcasting
  · unfold Remote.resetSession
    split
    · rename_i henabled
      exact fun _ => henabled
    · exact h.enabled
  · unfold Remote.resetSession
    split
    · rintro id ⟨⟩
      rfl
    · exact h.latest

/-- Clearing another session than the current one changes nothing. -/
theorem Controlled.clearSession_of_ne (h : Controlled r) {id : Nat} (hne : r.current ≠ some id) :
    (r.clearSession id).1 = r := by
  have hbroadcasting : (r.broadcasting || (r.current.isNone && r.sessionIsEnabled)) = r.broadcasting := by
    rw [h.broadcasting, isNewSessionAcceptable, Bool.or_self]
  unfold clearSession
  dsimp only
  rw [if_neg hne, hbroadcasting]

theorem Controlled.clearSession (h : Controlled r) (id : Nat) : Controlled (r.clearSession id).1 := by
  cases Decidable.em (r.current = some id) with
  | inr hne =>
    rw [h.clearSession_of_ne hne]
    exact h
  | inl heq =>
    have hcurrent : (r.clearSession id).1.current = none := by rw [current_clearSession, if_pos heq]
    have hbroadcasting : (r.clearSession id).1.broadcasting = (r.broadcasting || r.sessionIsEnabled) := by
      unfold Remote.clearSession
      dsimp only
      rw [if_pos heq, broadcasting_takeAway, current_takeAway, sessionIsEnabled_takeAway]
      rfl
    refine ⟨h.toWellFormed.clearSession id, ?_, ?_, ?_⟩
    · rw [hbroadcasting, isNewSessionAcceptable, hcurrent, sessionIsEnabled_clearSession, h.broadcasting,
        isNewSessionAcceptable, heq]
      rfl
    · rw [hcurrent]
      exact nofun
    · rw [hcurrent]
      exact nofun

end Remote

-- ---------------------------------------------------------------------------
-- Runs
-- ---------------------------------------------------------------------------

/-- `Remote`, with the ids of the sessions that it has created, in their order. -/
structure SessionControl (α : Type u) (Pool : Type v) where
  remote : Remote α Pool := {}
  created : List Nat := []

inductive SessionControl.Label (Pool : Type v) where
  | enableSession
  | disableSession
  | resetSession (resources : Pool)
  | clearSession (id : Nat)

namespace SessionControl

variable {α : Type u} {Pool : Type v}

def step (s : SessionControl α Pool) : Label Pool → SessionControl α Pool
  | .enableSession => { s with remote := s.remote.enableSession }
  | .disableSession => { s with remote := s.remote.disableSession.1 }
  | .resetSession resources =>
    { remote := (s.remote.resetSession resources).1
      created := s.created ++ (s.remote.resetSession resources).2.toList }
  | .clearSession id => { s with remote := (s.remote.clearSession id).1 }

def machine (α : Type u) (Pool : Type v) : Machine (SessionControl α Pool) (Label Pool) where
  init := {}
  step s l := some (s.step l)

/-- Whether sessions are enabled after a call. -/
def Label.enabledAfter (enabled : Bool) : Label Pool → Bool
  | .enableSession => true
  | .disableSession => false
  | .resetSession _ | .clearSession _ => enabled

/-- What the last of the calls that enable or disable sessions has decided. -/
def lastEnabled (ls : List (Label Pool)) : Bool := ls.foldl Label.enabledAfter false

/-- Discovery runs exactly when a session can be accepted; the current session is active,
while sessions are enabled; ids increase, and those of earlier sessions clear nothing. The
calls do what their names say: the last one to enable or disable sessions decides the flag,
a new session is current if and only if there can be one, and disabling sessions or clearing
the current one leaves none. -/
structure InControl (ls : List (Label Pool)) (s : SessionControl α Pool) : Prop where
  enabled : s.remote.sessionIsEnabled = lastEnabled ls
  broadcasting : s.remote.broadcasting ↔ s.remote.sessionIsEnabled ∧ s.remote.current = none
  isNewSessionAcceptable : s.remote.isNewSessionAcceptable ↔ s.remote.broadcasting
  current : ∀ id, s.remote.current = some id →
    s.remote.sessionIsEnabled ∧ ∃ session, s.remote.sessions.lookup id = some session ∧ session.active
  increasing : s.created.Pairwise (· < ·)
  clearSession : ∀ id ∈ s.created, ∀ newer, s.remote.current = some newer → id ≠ newer →
    id < newer ∧ (s.remote.clearSession id).1 = s.remote
  clearCurrent : ∀ id, s.remote.current = some id → (s.remote.clearSession id).1.current = none
  disableSession : s.remote.disableSession.1.current = none
  refuses : s.remote.sessionIsEnabled = false → ∀ resources,
    s.remote.resetSession resources = (s.remote, none)
  resetSession : s.remote.sessionIsEnabled = true → ∀ resources, ∃ id,
    (s.remote.resetSession resources).2 = some id ∧
      (s.remote.resetSession resources).1.current = some id ∧ ∀ older ∈ s.created, older < id

variable {s : SessionControl α Pool}

structure Invariant (s : SessionControl α Pool) : Prop where
  controlled : s.remote.Controlled
  increasing : s.created.Pairwise (· < ·)
  below : ∀ id ∈ s.created, id < s.remote.nextId

theorem Invariant.step (h : Invariant s) (l : Label Pool) : Invariant (s.step l) := by
  cases l with
  | enableSession => exact ⟨h.controlled.enableSession, h.increasing, h.below⟩
  | disableSession =>
    refine ⟨h.controlled.disableSession, h.increasing, fun id hid => ?_⟩
    show id < (Remote.takeAway _).1.nextId
    rw [Remote.nextId_takeAway]
    exact h.below id hid
  | clearSession cleared =>
    refine ⟨h.controlled.clearSession cleared, h.increasing, fun id hid => ?_⟩
    show id < (s.remote.clearSession cleared).1.nextId
    rw [Remote.nextId_clearSession]
    exact h.below id hid
  | resetSession resources =>
    refine ⟨h.controlled.resetSession resources, ?_, ?_⟩
    · show (s.created ++ (s.remote.resetSession resources).2.toList).Pairwise (· < ·)
      unfold Remote.resetSession
      split
      · rw [List.pairwise_append]
        refine ⟨h.increasing, List.pairwise_singleton _ _, fun id hid newer hnewer => ?_⟩
        rw [List.mem_singleton.mp hnewer]
        exact h.below id hid
      · exact (List.append_nil s.created).symm ▸ h.increasing
    · show ∀ id ∈ s.created ++ (s.remote.resetSession resources).2.toList,
        id < (s.remote.resetSession resources).1.nextId
      unfold Remote.resetSession
      split
      · intro id hid
        cases List.mem_append.mp hid with
        | inl hold => exact Nat.lt_succ_of_lt (h.below id hold)
        | inr hnew => exact List.mem_singleton.mp hnew ▸ Nat.lt_succ_self _
      · exact (List.append_nil s.created).symm ▸ h.below

theorem sessionIsEnabled_step (s : SessionControl α Pool) (l : Label Pool) :
    (s.step l).remote.sessionIsEnabled = l.enabledAfter s.remote.sessionIsEnabled := by
  cases l with
  | enableSession => rfl
  | disableSession =>
    show (Remote.takeAway _).1.sessionIsEnabled = false
    rw [Remote.sessionIsEnabled_takeAway]
  | resetSession resources =>
    show (s.remote.resetSession resources).1.sessionIsEnabled = s.remote.sessionIsEnabled
    unfold Remote.resetSession
    split
    · rfl
    · rfl
  | clearSession id => exact Remote.sessionIsEnabled_clearSession id

theorem sessionIsEnabled_run {ls : List (Label Pool)} (hrun : (machine α Pool).run ls = some s) :
    s.remote.sessionIsEnabled = lastEnabled ls := by
  induction ls using List.reverseRecOn generalizing s with
  | nil =>
    cases hrun
    rfl
  | append_singleton ls l ih =>
    obtain ⟨t, ht, hstep⟩ := Machine.run_concat.mp hrun
    cases hstep
    rw [sessionIsEnabled_step, ih ht, lastEnabled, lastEnabled, List.foldl_append]
    rfl

theorem Invariant.inControl (h : Invariant s) {ls : List (Label Pool)}
    (henabled : s.remote.sessionIsEnabled = lastEnabled ls) : InControl ls s := by
  have hacceptable : s.remote.isNewSessionAcceptable ↔
      s.remote.sessionIsEnabled ∧ s.remote.current = none := by
    simp [Remote.isNewSessionAcceptable, and_comm]
  refine ⟨henabled, ?_, ?_, ?_, h.increasing, ?_, ?_, Remote.current_takeAway, ?_, ?_⟩
  · rw [h.controlled.broadcasting]
    exact hacceptable
  · rw [h.controlled.broadcasting]
  · intro id hid
    exact ⟨h.controlled.enabled (hid ▸ rfl), h.controlled.current id hid⟩
  · intro id hid newer hnewer hne
    have hbelow := h.below id hid
    have hlatest := h.controlled.latest newer hnewer
    refine ⟨by omega, h.controlled.clearSession_of_ne ?_⟩
    rw [hnewer]
    exact fun heq => hne (Option.some.inj heq).symm
  · intro id hid
    rw [Remote.current_clearSession, if_pos hid]
  · intro hdisabled resources
    exact if_neg (Bool.eq_false_iff.mp hdisabled)
  · intro henabled resources
    rw [Remote.resetSession, if_pos henabled]
    exact ⟨s.remote.nextId, rfl, rfl, h.below⟩

theorem inControl_run {ls : List (Label Pool)} (hrun : (machine α Pool).run ls = some s) :
    InControl ls s := by
  have hinvariant : Invariant s := by
    apply Machine.run_invariant _ _ hrun
    · exact ⟨Remote.controlled_init, .nil, nofun⟩
    · rintro s l s' h ⟨⟩
      exact h.step l
  exact hinvariant.inControl (sessionIsEnabled_run hrun)

/-- The second session replaces the first, whose id is then cleared. -/
def replacedAndCleared : List (Label Unit) :=
  [.enableSession, .resetSession (), .resetSession (), .clearSession 1]

theorem inControl_replacedAndCleared : ∃ s, (machine Unit Unit).run replacedAndCleared = some s ∧
    s.remote.current = some 2 ∧ s.created = [1, 2] ∧ InControl replacedAndCleared s :=
  ⟨_, rfl, rfl, rfl, inControl_run (rfl : (machine Unit Unit).run replacedAndCleared = some _)⟩

end SessionControl

end ZenRemote.Client
