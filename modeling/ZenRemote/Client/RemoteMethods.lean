-- SUMMARY: The methods of `Remote` that wait for the broadcaster, step by step, and the operations that they amount to.
import ZenRemote.Client.DiscoveryBroadcasts
import ZenRemote.Client.Keepalive
import ZenRemote.Client.SessionControl

/-!
# The methods of `Remote`, step by step

`StopAndWait` blocks its caller until the broadcaster has returned. The caller holds
`current_session_mutex_` meanwhile, but the broadcaster goes on, and so does the
completion-queue thread, which reads `current()` without the mutex. Whoever takes
`thread_mutex_` has that mutex already, or is the last to use the broadcaster.
-/

namespace ZenRemote.Client

universe u v

namespace RemoteMethods

/-- The callers of `StopAndWait`; the last one is the destructor of `discovery_broadcast_`. -/
inductive Method where
  | resetSession
  | disableSession
  | destroyBody
  | destroyMembers
  deriving DecidableEq, Repr

/-- How far `StopAndWait` is. -/
inductive Progress where
  | entered
  /-- `running_` has been cleared. -/
  | notifying
  | joining
  deriving DecidableEq, Repr

/-- The flag `broadcasting` of `calls` is not used: `running_` is in `discovery`. -/
structure State (α : Type u) (Pool : Type v) where
  calls : Keepalive.State α Pool := {}
  discovery : DiscoveryBroadcasts := {}
  /-- The method that is in `StopAndWait`. It has `current_session_mutex_`. -/
  stopping : Option (Method × Progress) := none

inductive Label (Pool : Type v) where
  /-- An operation, up to its `StopAndWait` if there is one. -/
  | call (l : Keepalive.Label Pool)
  /-- `StopAndWait` looks at `running_`. -/
  | clearRunning
  | notifyOne (woken : Option Nat)
  | join
  | broadcaster (i : Nat) (a : Broadcaster.Action)

namespace State

variable {α : Type u} {Pool : Type v}

def beginStop (s : State α Pool) (m : Method) : State α Pool := { s with stopping := some (m, .entered) }

def start (s : State α Pool) : State α Pool := { s with discovery := s.discovery.startIfNotRunning }

def enableSession (s : State α Pool) : State α Pool :=
  let s := { s with calls := { s.calls with remote := { s.calls.remote with sessionIsEnabled := true } } }
  if s.calls.remote.current.isNone then s.start else s

def disableSession (s : State α Pool) : State α Pool :=
  { s with calls := { s.calls with
      remote := { s.calls.remote with sessionIsEnabled := false } } }.beginStop .disableSession

def resetSession (s : State α Pool) (resources : Pool) : State α Pool :=
  let r := s.calls.remote
  if r.sessionIsEnabled then
    { s with calls := { s.calls with remote := { r with
        current := some r.nextId
        nextId := r.nextId + 1
        sessions := r.sessions.insert r.nextId { id := r.nextId, resources } } } }.beginStop .resetSession
  else s

def clearSession (s : State α Pool) (id : Nat) : State α Pool :=
  let s := if s.calls.remote.current = some id then { s with calls := s.calls.apply s.calls.remote.takeAway }
    else s
  if s.calls.remote.isNewSessionAcceptable then s.start else s

def destroyBody (s : State α Pool) : State α Pool :=
  { s with calls := { s.calls.apply s.calls.remote.takeAway with life := .bodyDone } }.beginStop .destroyBody

def destroyMembers (s : State α Pool) : State α Pool :=
  { s with calls := s.calls.destroyMembers }.beginStop .destroyMembers

/-- `current_session_mutex_` is free. -/
def isFree (s : State α Pool) : Bool := s.stopping.isNone

/-- The method that waits for the broadcaster, or is about to. -/
def method (s : State α Pool) : Option Method := s.stopping.map Prod.fst

/-- The completion-queue thread is waiting for the broadcaster. -/
def isBlocked (s : State α Pool) : Bool := s.method = some .resetSession

def call (s : State α Pool) : Keepalive.Label Pool → Option (State α Pool)
  | .newSession resources => if s.isFree ∧ s.calls.isIdle then some (s.resetSession resources) else none
  | .shutdownSession id => if s.isFree ∧ s.calls.isIdle then some (s.clearSession id) else none
  | .enableSession => if s.isFree ∧ s.calls.life = .alive then some s.enableSession else none
  | .disableSession => if s.isFree ∧ s.calls.life = .alive then some s.disableSession else none
  | .keepalive id =>
    if !s.isBlocked ∧ s.calls.isIdle then some { s with calls := s.calls.keepalive id } else none
  | .setKeepaliveCaller =>
    if s.isBlocked then none else s.calls.setKeepaliveCaller.map fun calls => { s with calls }
  | .destroyBody => if s.isFree ∧ s.calls.life = .alive then some s.destroyBody else none
  | .destroyMembers =>
    if s.isFree ∧ s.calls.attaching = none ∧ s.calls.life = .bodyDone then some s.destroyMembers else none

/-- What a method does after its `StopAndWait`. -/
def returned (s : State α Pool) (m : Method) : State α Pool :=
  let s := { s with stopping := none }
  match m with
  | .disableSession => { s with calls := s.calls.apply s.calls.remote.takeAway }
  | .resetSession | .destroyBody => s
  | .destroyMembers => { s with discovery := s.discovery.destroyThread }

def step (s : State α Pool) : Label Pool → Option (State α Pool)
  | .call l => s.call l
  | .clearRunning =>
    match s.stopping with
    | some (m, .entered) =>
      if s.discovery.running then
        some { s with discovery := s.discovery.clearRunning, stopping := some (m, .notifying) }
      else some (s.returned m)
    | _ => none
  | .notifyOne woken =>
    match s.stopping with
    | some (m, .notifying) =>
      (s.discovery.notifyOne woken).map fun discovery => { s with discovery, stopping := some (m, .joining) }
    | _ => none
  | .join =>
    match s.stopping with
    | some (m, .joining) => s.discovery.join.map fun discovery => { s with discovery }.returned m
    | _ => none
  | .broadcaster i a => (s.discovery.act i a).map fun discovery => { s with discovery }

/-- The operation that takes effect in a step. `DisableSession` takes the session away when
it returns; of the others all is seen as soon as they are called. -/
def effect (s : State α Pool) : Label Pool → List (Keepalive.Label Pool)
  | .call .disableSession => []
  | .call l => [l]
  | .clearRunning =>
    if s.method = some .disableSession ∧ s.discovery.running = false then [.disableSession] else []
  | .join => if s.method = some .disableSession then [.disableSession] else []
  | .notifyOne _ | .broadcaster .. => []

end State

def machine (α : Type u) (Pool : Type v) : Machine (State α Pool) (Label Pool) where
  init := {}
  step := State.step

variable {α : Type u} {Pool : Type v} {s s' : State α Pool}

-- ---------------------------------------------------------------------------
-- The broadcaster
-- ---------------------------------------------------------------------------

/-- The broadcaster is there as long as `running_` is set, or somebody waits for it. -/
structure Invariant (s : State α Pool) : Prop where
  discovery : s.discovery.WellFormed
  running : s.discovery.running = false → s.discovery.thread.isSome →
    ∃ m p, s.stopping = some (m, p) ∧ p ≠ .entered
  stopping : ∀ m p, s.stopping = some (m, p) → p ≠ .entered →
    s.discovery.running = false ∧ s.discovery.thread.isSome
  aware : s.discovery.running = false → (∀ m, s.stopping ≠ some (m, .notifying)) → s.discovery.Aware

/-- All that a call does to the broadcaster. -/
inductive Called (s s' : State α Pool) : Prop
  | same (hdiscovery : s'.discovery = s.discovery) (hstopping : s'.stopping = s.stopping)
  | start (hfree : s.stopping = none) (hstopping : s'.stopping = none)
      (hdiscovery : s'.discovery = s.discovery.startIfNotRunning)
  | stop (m : Method) (hfree : s.stopping = none) (hstopping : s'.stopping = some (m, .entered))
      (hdiscovery : s'.discovery = s.discovery)

theorem isFree_iff : s.isFree ↔ s.stopping = none := Option.isNone_iff_eq_none

theorem called_call {l : Keepalive.Label Pool} (hstep : s.call l = some s') : Called s s' := by
  cases l with
  | newSession resources =>
    obtain ⟨⟨hfree, -⟩, hstep⟩ := Option.ite_none_right_eq_some.mp hstep
    cases hstep
    unfold State.resetSession
    dsimp only
    split
    · exact .stop _ (isFree_iff.mp hfree) rfl rfl
    · exact .same rfl rfl
  | shutdownSession id =>
    obtain ⟨⟨hfree, -⟩, hstep⟩ := Option.ite_none_right_eq_some.mp hstep
    cases hstep
    unfold State.clearSession
    dsimp only
    split
    · split
      · exact .start (isFree_iff.mp hfree) (isFree_iff.mp hfree) rfl
      · exact .same rfl rfl
    · split
      · exact .start (isFree_iff.mp hfree) (isFree_iff.mp hfree) rfl
      · exact .same rfl rfl
  | enableSession =>
    obtain ⟨⟨hfree, -⟩, hstep⟩ := Option.ite_none_right_eq_some.mp hstep
    cases hstep
    unfold State.enableSession
    dsimp only
    split
    · exact .start (isFree_iff.mp hfree) (isFree_iff.mp hfree) rfl
    · exact .same rfl rfl
  | disableSession =>
    obtain ⟨⟨hfree, -⟩, hstep⟩ := Option.ite_none_right_eq_some.mp hstep
    cases hstep
    exact .stop _ (isFree_iff.mp hfree) rfl rfl
  | keepalive id =>
    obtain ⟨-, hstep⟩ := Option.ite_none_right_eq_some.mp hstep
    cases hstep
    exact .same rfl rfl
  | setKeepaliveCaller =>
    obtain ⟨-, hstep⟩ := Option.ite_none_left_eq_some.mp hstep
    obtain ⟨calls, -, rfl⟩ := Option.map_eq_some_iff.mp hstep
    exact .same rfl rfl
  | destroyBody =>
    obtain ⟨⟨hfree, -⟩, hstep⟩ := Option.ite_none_right_eq_some.mp hstep
    cases hstep
    exact .stop _ (isFree_iff.mp hfree) rfl rfl
  | destroyMembers =>
    obtain ⟨⟨hfree, -⟩, hstep⟩ := Option.ite_none_right_eq_some.mp hstep
    cases hstep
    exact .stop _ (isFree_iff.mp hfree) rfl rfl

/-- All that a step of `StopAndWait` or of the broadcaster can do. -/
inductive Stepped (s : State α Pool) : Label Pool → State α Pool → Prop
  | call {l : Keepalive.Label Pool} {s' : State α Pool} (hcall : s.call l = some s') :
      Stepped s (.call l) s'
  | clear {m : Method} (hstopping : s.stopping = some (m, .entered)) (hrunning : s.discovery.running = true) :
      Stepped s .clearRunning
        { s with discovery := s.discovery.clearRunning, stopping := some (m, .notifying) }
  | idle {m : Method} (hstopping : s.stopping = some (m, .entered)) (hrunning : s.discovery.running = false) :
      Stepped s .clearRunning (s.returned m)
  | notify {m : Method} {woken : Option Nat} {d : DiscoveryBroadcasts}
      (hstopping : s.stopping = some (m, .notifying)) (hd : DiscoveryBroadcasts.Notified s.discovery d) :
      Stepped s (.notifyOne woken) { s with discovery := d, stopping := some (m, .joining) }
  | join {m : Method} {d : DiscoveryBroadcasts} (hstopping : s.stopping = some (m, .joining))
      (hd : s.discovery.join = some d) : Stepped s .join ({ s with discovery := d }.returned m)
  | act {i : Nat} {a : Broadcaster.Action} {d : DiscoveryBroadcasts}
      (hd : DiscoveryBroadcasts.Acted s.discovery i a d) :
      Stepped s (.broadcaster i a) { s with discovery := d }

theorem step_cases {l : Label Pool} (hstep : s.step l = some s') : Stepped s l s' := by
  cases l with
  | call l => exact .call hstep
  | clearRunning =>
    simp only [State.step] at hstep
    split at hstep
    · next m hstopping =>
      split at hstep
      · next hrunning =>
        cases hstep
        exact .clear hstopping hrunning
      · next hrunning =>
        cases hstep
        exact .idle hstopping (Bool.eq_false_iff.mpr hrunning)
    · cases hstep
  | notifyOne woken =>
    simp only [State.step] at hstep
    split at hstep
    · next m hstopping =>
      obtain ⟨d, hd, rfl⟩ := Option.map_eq_some_iff.mp hstep
      exact .notify hstopping (DiscoveryBroadcasts.notified_notifyOne hd)
    · cases hstep
  | join =>
    simp only [State.step] at hstep
    split at hstep
    · next m hstopping =>
      obtain ⟨d, hd, rfl⟩ := Option.map_eq_some_iff.mp hstep
      exact .join hstopping hd
    · cases hstep
  | broadcaster i a =>
    obtain ⟨d, hd, rfl⟩ := Option.map_eq_some_iff.mp hstep
    exact .act (DiscoveryBroadcasts.acted_act hd)

theorem stopping_returned (s : State α Pool) (m : Method) : (s.returned m).stopping = none := by
  cases m with
  | _ => rfl

/-- After `StopAndWait` there is no thread left that the destructor could find. -/
theorem discovery_returned (hthread : s.discovery.thread = none) (m : Method) :
    (s.returned m).discovery = s.discovery := by
  cases m with
  | resetSession | disableSession | destroyBody => rfl
  | destroyMembers =>
    show { s.discovery with terminated := s.discovery.terminated || s.discovery.thread.isSome } = s.discovery
    rw [hthread, Option.isSome_none, Bool.or_false]

theorem invariant_init : Invariant ({} : State α Pool) where
  discovery := DiscoveryBroadcasts.wellFormed_init
  running := nofun
  stopping := nofun
  aware := fun _ _ => nofun

theorem Invariant.thread_of_free (h : Invariant s)
    (hfree : ∀ m p, s.stopping = some (m, p) → p = .entered) (hrunning : s.discovery.running = false) :
    s.discovery.thread = none := by
  rw [← Option.not_isSome_iff_eq_none]
  intro hthread
  obtain ⟨m, p, hstopping, hp⟩ := h.running hrunning hthread
  exact hp (hfree m p hstopping)

/-- Nothing is left to be waited for. -/
theorem Invariant.returned (h : Invariant s) (hthread : s.discovery.thread = none)
    (haware : s.discovery.Aware) (m : Method) : Invariant (s.returned m) := by
  have hdiscovery := discovery_returned hthread m
  refine ⟨?_, ?_, ?_, ?_⟩
  · rw [hdiscovery]
    exact h.discovery
  · rw [hdiscovery, hthread]
    exact nofun
  · rw [stopping_returned]
    exact nofun
  · rw [hdiscovery]
    exact fun _ _ => haware

theorem Invariant.called (h : Invariant s) (hcalled : Called s s') : Invariant s' := by
  cases hcalled with
  | same hdiscovery hstopping =>
    refine ⟨?_, ?_, ?_, ?_⟩
    · exact hdiscovery ▸ h.discovery
    · exact hdiscovery ▸ hstopping ▸ h.running
    · exact hdiscovery ▸ hstopping ▸ h.stopping
    · exact hdiscovery ▸ hstopping ▸ h.aware
  | start hfree hstopping hdiscovery =>
    have hnone := h.thread_of_free (by rw [hfree]; exact nofun)
    have hset : s'.discovery.running = true := by
      rw [hdiscovery, DiscoveryBroadcasts.startIfNotRunning]
      split
      · assumption
      · rfl
    refine ⟨?_, ?_, ?_, ?_⟩
    · rw [hdiscovery]
      exact h.discovery.startIfNotRunning hnone
    · rw [hset]
      exact nofun
    · rw [hstopping]
      exact nofun
    · rw [hset]
      exact nofun
  | stop m hfree hstopping hdiscovery =>
    have hnone := h.thread_of_free (by rw [hfree]; exact nofun)
    refine ⟨?_, ?_, ?_, ?_⟩
    · exact hdiscovery ▸ h.discovery
    · rw [hdiscovery]
      intro hrunning hthread
      rw [hnone hrunning] at hthread
      cases hthread
    · rw [hstopping]
      rintro _ _ ⟨⟩ hp
      exact absurd rfl hp
    · rw [hdiscovery]
      intro hrunning _
      exact h.aware hrunning (by rw [hfree]; exact nofun)

theorem Invariant.step (h : Invariant s) {l : Label Pool} (hstep : s.step l = some s') : Invariant s' := by
  cases step_cases hstep with
  | call hcall => exact h.called (called_call hcall)
  | @clear m hstopping hrunning =>
    obtain ⟨i, b, hthread, -, -⟩ := h.discovery.running hrunning
    refine ⟨h.discovery.clearRunning, ?_, ?_, ?_⟩
    · exact fun _ _ => ⟨m, .notifying, rfl, nofun⟩
    · exact fun _ _ _ _ => ⟨rfl, Option.isSome_iff_exists.mpr ⟨i, hthread⟩⟩
    · exact fun _ hne => absurd rfl (hne m)
  | @idle m hstopping hrunning =>
    have hentered : ∀ m' p, s.stopping = some (m', p) → p = .entered := by
      rw [hstopping]
      rintro _ _ ⟨⟩
      rfl
    have haware := h.aware hrunning (by rw [hstopping]; exact nofun)
    exact h.returned (h.thread_of_free hentered hrunning) haware m
  | @notify m woken d hstopping hd =>
    obtain ⟨hclear, hthread⟩ := h.stopping m .notifying hstopping nofun
    obtain ⟨hrunning', hthread'⟩ := DiscoveryBroadcasts.running_notified hd
    refine ⟨h.discovery.notified hd, ?_, ?_, ?_⟩
    · exact fun _ _ => ⟨m, .joining, rfl, nofun⟩
    · exact fun _ _ _ _ => ⟨hrunning'.trans hclear, hthread' ▸ hthread⟩
    · exact fun _ _ => h.discovery.aware_notified hd
  | @join m d hstopping hd =>
    obtain ⟨hclear, hthread⟩ := h.stopping m .joining hstopping nofun
    obtain ⟨hwellFormed, hnone, -, rfl⟩ := h.discovery.join hthread hd
    have haware := h.aware hclear (by rw [hstopping]; exact nofun)
    have hjoined : Invariant { s with
        discovery := { s.discovery with thread := none }, stopping := none } :=
      ⟨hwellFormed, nofun, nofun, fun _ _ => haware⟩
    exact hjoined.returned rfl haware m
  | @act i a d hd =>
    obtain ⟨hrunning, hthread⟩ := DiscoveryBroadcasts.running_acted hd
    refine ⟨h.discovery.acted hd, ?_, ?_, ?_⟩
    · rw [hrunning, hthread]
      exact h.running
    · rw [hrunning, hthread]
      exact h.stopping
    · rw [hrunning]
      exact fun hclear hne => (h.aware hclear hne).acted hclear hd

theorem invariant_run {ls : List (Label Pool)} (hrun : (machine α Pool).run ls = some s) : Invariant s :=
  Machine.run_invariant invariant_init (fun _ _ _ h hstep => h.step hstep) hrun

-- ---------------------------------------------------------------------------
-- The operations that take effect
-- ---------------------------------------------------------------------------

def withFlags (a : Keepalive.State α Pool) (enabled broadcasting : Bool) : Keepalive.State α Pool :=
  { a with remote := { a.remote with sessionIsEnabled := enabled, broadcasting } }

/-- `a` is the state after the operations that have taken effect. It is the state of the
calls but for the flags, and these are the same whenever no method is under way. -/
structure Abstracts (s : State α Pool) (a : Keepalive.State α Pool) : Prop where
  calls : ∃ enabled, s.calls = withFlags a enabled false
  enabled : s.method ≠ some .disableSession → s.calls.remote.sessionIsEnabled = a.remote.sessionIsEnabled
  disabled : s.method = some .disableSession → s.calls.remote.sessionIsEnabled = false ∧ a.life = .alive
  broadcasting : s.method = none → a.life ≠ .destroyed → s.discovery.running = a.remote.broadcasting
  stopped : s.method = some .resetSession ∨ s.method = some .destroyBody → a.remote.broadcasting = false
  destroyed : s.method = some .destroyMembers → a.life = .destroyed
  ended : s.method = none → a.life = .destroyed → s.discovery.running = false

variable {a a' : Keepalive.State α Pool} {enabled broadcasting : Bool}

theorem modify_flags (r : Remote α Pool) (id : Nat) (f : Session α Pool → Session α Pool)
    (enabled broadcasting : Bool) :
    ({ r with sessionIsEnabled := enabled, broadcasting } : Remote α Pool).modify id f =
      { r.modify id f with sessionIsEnabled := enabled, broadcasting } := by
  unfold Remote.modify
  dsimp only
  split
  · rfl
  · rfl

theorem apply_takeAway_withFlags :
    (withFlags a enabled broadcasting).apply (withFlags a enabled broadcasting).remote.takeAway =
      withFlags (a.apply a.remote.takeAway) enabled broadcasting := by
  unfold Remote.takeAway withFlags
  dsimp only
  split
  · simp only [modify_flags]
    rfl
  · rfl

theorem keepalive_withFlags (id : Nat) :
    (withFlags a enabled broadcasting).keepalive id = withFlags (a.keepalive id) enabled broadcasting := by
  have hcurrent : (withFlags a enabled broadcasting).remote.currentSession = a.remote.currentSession := rfl
  unfold Keepalive.State.keepalive
  dsimp only
  rw [hcurrent]
  cases a.remote.currentSession with
  | none => rfl
  | some session =>
    dsimp only
    split
    · rfl
    · rfl

theorem remote_keepalive (id : Nat) : (a.keepalive id).remote = a.remote ∧ (a.keepalive id).life = a.life := by
  unfold Keepalive.State.keepalive
  dsimp only
  split
  · split
    · exact ⟨rfl, rfl⟩
    · exact ⟨rfl, rfl⟩
  · exact ⟨rfl, rfl⟩

theorem setKeepaliveCaller_withFlags :
    (withFlags a enabled broadcasting).setKeepaliveCaller =
      a.setKeepaliveCaller.map fun a => withFlags a enabled broadcasting := by
  unfold Keepalive.State.setKeepaliveCaller withFlags
  cases a.attaching with
  | none => rfl
  | some attaching =>
    obtain ⟨caller, sid⟩ := attaching
    simp only [Option.bind_some, Option.map_map, modify_flags]
    refine congrArg (Option.map · (a.remote.sessions.lookup sid)) (funext fun session => ?_)
    simp only [Function.comp_apply]
    split
    · rfl
    · rfl

/-- The life, and the flags, are no business of the keepalive calls. -/
theorem setKeepaliveCaller_same (h : a.setKeepaliveCaller = some a') :
    a'.life = a.life ∧ a'.remote.sessionIsEnabled = a.remote.sessionIsEnabled ∧
      a'.remote.broadcasting = a.remote.broadcasting := by
  obtain ⟨⟨caller, sid⟩, -, h⟩ := Option.bind_eq_some_iff.mp h
  obtain ⟨session, -, rfl⟩ := Option.map_eq_some_iff.mp h
  have hflags : ∀ f, (a.remote.modify sid f).sessionIsEnabled = a.remote.sessionIsEnabled ∧
      (a.remote.modify sid f).broadcasting = a.remote.broadcasting := by
    intro f
    unfold Remote.modify
    split
    · exact ⟨rfl, rfl⟩
    · exact ⟨rfl, rfl⟩
  dsimp only
  split
  · exact ⟨rfl, hflags _⟩
  · exact ⟨rfl, hflags _⟩

theorem abstracts_init : Abstracts ({} : State α Pool) {} where
  calls := ⟨false, rfl⟩
  enabled := fun _ => rfl
  disabled := nofun
  broadcasting := fun _ _ => rfl
  stopped := by rintro (h | h) <;> cases h
  destroyed := nofun
  ended := fun _ _ => rfl

/-- Neither the calls nor the method that is under way have changed. -/
theorem Abstracts.of_same (h : Abstracts s a) (hcalls : s'.calls = s.calls) (hmethod : s'.method = s.method)
    (hrunning : s.method = none → s'.discovery.running = s.discovery.running) : Abstracts s' a := by
  refine ⟨?_, ?_, ?_, ?_, ?_, ?_, ?_⟩
  · exact hcalls ▸ h.calls
  · exact hcalls ▸ hmethod ▸ h.enabled
  · exact hcalls ▸ hmethod ▸ h.disabled
  · intro hnone hlife
    rw [hmethod] at hnone
    exact (hrunning hnone).trans (h.broadcasting hnone hlife)
  · exact hmethod ▸ h.stopped
  · exact hmethod ▸ h.destroyed
  · intro hnone hlife
    rw [hmethod] at hnone
    exact (hrunning hnone).trans (h.ended hnone hlife)

/-- A step of the keepalive calls. -/
theorem Abstracts.of_calls (h : Abstracts s a) {calls : Keepalive.State α Pool}
    (hcalls : calls = withFlags a' enabled false)
    (henabled : calls.remote.sessionIsEnabled = s.calls.remote.sessionIsEnabled) (hlife : a'.life = a.life)
    (henabled' : a'.remote.sessionIsEnabled = a.remote.sessionIsEnabled)
    (hbroadcasting : a'.remote.broadcasting = a.remote.broadcasting) : Abstracts { s with calls } a' where
  calls := ⟨enabled, hcalls⟩
  enabled := henabled ▸ henabled' ▸ h.enabled
  disabled := henabled ▸ hlife ▸ h.disabled
  broadcasting := hlife ▸ hbroadcasting ▸ h.broadcasting
  stopped := hbroadcasting ▸ h.stopped
  destroyed := hlife ▸ h.destroyed
  ended := hlife ▸ h.ended

theorem isIdle_of_calls (hcalls : s.calls = withFlags a enabled false) : s.calls.isIdle = a.isIdle :=
  hcalls ▸ rfl

theorem life_of_calls (hcalls : s.calls = withFlags a enabled false) : s.calls.life = a.life := hcalls ▸ rfl

theorem isIdle_ne_destroyed (h : a.isIdle = true) : a.life ≠ .destroyed :=
  of_decide_eq_true (Bool.and_eq_true_iff.mp h).2

/-- A state in which no method is under way. -/
theorem abstracts_of_free (enabled : Bool) (hmethod : s'.method = none) (hcalls : s'.calls = withFlags a' enabled false)
    (henabled : enabled = a'.remote.sessionIsEnabled)
    (hbroadcasting : a'.life ≠ .destroyed → s'.discovery.running = a'.remote.broadcasting)
    (hended : a'.life = .destroyed → s'.discovery.running = false) : Abstracts s' a' where
  calls := ⟨enabled, hcalls⟩
  enabled := fun _ => by rw [hcalls, ← henabled]; rfl
  disabled := fun h => by cases hmethod.symm.trans h
  broadcasting := fun _ => hbroadcasting
  stopped := by rintro (h | h) <;> cases hmethod.symm.trans h
  destroyed := fun h => by cases hmethod.symm.trans h
  ended := fun _ => hended

theorem method_of_free (hfree : s.isFree = true) : s.method = none := by
  rw [State.method, isFree_iff.mp hfree]
  rfl

theorem running_startIfNotRunning (d : DiscoveryBroadcasts) : d.startIfNotRunning.running = true := by
  unfold DiscoveryBroadcasts.startIfNotRunning
  split
  · assumption
  · rfl

theorem Abstracts.enableSession (h : Abstracts s a) (hfree : s.isFree = true) (hlife : a.life = .alive) :
    Abstracts s.enableSession { a with remote := a.remote.enableSession } := by
  have hmethod := method_of_free hfree
  obtain ⟨enabled, hcalls⟩ := h.calls
  have hlive : a.life ≠ .destroyed := by rw [hlife]; exact nofun
  have hrunning := h.broadcasting hmethod hlive
  have hcurrent : s.calls.remote.current = a.remote.current := by rw [hcalls]; rfl
  unfold State.enableSession
  dsimp only
  rw [hcurrent]
  split
  · next hnone =>
    refine abstracts_of_free true hmethod ?_ rfl (fun _ => ?_) fun hend => absurd hend hlive
    · rw [State.start, hcalls]
      rfl
    · show s.discovery.startIfNotRunning.running = (a.remote.broadcasting || a.remote.current.isNone)
      rw [running_startIfNotRunning, hnone, Bool.or_true]
  · next hsome =>
    refine abstracts_of_free true hmethod ?_ rfl (fun _ => ?_) fun hend => absurd hend hlive
    · rw [hcalls]
      rfl
    · show s.discovery.running = (a.remote.broadcasting || a.remote.current.isNone)
      rw [hrunning, Bool.eq_false_iff.mpr hsome, Bool.or_false]

theorem Abstracts.clearSession (h : Abstracts s a) (hfree : s.isFree = true) (hidle : a.isIdle = true)
    (id : Nat) : Abstracts (s.clearSession id) (a.apply (a.remote.clearSession id)) := by
  have hmethod := method_of_free hfree
  obtain ⟨enabled, hcalls⟩ := h.calls
  have hlive := isIdle_ne_destroyed hidle
  have hrunning := h.broadcasting hmethod hlive
  have henabled := h.enabled (by rw [hmethod]; exact nofun)
  rw [hcalls] at henabled
  obtain ⟨calls, discovery, stopping⟩ := s
  dsimp only at hcalls hrunning
  subst hcalls
  -- the operation without the broadcaster
  obtain ⟨b, hb, hblife, hbflag, hbenabled⟩ : ∃ b : Keepalive.State α Pool,
      (if a.remote.current = some id then a.apply a.remote.takeAway else a) = b ∧ b.life = a.life ∧
        b.remote.broadcasting = a.remote.broadcasting ∧
          b.remote.sessionIsEnabled = a.remote.sessionIsEnabled := by
    refine ⟨_, rfl, ?_, ?_, ?_⟩
    · split
      · rfl
      · rfl
    · split
      · exact Remote.broadcasting_takeAway
      · rfl
    · split
      · exact Remote.sessionIsEnabled_takeAway
      · rfl
  have habstract : a.apply (a.remote.clearSession id) = { b with remote := { b.remote with
      broadcasting := b.remote.broadcasting || b.remote.isNewSessionAcceptable } } := by
    rw [← hb, Remote.clearSession]
    dsimp only
    split
    · rfl
    · simp [Keepalive.State.apply, Keepalive.State.finish, Remote.isNewSessionAcceptable]
  have hconcrete : State.clearSession ⟨withFlags a enabled false, discovery, stopping⟩ id =
      if b.remote.isNewSessionAcceptable then
        State.start ⟨withFlags b enabled false, discovery, stopping⟩
      else ⟨withFlags b enabled false, discovery, stopping⟩ := by
    have hsame : b.remote.isNewSessionAcceptable =
        (withFlags b enabled false).remote.isNewSessionAcceptable := by
      show (b.remote.current.isNone && b.remote.sessionIsEnabled) = (b.remote.current.isNone && enabled)
      rw [hbenabled, ← henabled]
      rfl
    have hcurrent : (withFlags a enabled false).remote.current = a.remote.current := rfl
    rw [hsame, ← hb, State.clearSession]
    dsimp only
    rw [hcurrent]
    split
    · rw [apply_takeAway_withFlags]
    · rfl
  rw [habstract, hconcrete]
  split
  · next hacceptable =>
    refine abstracts_of_free enabled hmethod rfl (henabled.trans hbenabled.symm) (fun _ => ?_)
      fun hend => absurd (hblife ▸ hend) hlive
    show discovery.startIfNotRunning.running = (b.remote.broadcasting || b.remote.isNewSessionAcceptable)
    rw [running_startIfNotRunning, hacceptable, Bool.or_true]
  · next hacceptable =>
    refine abstracts_of_free enabled hmethod rfl (henabled.trans hbenabled.symm) (fun _ => ?_)
      fun hend => absurd (hblife ▸ hend) hlive
    show discovery.running = (b.remote.broadcasting || b.remote.isNewSessionAcceptable)
    rw [hrunning, hbflag, Bool.eq_false_iff.mpr hacceptable, Bool.or_false]

theorem Abstracts.resetSession (h : Abstracts s a) (hfree : s.isFree = true) (resources : Pool) :
    Abstracts (s.resetSession resources) { a with remote := (a.remote.resetSession resources).1 } := by
  have hmethod := method_of_free hfree
  obtain ⟨enabled, hcalls⟩ := h.calls
  have henabled := h.enabled (by rw [hmethod]; exact nofun)
  unfold State.resetSession Remote.resetSession
  dsimp only
  rw [henabled]
  split
  · next hset =>
    refine ⟨⟨a.remote.sessionIsEnabled, ?_⟩, fun _ => rfl, nofun, nofun, fun _ => rfl, nofun, nofun⟩
    rw [State.beginStop, hcalls]
    rfl
  · exact h

theorem Abstracts.destroyBody (h : Abstracts s a) (hfree : s.isFree = true) :
    Abstracts s.destroyBody a.destroyBody := by
  have hmethod := method_of_free hfree
  obtain ⟨enabled, hcalls⟩ := h.calls
  have henabled := h.enabled (by rw [hmethod]; exact nofun)
  rw [hcalls] at henabled
  have hstopped : a.destroyBody =
      { a.apply a.remote.takeAway with
        life := .bodyDone
        remote := { a.remote.takeAway.1 with broadcasting := false } } := by
    show { (withFlags a a.remote.sessionIsEnabled false).apply
      (withFlags a a.remote.sessionIsEnabled false).remote.takeAway with life := .bodyDone } = _
    rw [apply_takeAway_withFlags, withFlags]
    have hflag : (a.apply a.remote.takeAway).remote.sessionIsEnabled = a.remote.sessionIsEnabled :=
      Remote.sessionIsEnabled_takeAway
    rw [← hflag]
    rfl
  rw [hstopped]
  refine ⟨⟨enabled, ?_⟩, fun _ => ?_, nofun, nofun, fun _ => rfl, nofun, nofun⟩
  · rw [State.destroyBody, State.beginStop, hcalls, apply_takeAway_withFlags]
    rfl
  · rw [State.destroyBody, State.beginStop, hcalls, apply_takeAway_withFlags]
    exact henabled.trans Remote.sessionIsEnabled_takeAway.symm

/-- A call is followed by the operation that takes effect in it. -/
theorem Abstracts.call (h : Abstracts s a) {l : Keepalive.Label Pool} (hstep : s.call l = some s') :
    ∃ a', (Keepalive.machine α Pool).runFrom a (s.effect (.call l)) = some a' ∧ Abstracts s' a' := by
  have hone : ∀ {a'}, a.step l = some a' →
      (Keepalive.machine α Pool).runFrom a [l] = some a' := by
    intro a' ha'
    show (a.step l).bind _ = some a'
    rw [ha']
    rfl
  obtain ⟨enabled, hcalls⟩ := h.calls
  have hidle := isIdle_of_calls hcalls
  have hlife := life_of_calls hcalls
  cases l with
  | newSession resources =>
    obtain ⟨⟨hfree, hcq⟩, hstep⟩ := Option.ite_none_right_eq_some.mp hstep
    cases hstep
    rw [hidle] at hcq
    exact ⟨_, hone (if_pos hcq), h.resetSession hfree resources⟩
  | shutdownSession id =>
    obtain ⟨⟨hfree, hcq⟩, hstep⟩ := Option.ite_none_right_eq_some.mp hstep
    cases hstep
    rw [hidle] at hcq
    exact ⟨_, hone (if_pos hcq), h.clearSession hfree hcq id⟩
  | enableSession =>
    obtain ⟨⟨hfree, halive⟩, hstep⟩ := Option.ite_none_right_eq_some.mp hstep
    cases hstep
    rw [hlife] at halive
    exact ⟨_, hone (if_pos halive), h.enableSession hfree halive⟩
  | disableSession =>
    obtain ⟨⟨hfree, halive⟩, hstep⟩ := Option.ite_none_right_eq_some.mp hstep
    cases hstep
    rw [hlife] at halive
    refine ⟨a, rfl, ⟨false, ?_⟩, fun hne => absurd rfl hne, fun _ => ⟨rfl, halive⟩, nofun, ?_, nofun, nofun⟩
    · rw [State.disableSession, State.beginStop, hcalls]
      rfl
    · rintro (hm | hm) <;> cases hm
  | keepalive id =>
    obtain ⟨⟨-, hcq⟩, hstep⟩ := Option.ite_none_right_eq_some.mp hstep
    cases hstep
    rw [hidle] at hcq
    obtain ⟨hremote, hlife'⟩ := remote_keepalive (a := a) id
    have hremote' := (remote_keepalive (a := s.calls) id).1
    have hcalls' : s.calls.keepalive id = withFlags (a.keepalive id) enabled false := by
      rw [hcalls]
      exact keepalive_withFlags id
    refine ⟨_, hone (if_pos hcq), h.of_calls hcalls' ?_ hlife' ?_ ?_⟩
    · rw [hremote']
    · rw [hremote]
    · rw [hremote]
  | setKeepaliveCaller =>
    obtain ⟨-, hstep⟩ := Option.ite_none_left_eq_some.mp hstep
    obtain ⟨calls, hset, rfl⟩ := Option.map_eq_some_iff.mp hstep
    have henabled := (setKeepaliveCaller_same hset).2.1
    rw [hcalls, setKeepaliveCaller_withFlags] at hset
    obtain ⟨a', ha', rfl⟩ := Option.map_eq_some_iff.mp hset
    obtain ⟨hlife', henabled', hbroadcasting'⟩ := setKeepaliveCaller_same ha'
    exact ⟨a', hone ha', h.of_calls rfl henabled hlife' henabled' hbroadcasting'⟩
  | destroyBody =>
    obtain ⟨⟨hfree, halive⟩, hstep⟩ := Option.ite_none_right_eq_some.mp hstep
    cases hstep
    rw [hlife] at halive
    exact ⟨_, hone (if_pos halive), h.destroyBody hfree⟩
  | destroyMembers =>
    obtain ⟨⟨hfree, hattaching, hdone⟩, hstep⟩ := Option.ite_none_right_eq_some.mp hstep
    cases hstep
    have henabled := h.enabled (by rw [method_of_free hfree]; exact nofun)
    rw [hlife] at hdone
    have hattaching' : a.attaching = none := by
      rw [hcalls] at hattaching
      exact hattaching
    refine ⟨a.destroyMembers, hone (if_pos ⟨hattaching', hdone⟩), ⟨⟨enabled, ?_⟩, fun _ => henabled, nofun,
      nofun, ?_, fun _ => rfl, nofun⟩⟩
    · rw [State.destroyMembers, State.beginStop, hcalls]
      rfl
    · rintro (hm | hm) <;> cases hm

/-- `DisableSession` takes effect when it returns, the others have before. -/
theorem Abstracts.returned (h : Abstracts s a) {m : Method} (hmethod : s.method = some m)
    (hrunning : s.discovery.running = false) :
    ∃ a', (Keepalive.machine α Pool).runFrom a
        (if s.method = some .disableSession then [.disableSession] else []) = some a' ∧
      Abstracts (s.returned m) a' := by
  obtain ⟨enabled, hcalls⟩ := h.calls
  have hflag : s.calls.remote.sessionIsEnabled = enabled := by rw [hcalls]; rfl
  cases m with
  | disableSession =>
    obtain ⟨hdisabled, halive⟩ := h.disabled hmethod
    rw [hflag] at hdisabled
    subst hdisabled
    refine ⟨a.apply a.remote.disableSession, ?_, ?_⟩
    · rw [if_pos hmethod]
      show (a.step .disableSession).bind _ = _
      rw [show a.step .disableSession = some (a.apply a.remote.disableSession) from if_pos halive]
      rfl
    · have htaken : a.apply a.remote.disableSession = withFlags (a.apply a.remote.takeAway) false false :=
        apply_takeAway_withFlags
      refine abstracts_of_free false rfl ?_ ?_ (fun _ => ?_) fun _ => hrunning
      · show s.calls.apply s.calls.remote.takeAway = _
        rw [hcalls, apply_takeAway_withFlags, htaken]
        rfl
      · rw [htaken]
        rfl
      · rw [htaken]
        exact hrunning
  | resetSession | destroyBody =>
    have hne : s.method ≠ some .disableSession := by rw [hmethod]; exact nofun
    rw [if_neg hne]
    have hstopped : a.remote.broadcasting = false := h.stopped (by simp [hmethod])
    refine ⟨a, rfl, abstracts_of_free enabled rfl hcalls (hflag.symm.trans (h.enabled hne)) (fun _ => ?_)
      fun _ => hrunning⟩
    exact hrunning.trans hstopped.symm
  | destroyMembers =>
    have hne : s.method ≠ some .disableSession := by rw [hmethod]; exact nofun
    rw [if_neg hne]
    exact ⟨a, rfl, abstracts_of_free enabled rfl hcalls (hflag.symm.trans (h.enabled hne))
      (fun hlive => absurd (h.destroyed hmethod) hlive) fun _ => hrunning⟩

theorem Abstracts.step (h : Abstracts s a) (hinvariant : Invariant s) {l : Label Pool}
    (hstep : s.step l = some s') :
    ∃ a', (Keepalive.machine α Pool).runFrom a (s.effect l) = some a' ∧ Abstracts s' a' := by
  cases step_cases hstep with
  | call hcall => exact h.call hcall
  | @clear m hstopping hrunning =>
    have hmethod : s.method = some m := congrArg (Option.map Prod.fst) hstopping
    refine ⟨a, ?_, h.of_same rfl hmethod.symm ?_⟩
    · rw [State.effect, hrunning, if_neg (by simp)]
      rfl
    · rw [hmethod]
      exact nofun
  | @idle m hstopping hrunning =>
    obtain ⟨a', ha', habstracts⟩ := h.returned (congrArg (Option.map Prod.fst) hstopping) hrunning
    refine ⟨a', ?_, habstracts⟩
    simp only [State.effect, hrunning, and_true]
    exact ha'
  | @notify m woken d hstopping hd =>
    have hmethod : s.method = some m := congrArg (Option.map Prod.fst) hstopping
    refine ⟨a, rfl, h.of_same rfl hmethod.symm ?_⟩
    rw [hmethod]
    exact nofun
  | @join m d hstopping hd =>
    obtain ⟨hclear, hthread⟩ := hinvariant.stopping m .joining hstopping nofun
    obtain ⟨-, -, -, rfl⟩ := hinvariant.discovery.join hthread hd
    have hjoined : Abstracts { s with discovery := { s.discovery with thread := none } } a :=
      h.of_same rfl rfl fun _ => rfl
    exact hjoined.returned (congrArg (Option.map Prod.fst) hstopping) hclear
  | @act i b d hd => exact ⟨a, rfl, h.of_same rfl rfl fun _ => (DiscoveryBroadcasts.running_acted hd).1⟩

theorem abstracts_run {ls : List (Label Pool)} (hrun : (machine α Pool).run ls = some s) :
    ∃ a, (Keepalive.machine α Pool).run ((machine α Pool).observed State.effect ls) = some a ∧
      Abstracts s a := by
  obtain ⟨a, ha, -, habstracts⟩ := Machine.run_simulated (M := machine α Pool)
    (R := fun s a => Invariant s ∧ Abstracts s a) ⟨invariant_init, abstracts_init⟩
    (fun s l s' a h hstep => by
      obtain ⟨a', ha', habstracts⟩ := h.2.step h.1 hstep
      exact ⟨a', ha', h.1.step hstep, habstracts⟩) hrun
  exact ⟨a, ha, habstracts⟩

/-- The methods amount to whole operations, in the order in which they take effect. What
these leave is the state of the calls but for the flags, and whenever nobody is in a method
the flags are the same. -/
theorem refines_run {ls : List (Label Pool)} (hrun : (machine α Pool).run ls = some s) :
    ∃ a, (Keepalive.machine α Pool).run ((machine α Pool).observed State.effect ls) = some a ∧
      withFlags s.calls a.remote.sessionIsEnabled a.remote.broadcasting = a ∧
        (s.method = none → a.life ≠ .destroyed →
          s.calls.remote.sessionIsEnabled = a.remote.sessionIsEnabled ∧
            s.discovery.running = a.remote.broadcasting) := by
  obtain ⟨a, ha, h⟩ := abstracts_run hrun
  obtain ⟨enabled, hcalls⟩ := h.calls
  refine ⟨a, ha, ?_, fun hmethod hlive => ⟨h.enabled ?_, h.broadcasting hmethod hlive⟩⟩
  · rw [hcalls]
    rfl
  · rw [hmethod]
    exact nofun

/-- A keepalive call is attached to the session that `DisableSession` is about to take away. -/
def attachedWhileDisabled : List (Label Unit) :=
  [.call .enableSession, .broadcaster 0 (.openSocket true), .broadcaster 0 (.sendTo true),
    .broadcaster 0 .wait, .call (.newSession ()), .clearRunning, .notifyOne (some 0), .broadcaster 0 .wake,
    .join, .call (.keepalive 1), .call .disableSession, .call .setKeepaliveCaller, .clearRunning]

theorem refines_attachedWhileDisabled : ∃ s, (machine Unit Unit).run attachedWhileDisabled = some s ∧
    (machine Unit Unit).observed State.effect attachedWhileDisabled =
        [.enableSession, .newSession (), .keepalive 1, .setKeepaliveCaller, .disableSession] ∧
      ∃ a, (Keepalive.machine Unit Unit).run
          ((machine Unit Unit).observed State.effect attachedWhileDisabled) = some a ∧
        withFlags s.calls a.remote.sessionIsEnabled a.remote.broadcasting = a ∧
          (s.method = none → a.life ≠ .destroyed →
            s.calls.remote.sessionIsEnabled = a.remote.sessionIsEnabled ∧
              s.discovery.running = a.remote.broadcasting) :=
  ⟨_, rfl, rfl, refines_run (rfl : (machine Unit Unit).run attachedWhileDisabled = some _)⟩

-- ---------------------------------------------------------------------------
-- Announcing
-- ---------------------------------------------------------------------------

theorem controlled_setKeepaliveCaller {r : Remote α Pool} (h : r.Controlled) (sid caller : Nat) :
    (r.modify sid fun session => (session.setKeepaliveCaller caller).1).Controlled := by
  have hwellFormed := h.toWellFormed.modify (f := fun session => (session.setKeepaliveCaller caller).1) sid
    (fun _ => Session.id_setKeepaliveCaller) fun _ _ hactive => Session.active_setKeepaliveCaller.trans hactive
  obtain ⟨hids, hcurrent⟩ := hwellFormed
  obtain ⟨-, hbroadcasting, henabled, hlatest⟩ := h
  unfold Remote.modify at hids hcurrent ⊢
  split
  · next hlookup =>
    rw [hlookup] at hids hcurrent
    exact ⟨⟨hids, hcurrent⟩, hbroadcasting, henabled, hlatest⟩
  · next hlookup =>
    rw [hlookup] at hids hcurrent
    exact ⟨⟨hids, hcurrent⟩, hbroadcasting, henabled, hlatest⟩

theorem controlled_step (h : a.life = .alive → a.remote.Controlled) {l : Keepalive.Label Pool}
    (hstep : a.step l = some a') : a'.life = .alive → a'.remote.Controlled := by
  intro halive
  cases l with
  | newSession resources =>
    obtain ⟨-, hstep⟩ := Option.ite_none_right_eq_some.mp hstep
    cases hstep
    exact (h halive).resetSession resources
  | shutdownSession id =>
    obtain ⟨-, hstep⟩ := Option.ite_none_right_eq_some.mp hstep
    cases hstep
    exact (h halive).clearSession id
  | enableSession =>
    obtain ⟨-, hstep⟩ := Option.ite_none_right_eq_some.mp hstep
    cases hstep
    exact (h halive).enableSession
  | disableSession =>
    obtain ⟨-, hstep⟩ := Option.ite_none_right_eq_some.mp hstep
    cases hstep
    exact (h halive).disableSession
  | keepalive id =>
    obtain ⟨-, hstep⟩ := Option.ite_none_right_eq_some.mp hstep
    cases hstep
    obtain ⟨hremote, hlife⟩ := remote_keepalive (a := a) id
    rw [hremote]
    exact h (hlife ▸ halive)
  | setKeepaliveCaller =>
    rw [(setKeepaliveCaller_same hstep).1] at halive
    obtain ⟨⟨caller, sid⟩, -, hstep⟩ := Option.bind_eq_some_iff.mp hstep
    obtain ⟨session, -, rfl⟩ := Option.map_eq_some_iff.mp hstep
    have hcontrolled := controlled_setKeepaliveCaller (h halive) sid caller
    dsimp only
    split
    · exact hcontrolled
    · exact hcontrolled
  | destroyBody =>
    obtain ⟨-, hstep⟩ := Option.ite_none_right_eq_some.mp hstep
    cases hstep
    cases halive
  | destroyMembers =>
    obtain ⟨-, hstep⟩ := Option.ite_none_right_eq_some.mp hstep
    cases hstep
    cases halive

/-- The client announces itself exactly when it accepts sessions, from one thread, and
nobody is ever left waiting for a thread that has not been told to return. -/
structure Announces (s : State α Pool) : Prop where
  terminated : s.discovery.terminated = false
  alone : ∀ (i j : Nat) (b c : Broadcaster), s.discovery.started[i]? = some b → s.discovery.started[j]? = some c →
    b ≠ .finished → c ≠ .finished → i = j
  announces : s.calls.life = .alive → s.method = none →
    ((∃ b ∈ s.discovery.started, b ≠ .finished) ↔ s.calls.remote.isNewSessionAcceptable)
  destroyed : s.calls.life = .destroyed → s.method = none → ∀ b ∈ s.discovery.started, b = .finished
  late : s.discovery.running = false → s.discovery.late ≤ 1
  notified : s.discovery.running = false → (∀ m, s.stopping ≠ some (m, .notifying)) →
    ∀ b ∈ s.discovery.started, b.isUnaware = false

/-- When no method is under way, the broadcaster is there exactly if `running_` is set. -/
theorem Invariant.exists_live (h : Invariant s) (hmethod : s.method = none) :
    (∃ b ∈ s.discovery.started, b ≠ .finished) ↔ s.discovery.running = true := by
  constructor
  · rintro ⟨b, hb, hlive⟩
    obtain ⟨i, hi⟩ := List.getElem?_of_mem hb
    have hthread := h.discovery.alone hi hlive
    by_contra hrunning
    have hfree : ∀ m p, s.stopping = some (m, p) → p = .entered := by
      rw [Option.map_eq_none_iff.mp hmethod]
      exact nofun
    cases hthread.symm.trans (h.thread_of_free hfree (Bool.eq_false_iff.mpr hrunning))
  · intro hrunning
    obtain ⟨i, b, -, hb, hlive⟩ := h.discovery.running hrunning
    exact ⟨b, List.mem_of_getElem? hb, hlive⟩

theorem announces_run {ls : List (Label Pool)} (hrun : (machine α Pool).run ls = some s) : Announces s := by
  have h := invariant_run hrun
  obtain ⟨a, ha, habstracts⟩ := abstracts_run hrun
  obtain ⟨enabled, hcalls⟩ := habstracts.calls
  have hlife := life_of_calls hcalls
  refine ⟨h.discovery.terminated, ?_, ?_, ?_, h.discovery.late, ?_⟩
  · intro i j b c hb hc hblive hclive
    exact Option.some.inj ((h.discovery.alone hb hblive).symm.trans (h.discovery.alone hc hclive))
  · intro halive hmethod
    rw [hlife] at halive
    have hcontrolled : a.remote.Controlled :=
      Machine.run_invariant (I := fun a => a.life = .alive → a.remote.Controlled)
        (fun _ => Remote.controlled_init) (fun _ _ _ h hstep => controlled_step h hstep) ha halive
    have hrunning := habstracts.broadcasting hmethod (by rw [halive]; exact nofun)
    have henabled := habstracts.enabled (by rw [hmethod]; exact nofun)
    have hcurrent : s.calls.remote.current = a.remote.current := by rw [hcalls]; rfl
    rw [h.exists_live hmethod, hrunning, hcontrolled.broadcasting, Remote.isNewSessionAcceptable,
      Remote.isNewSessionAcceptable, hcurrent, henabled]
  · intro hend hmethod b hb
    rw [hlife] at hend
    by_contra hlive
    have hrunning := (h.exists_live hmethod).mp ⟨b, hb, hlive⟩
    cases hrunning.symm.trans (habstracts.ended hmethod hend)
  · intro hrunning hne b hb
    obtain ⟨i, hi⟩ := List.getElem?_of_mem hb
    exact h.aware hrunning hne i b hi

/-- The session ends, and the client announces itself again. -/
def announcedAgain : List (Label Unit) :=
  [.call .enableSession, .broadcaster 0 (.openSocket false), .call (.newSession ()), .clearRunning,
    .notifyOne none, .broadcaster 0 .wait, .join, .call (.shutdownSession 1),
    .broadcaster 1 (.openSocket true), .broadcaster 1 (.sendTo true)]

theorem announces_announcedAgain :
    ∃ s, (machine Unit Unit).run announcedAgain = some s ∧ s.discovery.packets = 1 ∧ Announces s :=
  ⟨_, rfl, rfl, announces_run (rfl : (machine Unit Unit).run announcedAgain = some _)⟩

-- ---------------------------------------------------------------------------
-- Returning
-- ---------------------------------------------------------------------------

/-- A step of a method, or of the broadcaster; a sleep does not end by itself. -/
def Label.isProgress : Label Pool → Bool
  | .clearRunning | .notifyOne _ | .join => true
  | .broadcaster _ a => a ≠ .spurious ∧ a ≠ .timeOut
  | .call _ => false

/-- The keepalive calls go on. -/
def Label.isMeanwhile : Label Pool → Bool
  | .call (.keepalive _) | .call .setKeepaliveCaller => true
  | .call _ => false
  | l => l.isProgress

def Progress.work : Progress → Nat
  | .entered => 4
  | .notifying => 3
  | .joining => 1

def State.work (s : State α Pool) : Nat := s.discovery.work + ((s.stopping.map fun m => m.2.work).getD 0)

theorem Progress.work_le (p : Progress) : p.work ≤ 4 := by
  cases p with
  | _ => decide

theorem State.work_le (s : State α Pool) : s.work ≤ 9 := by
  have hdiscovery := s.discovery.work_le
  have hstopping : (s.stopping.map fun m => m.2.work).getD 0 ≤ 4 := by
    cases s.stopping with
    | none => exact Nat.zero_le _
    | some m => exact m.2.work_le
  show s.discovery.work + _ ≤ 9
  omega

theorem State.work_of_stopping {m : Method} {p : Progress} (hstopping : s.stopping = some (m, p)) :
    s.work = s.discovery.work + p.work := by
  rw [State.work, hstopping]
  rfl

theorem work_returned (hthread : s.discovery.thread = none) (m : Method) : (s.returned m).work = 0 := by
  rw [State.work, stopping_returned, discovery_returned hthread, DiscoveryBroadcasts.work, hthread]
  rfl

theorem Invariant.work_step (h : Invariant s) {l : Label Pool} (hl : l.isProgress = true)
    (hstep : s.step l = some s') : s'.work < s.work := by
  cases step_cases hstep with
  | call hcall => cases hl
  | @clear m hstopping hrunning =>
    rw [State.work_of_stopping hstopping]
    exact Nat.lt_succ_self _
  | @idle m hstopping hrunning =>
    have hentered : ∀ m' p, s.stopping = some (m', p) → p = .entered := by
      rw [hstopping]
      rintro _ _ ⟨⟩
      rfl
    rw [work_returned (h.thread_of_free hentered hrunning), State.work_of_stopping hstopping]
    exact Nat.succ_pos _
  | @notify m woken d hstopping hd =>
    have hwork := h.discovery.work_notified hd
    rw [State.work_of_stopping hstopping]
    show d.work + 1 < s.discovery.work + 3
    omega
  | @join m d hstopping hd =>
    obtain ⟨hclear, hthread⟩ := h.stopping m .joining hstopping nofun
    obtain ⟨-, hnone, -, -⟩ := h.discovery.join hthread hd
    rw [work_returned (s := { s with discovery := d }) hnone, State.work_of_stopping hstopping]
    exact Nat.succ_pos _
  | @act i b d hd =>
    have hb : b ≠ .spurious ∧ b ≠ .timeOut := of_decide_eq_true hl
    exact Nat.add_lt_add_right (h.discovery.work_acted hd hb) _

theorem work_call {l : Keepalive.Label Pool} (hl : (Label.call l).isMeanwhile = true)
    (hstep : s.call l = some s') : s'.work = s.work := by
  cases l with
  | keepalive id =>
    obtain ⟨-, hstep⟩ := Option.ite_none_right_eq_some.mp hstep
    cases hstep
    rfl
  | setKeepaliveCaller =>
    obtain ⟨-, hstep⟩ := Option.ite_none_left_eq_some.mp hstep
    obtain ⟨calls, -, rfl⟩ := Option.map_eq_some_iff.mp hstep
    rfl
  | newSession resources => cases hl
  | shutdownSession id => cases hl
  | enableSession => cases hl
  | disableSession => cases hl
  | destroyBody => cases hl
  | destroyMembers => cases hl

theorem Invariant.work_meanwhile (h : Invariant s) {l : Label Pool} (hl : l.isMeanwhile = true)
    (hstep : s.step l = some s') : s'.work + l.isProgress.toNat ≤ s.work := by
  cases hprogress : l.isProgress with
  | true => exact h.work_step hprogress hstep
  | false =>
    cases l with
    | call l => exact Nat.le_of_eq (work_call hl hstep)
    | clearRunning | notifyOne _ | join => cases hprogress
    | broadcaster i b => cases hl.symm.trans hprogress

/-- A method that is under way can go on, or the broadcaster can. -/
theorem Invariant.exists_progress (h : Invariant s) (hmethod : s.method ≠ none) :
    ∃ l : Label Pool, l.isProgress = true ∧ (s.step l).isSome := by
  cases hstopping : s.stopping with
  | none => exact absurd (congrArg (Option.map Prod.fst) hstopping) hmethod
  | some stopping =>
    obtain ⟨m, p⟩ := stopping
    cases p with
    | entered =>
      refine ⟨.clearRunning, rfl, ?_⟩
      simp only [State.step, hstopping]
      split
      · rfl
      · rfl
    | notifying =>
      obtain ⟨woken, hwoken⟩ := s.discovery.exists_notifyOne
      refine ⟨.notifyOne woken, rfl, ?_⟩
      simp only [State.step, hstopping, Option.isSome_map]
      exact hwoken
    | joining =>
      obtain ⟨hclear, hthread⟩ := h.stopping m .joining hstopping nofun
      have haware := h.aware hclear (by rw [hstopping]; exact nofun)
      obtain hjoin | ⟨i, b, hb, hact⟩ := h.discovery.exists_progress haware hthread
      · refine ⟨.join, rfl, ?_⟩
        simp only [State.step, hstopping, Option.isSome_map]
        exact hjoin
      · refine ⟨.broadcaster i b, decide_eq_true hb, ?_⟩
        rw [State.step, Option.isSome_map]
        exact hact

/-- Whatever the keepalive calls do meanwhile, a method that waits for the broadcaster
returns after nine steps at most, and no sleep has to time out for it. Time-outs and
spurious wake-ups that come all the same are not counted: the continuations are without
them. -/
theorem returns_run {ls : List (Label Pool)} (hrun : (machine α Pool).run ls = some s) :
    (∀ ls' t, (∀ l ∈ ls', Label.isMeanwhile l = true) → (machine α Pool).runFrom s ls' = some t →
      ls'.countP Label.isProgress ≤ 9) ∧
      (s.method ≠ none → ∃ l, Label.isProgress l = true ∧ ((machine α Pool).step s l).isSome) := by
  have h := invariant_run hrun
  refine ⟨fun ls' t hmeanwhile hrun' => ?_, h.exists_progress⟩
  obtain ⟨-, hcount⟩ := Machine.countP_le_of_measure (I := Invariant) (P := Label.isProgress)
    (Q := fun l : Label Pool => l.isMeanwhile = true) (m := State.work)
    (fun _ _ _ h hl hstep => ⟨h.step hstep, h.work_meanwhile hl hstep⟩) h hmeanwhile hrun'
  have hbound := s.work_le
  omega

/-- The broadcaster is about to open its socket. -/
def stoppedAtOnce : List (Label Unit) := [.call .enableSession, .call (.newSession ())]

theorem returns_stoppedAtOnce : ∃ s, (machine Unit Unit).run stoppedAtOnce = some s ∧
    s.method = some .resetSession ∧
      (∀ ls' t, (∀ l ∈ ls', Label.isMeanwhile l = true) → (machine Unit Unit).runFrom s ls' = some t →
        ls'.countP Label.isProgress ≤ 9) ∧
        (s.method ≠ none → ∃ l, Label.isProgress l = true ∧ ((machine Unit Unit).step s l).isSome) :=
  ⟨_, rfl, rfl, returns_run (rfl : (machine Unit Unit).run stoppedAtOnce = some _)⟩

end RemoteMethods

end ZenRemote.Client
