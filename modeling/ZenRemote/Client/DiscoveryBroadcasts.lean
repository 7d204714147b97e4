-- SUMMARY: The thread that broadcasts discovery packets: where it is, how it is started, stopped and waited for.
import Mathlib.Data.List.Basic

/-!
# Discovery broadcasts

The thread opens a socket and sends a packet every second. It sleeps in between, and
after a failure, on a condition variable that tells it to return. The mutex is held
only from one wait to the next, so that all between two waits but the system calls is
one step.
-/

namespace ZenRemote.Client

/-- Where the thread is. A thread that is asleep may have been notified since it fell asleep. -/
inductive Broadcaster where
  | opening
  /-- The socket could not be opened, and the wait of five seconds follows. -/
  | notOpened
  | waitingToOpen (notified : Bool)
  | sending
  /-- The wait that follows is one of a second, or of five if the packet could not be sent. -/
  | sent
  | waitingToSend (notified : Bool)
  | finished
  deriving DecidableEq, Repr

namespace Broadcaster

inductive Action where
  | openSocket (succeeds : Bool)
  | sendTo (succeeds : Bool)
  /-- The mutex is taken, and the thread falls asleep or returns. -/
  | wait
  /-- The thread wakes up because it has been notified. -/
  | wake
  /-- It wakes up though nobody has notified it. -/
  | spurious
  | timeOut
  deriving DecidableEq, Repr

/-- `none` when the thread is somewhere else. Each of the waits returns when `running_`
has been cleared, and the thread with it. -/
def act (running : Bool) : Broadcaster → Action → Option Broadcaster
  | .opening, .openSocket succeeds => some (if succeeds then .sending else .notOpened)
  | .notOpened, .wait => some (if running then .waitingToOpen false else .finished)
  | .waitingToOpen true, .wake => some (if running then .waitingToOpen false else .finished)
  | .waitingToOpen _, .spurious => some (if running then .waitingToOpen false else .finished)
  | .waitingToOpen _, .timeOut => some (if running then .opening else .finished)
  | .sending, .sendTo _ => some .sent
  | .sent, .wait => some (if running then .waitingToSend false else .finished)
  | .waitingToSend true, .wake => some (if running then .waitingToSend false else .finished)
  | .waitingToSend _, .spurious => some (if running then .waitingToSend false else .finished)
  | .waitingToSend _, .timeOut => some (if running then .sending else .finished)
  | _, _ => none

def isAsleep : Broadcaster → Bool
  | .waitingToOpen _ | .waitingToSend _ => true
  | .opening | .notOpened | .sending | .sent | .finished => false

/-- Asleep, and nobody has notified it. -/
def isUnaware : Broadcaster → Bool
  | .waitingToOpen notified | .waitingToSend notified => !notified
  | .opening | .notOpened | .sending | .sent | .finished => false

def notify : Broadcaster → Broadcaster
  | .waitingToOpen _ => .waitingToOpen true
  | .waitingToSend _ => .waitingToSend true
  | b => b

/-- Another packet can be sent before the thread looks at `running_`. -/
def maySend : Broadcaster → Bool
  | .opening | .sending => true
  | .notOpened | .waitingToOpen _ | .sent | .waitingToSend _ | .finished => false

/-- How many steps are left before the thread sleeps or has returned, and one more when it
has been notified. -/
def work : Broadcaster → Nat
  | .opening => 5
  | .sending => 4
  | .notOpened | .sent => 3
  | .waitingToOpen notified | .waitingToSend notified => 1 + notified.toNat
  | .finished => 0

end Broadcaster

structure DiscoveryBroadcasts where
  running : Bool := false
  /-- The threads that have been started, in their order. -/
  started : List Broadcaster := []
  /-- The one that `thread_` can be joined with. -/
  thread : Option Nat := none
  /-- A joinable thread has been overwritten or destroyed, or one joined that is not joinable. -/
  terminated : Bool := false
  /-- The packets sent so far, and those sent since `running_` was cleared. -/
  packets : Nat := 0
  late : Nat := 0
  deriving Repr

namespace DiscoveryBroadcasts

def startIfNotRunning (d : DiscoveryBroadcasts) : DiscoveryBroadcasts :=
  if d.running then d
  else { d with
    running := true
    started := d.started ++ [.opening]
    thread := some d.started.length
    terminated := d.terminated || d.thread.isSome }

/-- `StopAndWait` of a broadcaster that runs, up to the notification. -/
def clearRunning (d : DiscoveryBroadcasts) : DiscoveryBroadcasts := { d with running := false, late := 0 }

/-- `cond_.notify_one` notifies a thread that sleeps, if there is one. -/
def notifyOne (d : DiscoveryBroadcasts) : Option Nat → Option DiscoveryBroadcasts
  | some i =>
    (d.started[i]?).bind fun b =>
      if b.isAsleep then some { d with started := d.started.set i b.notify } else none
  | none => if d.started.any Broadcaster.isAsleep then none else some d

/-- `thread_.join` returns when the thread has. -/
def join (d : DiscoveryBroadcasts) : Option DiscoveryBroadcasts :=
  match d.thread with
  | some i => if d.started[i]? = some .finished then some { d with thread := none } else none
  | none => some { d with terminated := true }

/-- The destructor of `thread_`. -/
def destroyThread (d : DiscoveryBroadcasts) : DiscoveryBroadcasts :=
  { d with terminated := d.terminated || d.thread.isSome }

/-- A step of the `i`-th thread. -/
def act (d : DiscoveryBroadcasts) (i : Nat) (a : Broadcaster.Action) : Option DiscoveryBroadcasts :=
  (d.started[i]?).bind fun b => (b.act d.running a).map fun b' =>
    let isSent := if a = .sendTo true then 1 else 0
    { d with
      started := d.started.set i b'
      packets := d.packets + isSent
      late := d.late + isSent }

end DiscoveryBroadcasts

-- ---------------------------------------------------------------------------
-- One thread
-- ---------------------------------------------------------------------------

namespace Broadcaster

variable {running : Bool} {b b' : Broadcaster} {a : Action}

theorem ne_finished_of_act (h : b.act running a = some b') : b ≠ .finished := by
  rintro rfl
  cases a with
  | _ => cases h

/-- While `running_` is set no thread returns. -/
theorem not_finished_of_act (h : b.act true a = some b') : b' ≠ .finished := by
  cases b with
  | waitingToOpen notified | waitingToSend notified =>
    cases notified with
    | _ => cases a with
      | _ => cases h <;> exact nofun
  | opening | notOpened | sending | sent | finished =>
    cases a with
    | openSocket succeeds => cases succeeds with
      | _ => cases h <;> exact nofun
    | _ => cases h <;> exact nofun

/-- Once `running_` is clear no thread falls asleep. -/
theorem not_unaware_of_act (h : b.act false a = some b') : b'.isUnaware = false := by
  cases b with
  | waitingToOpen notified | waitingToSend notified =>
    cases notified with
    | _ => cases a with
      | _ => cases h <;> rfl
  | opening | notOpened | sending | sent | finished =>
    cases a with
    | openSocket succeeds => cases succeeds with
      | _ => cases h <;> rfl
    | _ => cases h <;> rfl

/-- Then it only sends what it was about to. -/
theorem maySend_of_act (h : b.act false a = some b') (hmay : b'.maySend = true) :
    b.maySend = true ∧ a ≠ .sendTo true := by
  cases b with
  | waitingToOpen notified | waitingToSend notified =>
    cases notified with
    | _ => cases a with
      | _ => cases h <;> cases hmay
  | opening | notOpened | sending | sent | finished =>
    cases a with
    | openSocket succeeds => exact ⟨by cases h <;> rfl, nofun⟩
    | _ => cases h <;> cases hmay

theorem maySend_of_sendTo {succeeds : Bool} (h : b.act running (.sendTo succeeds) = some b') :
    b.maySend = true := by
  cases b with
  | sending => rfl
  | waitingToOpen notified | waitingToSend notified =>
    cases notified with
    | _ => cases h
  | opening | notOpened | sent | finished => cases h

/-- The work gets less without time-outs. -/
theorem work_act (h : b.act running a = some b') (ha : a ≠ .spurious ∧ a ≠ .timeOut) :
    b'.work < b.work := by
  cases b with
  | waitingToOpen notified | waitingToSend notified =>
    cases notified with
    | _ => cases running with
      | _ => cases a with
        | spurious => exact absurd rfl ha.1
        | timeOut => exact absurd rfl ha.2
        | _ => cases h <;> decide
  | opening | notOpened | sending | sent | finished =>
    cases running with
    | _ => cases a with
      | openSocket succeeds => cases succeeds with
        | _ => cases h <;> decide
      | _ => cases h <;> decide

theorem work_notify (b : Broadcaster) : b.notify.work ≤ b.work + 1 := by
  cases b with
  | waitingToOpen notified | waitingToSend notified => cases notified with
    | _ => decide
  | opening | notOpened | sending | sent | finished => decide

theorem isUnaware_notify (b : Broadcaster) : b.notify.isUnaware = false := by
  cases b with
  | _ => rfl

theorem maySend_notify (b : Broadcaster) : b.notify.maySend = b.maySend := by
  cases b with
  | _ => rfl

theorem notify_eq_finished {b : Broadcaster} : b.notify = .finished ↔ b = .finished := by
  cases b with
  | _ => simp [notify]

theorem isAsleep_of_isUnaware {b : Broadcaster} (h : b.isUnaware = true) : b.isAsleep = true := by
  cases b with
  | waitingToOpen notified | waitingToSend notified => rfl
  | opening | notOpened | sending | sent | finished => cases h

/-- A thread that is neither unaware nor done has something to do. -/
theorem exists_act (running : Bool) (hunaware : b.isUnaware = false) (hlive : b ≠ .finished) :
    ∃ a, (a ≠ .spurious ∧ a ≠ .timeOut) ∧ (b.act running a).isSome := by
  cases b with
  | opening => exact ⟨.openSocket true, ⟨nofun, nofun⟩, rfl⟩
  | notOpened => exact ⟨.wait, ⟨nofun, nofun⟩, rfl⟩
  | sending => exact ⟨.sendTo true, ⟨nofun, nofun⟩, rfl⟩
  | sent => exact ⟨.wait, ⟨nofun, nofun⟩, rfl⟩
  | waitingToOpen notified | waitingToSend notified =>
    cases notified with
    | true => exact ⟨.wake, ⟨nofun, nofun⟩, rfl⟩
    | false => cases hunaware
  | finished => exact absurd rfl hlive

end Broadcaster

namespace DiscoveryBroadcasts

-- ---------------------------------------------------------------------------
-- All threads
-- ---------------------------------------------------------------------------

variable {d d' : DiscoveryBroadcasts} {i : Nat} {b : Broadcaster}

/-- Only the thread that can be joined may not have finished, and as long as `running_` is
set it has not. At most one packet is sent after that. -/
structure WellFormed (d : DiscoveryBroadcasts) : Prop where
  terminated : d.terminated = false
  alone : ∀ {i : Nat} {b : Broadcaster}, d.started[i]? = some b → b ≠ .finished → d.thread = some i
  started : ∀ {i}, d.thread = some i → i < d.started.length
  running : d.running = true → ∃ i, ∃ b : Broadcaster, d.thread = some i ∧ d.started[i]? = some b ∧
    b ≠ .finished
  late : d.running = false → d.late ≤ 1
  silent : d.running = false → ∀ {i : Nat} {b : Broadcaster}, d.started[i]? = some b → b.maySend = true →
    d.late = 0

/-- No thread sleeps without having been notified. -/
def Aware (d : DiscoveryBroadcasts) : Prop :=
  ∀ (i : Nat) (b : Broadcaster), d.started[i]? = some b → b.isUnaware = false

/-- The work of the thread that can be joined. -/
def work (d : DiscoveryBroadcasts) : Nat :=
  match d.thread with
  | some i => ((d.started[i]?).map Broadcaster.work).getD 0
  | none => 0

theorem work_le (d : DiscoveryBroadcasts) : d.work ≤ 5 := by
  unfold work
  split
  · next i _ =>
    cases d.started[i]? with
    | none => exact Nat.zero_le _
    | some b =>
      cases b with
      | waitingToOpen notified | waitingToSend notified => cases notified with
        | _ => decide
      | opening | notOpened | sending | sent | finished => decide
  · exact Nat.zero_le _

theorem work_of_thread (hthread : d.thread = some i) (hb : d.started[i]? = some b) :
    d.work = b.work := by
  rw [work, hthread]
  show ((d.started[i]?).map Broadcaster.work).getD 0 = b.work
  rw [hb]
  rfl

/-- After a step of the `i`-th thread, a thread is that one, or is where it was. -/
theorem getElem?_set_cases {started : List Broadcaster} {i j : Nat} {b b' : Broadcaster}
    (h : (started.set i b')[j]? = some b) : j = i ∧ b = b' ∨ j ≠ i ∧ started[j]? = some b := by
  rw [List.getElem?_set] at h
  split at h
  · next heq =>
    split at h
    · exact .inl ⟨heq.symm, (Option.some.inj h).symm⟩
    · cases h
  · next hne => exact .inr ⟨Ne.symm hne, h⟩

theorem getElem?_set_self {started : List Broadcaster} {i : Nat} {b : Broadcaster}
    (h : started[i]? = some b) (b' : Broadcaster) : (started.set i b')[i]? = some b' := by
  rw [List.getElem?_set_self (List.getElem?_eq_some_iff.mp h).1]

theorem maySend_ne_finished (h : b.maySend = true) : b ≠ .finished := by
  rintro rfl
  cases h

theorem wellFormed_init : WellFormed {} where
  terminated := rfl
  alone := nofun
  started := nofun
  running := nofun
  late := fun _ => Nat.zero_le _
  silent := fun _ => nofun

/-- A thread is started when there is none to be joined. -/
theorem WellFormed.startIfNotRunning (h : d.WellFormed) (hnone : d.running = false → d.thread = none) :
    d.startIfNotRunning.WellFormed := by
  unfold DiscoveryBroadcasts.startIfNotRunning
  split
  · exact h
  · next hrunning =>
    have hthread := hnone (Bool.eq_false_iff.mpr hrunning)
    have hlast : (d.started ++ [Broadcaster.opening])[d.started.length]? = some .opening := by simp
    refine ⟨?_, ?_, ?_, ?_, nofun, nofun⟩
    · show (d.terminated || d.thread.isSome) = false
      rw [h.terminated, hthread]
      rfl
    · intro i b hb hlive
      rw [List.getElem?_append] at hb
      split at hb
      · cases hthread.symm.trans (h.alone hb hlive)
      · have hlt : i - d.started.length < 1 := (List.getElem?_eq_some_iff.mp hb).1
        have hi : i = d.started.length := by omega
        rw [hi]
    · rintro i ⟨⟩
      simp
    · exact fun _ => ⟨_, _, rfl, hlast, nofun⟩

theorem WellFormed.clearRunning (h : d.WellFormed) : d.clearRunning.WellFormed where
  terminated := h.terminated
  alone := h.alone
  started := h.started
  running := nofun
  late := fun _ => Nat.zero_le _
  silent := fun _ _ _ _ _ => rfl

/-- What a notification can do. -/
inductive Notified (d : DiscoveryBroadcasts) : DiscoveryBroadcasts → Prop
  | asleep {i : Nat} {b : Broadcaster} (hb : d.started[i]? = some b) (hasleep : b.isAsleep = true) :
      Notified d { d with started := d.started.set i b.notify }
  | awake (hawake : ∀ (i : Nat) (b : Broadcaster), d.started[i]? = some b → b.isAsleep = false) : Notified d d

theorem notified_notifyOne {woken : Option Nat} (hd' : d.notifyOne woken = some d') : Notified d d' := by
  cases woken with
  | some i =>
    obtain ⟨b, hb, hd'⟩ := Option.bind_eq_some_iff.mp hd'
    obtain ⟨hasleep, hd'⟩ := Option.ite_none_right_eq_some.mp hd'
    cases hd'
    exact .asleep hb hasleep
  | none =>
    obtain ⟨hawake, hd'⟩ := Option.ite_none_left_eq_some.mp hd'
    cases hd'
    refine .awake fun i b hb => ?_
    rw [Bool.not_eq_true, List.any_eq_false] at hawake
    exact Bool.eq_false_iff.mpr (hawake b (List.mem_of_getElem? hb))

theorem WellFormed.notified (h : d.WellFormed) (hd' : Notified d d') : d'.WellFormed := by
  cases hd' with
  | awake hawake => exact h
  | @asleep i b hb hasleep =>
    refine ⟨h.terminated, ?_, ?_, ?_, h.late, ?_⟩
    · intro j c hc hlive
      obtain ⟨rfl, rfl⟩ | ⟨-, hc⟩ := getElem?_set_cases hc
      · exact h.alone hb fun heq => hlive (Broadcaster.notify_eq_finished.mpr heq)
      · exact h.alone hc hlive
    · intro j hj
      rw [List.length_set]
      exact h.started hj
    · intro hrunning
      obtain ⟨j, c, hj, hc, hlive⟩ := h.running hrunning
      by_cases hji : j = i
      · subst hji
        cases hb.symm.trans hc
        exact ⟨j, _, hj, getElem?_set_self hb _, fun heq => hlive (Broadcaster.notify_eq_finished.mp heq)⟩
      · exact ⟨j, c, hj, by rw [List.getElem?_set_ne (Ne.symm hji)]; exact hc, hlive⟩
    · intro hrunning j c hc hmay
      obtain ⟨rfl, rfl⟩ | ⟨-, hc⟩ := getElem?_set_cases hc
      · rw [Broadcaster.maySend_notify] at hmay
        exact h.silent hrunning hb hmay
      · exact h.silent hrunning hc hmay

/-- After it nobody is left asleep that has not been notified, as there is one thread only. -/
theorem WellFormed.aware_notified (h : d.WellFormed) (hd' : Notified d d') : d'.Aware := by
  cases hd' with
  | awake hawake =>
    intro i b hb
    rw [Bool.eq_false_iff]
    intro hunaware
    have hasleep := Broadcaster.isAsleep_of_isUnaware hunaware
    rw [hawake i b hb] at hasleep
    cases hasleep
  | @asleep i b hb hasleep =>
    intro j c hc
    obtain ⟨rfl, rfl⟩ | ⟨hne, hc⟩ := getElem?_set_cases hc
    · exact Broadcaster.isUnaware_notify b
    · rw [Bool.eq_false_iff]
      intro hunaware
      have hj := h.alone hc (by rintro rfl; cases hunaware)
      have hi := h.alone hb (by rintro rfl; cases hasleep)
      exact hne (Option.some.inj (hj.symm.trans hi))

theorem WellFormed.work_notified (h : d.WellFormed) (hd' : Notified d d') : d'.work ≤ d.work + 1 := by
  cases hd' with
  | awake hawake => exact Nat.le_succ _
  | @asleep i b hb hasleep =>
    have hthread := h.alone hb (by rintro rfl; cases hasleep)
    have hafter : work { d with started := d.started.set i b.notify } = b.notify.work :=
      work_of_thread hthread (getElem?_set_self hb _)
    rw [work_of_thread hthread hb, hafter]
    exact Broadcaster.work_notify b

theorem WellFormed.join (h : d.WellFormed) (hsome : d.thread.isSome) (hd' : d.join = some d') :
    d'.WellFormed ∧ d'.thread = none ∧ d.running = false ∧ d' = { d with thread := none } := by
  obtain ⟨i, hthread⟩ := Option.isSome_iff_exists.mp hsome
  unfold DiscoveryBroadcasts.join at hd'
  rw [hthread] at hd'
  obtain ⟨hfinished, hd'⟩ := Option.ite_none_right_eq_some.mp hd'
  cases hd'
  have hclear : d.running = false := by
    rw [Bool.eq_false_iff]
    intro hrunning
    obtain ⟨j, b, hj, hb, hlive⟩ := h.running hrunning
    cases hthread.symm.trans hj
    exact hlive (Option.some.inj (hb.symm.trans hfinished))
  refine ⟨⟨h.terminated, ?_, nofun, ?_, h.late, h.silent⟩, rfl, hclear, rfl⟩
  · intro j b hb hlive
    have hj := h.alone hb hlive
    cases hthread.symm.trans hj
    exact absurd (Option.some.inj (hb.symm.trans hfinished)) hlive
  · intro hrunning
    cases hclear.symm.trans hrunning

/-- What a step of a thread can do. -/
inductive Acted (d : DiscoveryBroadcasts) (i : Nat) (a : Broadcaster.Action) : DiscoveryBroadcasts → Prop
  | intro {b b' : Broadcaster} (n : Nat) (hb : d.started[i]? = some b) (hb' : b.act d.running a = some b')
      (hn : n ≤ 1) (hsent : n ≠ 0 → a = .sendTo true) :
      Acted d i a { d with
        started := d.started.set i b', packets := d.packets + n, late := d.late + n }

theorem acted_act {a : Broadcaster.Action} (hd' : d.act i a = some d') : Acted d i a d' := by
  obtain ⟨b, hb, hd'⟩ := Option.bind_eq_some_iff.mp hd'
  obtain ⟨b', hb', rfl⟩ := Option.map_eq_some_iff.mp hd'
  refine .intro (if a = .sendTo true then 1 else 0) hb hb' ?_ ?_
  · split
    · exact Nat.le_refl _
    · exact Nat.zero_le _
  · intro hn
    by_contra hsent
    rw [if_neg hsent] at hn
    exact hn rfl

variable {a : Broadcaster.Action}

theorem WellFormed.acted (h : d.WellFormed) (hd' : Acted d i a d') : d'.WellFormed := by
  obtain @⟨b, b', n, hb, hb', hn, hsent⟩ := hd'
  have hthread := h.alone hb (Broadcaster.ne_finished_of_act hb')
  refine ⟨h.terminated, ?_, ?_, ?_, ?_, ?_⟩
  · intro j c hc hlive
    obtain ⟨rfl, rfl⟩ | ⟨-, hc⟩ := getElem?_set_cases hc
    · exact hthread
    · exact h.alone hc hlive
  · intro j hj
    rw [List.length_set]
    exact h.started hj
  · intro hrunning
    rw [show d.running = true from hrunning] at hb'
    exact ⟨i, b', hthread, getElem?_set_self hb _, Broadcaster.not_finished_of_act hb'⟩
  · intro hrunning
    show d.late + n ≤ 1
    by_cases hn0 : n = 0
    · rw [hn0]
      exact h.late hrunning
    · have hzero : d.late = 0 := by
        rw [hsent hn0] at hb'
        exact h.silent hrunning hb (Broadcaster.maySend_of_sendTo hb')
      omega
  · intro hrunning j c hc hmay
    show d.late + n = 0
    obtain ⟨rfl, rfl⟩ | ⟨hne, hc⟩ := getElem?_set_cases hc
    · rw [show d.running = false from hrunning] at hb'
      obtain ⟨hmay', ha⟩ := Broadcaster.maySend_of_act hb' hmay
      have hn0 : n = 0 := by
        by_contra hn0
        exact ha (hsent hn0)
      rw [hn0]
      exact h.silent hrunning hb hmay'
    · have hj := h.alone hc (maySend_ne_finished hmay)
      exact absurd (Option.some.inj (hj.symm.trans hthread)) hne

/-- Once `running_` is clear, nobody falls asleep any more. -/
theorem Aware.acted (h : d.Aware) (hrunning : d.running = false) (hd' : Acted d i a d') : d'.Aware := by
  obtain @⟨b, b', n, hb, hb', hn, hsent⟩ := hd'
  intro j c hc
  obtain ⟨rfl, rfl⟩ | ⟨-, hc⟩ := getElem?_set_cases hc
  · rw [hrunning] at hb'
    exact Broadcaster.not_unaware_of_act hb'
  · exact h j c hc

theorem WellFormed.work_acted (h : d.WellFormed) (hd' : Acted d i a d')
    (ha : a ≠ .spurious ∧ a ≠ .timeOut) : d'.work < d.work := by
  obtain @⟨b, b', n, hb, hb', hn, hsent⟩ := hd'
  have hthread := h.alone hb (Broadcaster.ne_finished_of_act hb')
  have hafter : work { d with
      started := d.started.set i b', packets := d.packets + n, late := d.late + n } = b'.work :=
    work_of_thread hthread (getElem?_set_self hb _)
  rw [work_of_thread hthread hb, hafter]
  exact Broadcaster.work_act hb' ha

theorem running_notified (hd' : Notified d d') : d'.running = d.running ∧ d'.thread = d.thread := by
  cases hd' with
  | _ => exact ⟨rfl, rfl⟩

theorem running_acted (hd' : Acted d i a d') : d'.running = d.running ∧ d'.thread = d.thread := by
  cases hd' with
  | _ => exact ⟨rfl, rfl⟩

/-- Somebody can be notified, or nobody sleeps. -/
theorem exists_notifyOne (d : DiscoveryBroadcasts) : ∃ woken, (d.notifyOne woken).isSome := by
  by_cases hany : d.started.any Broadcaster.isAsleep
  · obtain ⟨b, hb, hasleep⟩ := List.any_eq_true.mp hany
    obtain ⟨i, hi⟩ := List.getElem?_of_mem hb
    refine ⟨some i, ?_⟩
    show ((d.started[i]?).bind _).isSome
    rw [hi, Option.bind_some, if_pos hasleep]
    rfl
  · refine ⟨none, ?_⟩
    rw [notifyOne, if_neg hany]
    rfl

/-- The thread that is waited for has returned, or it can take a step. -/
theorem WellFormed.exists_progress (h : d.WellFormed) (haware : d.Aware) (hsome : d.thread.isSome) :
    (d.join).isSome ∨ ∃ i a, (a ≠ .spurious ∧ a ≠ .timeOut) ∧ (d.act i a).isSome := by
  obtain ⟨i, hthread⟩ := Option.isSome_iff_exists.mp hsome
  obtain ⟨b, hb⟩ : ∃ b, d.started[i]? = some b := ⟨_, List.getElem?_eq_getElem (h.started hthread)⟩
  by_cases hfinished : b = .finished
  · left
    rw [DiscoveryBroadcasts.join, hthread]
    show (if d.started[i]? = some .finished then some { d with thread := none } else none).isSome
    rw [hb, hfinished, if_pos rfl]
    rfl
  · right
    obtain ⟨a, ha, hact⟩ := Broadcaster.exists_act d.running (haware i b hb) hfinished
    refine ⟨i, a, ha, ?_⟩
    rw [act, hb, Option.bind_some, Option.isSome_map]
    exact hact

end DiscoveryBroadcasts

end ZenRemote.Client
