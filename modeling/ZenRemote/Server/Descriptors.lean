-- SUMMARY: The descriptors of the server library: which objects close what they have created, and when.
import Mathlib.Algebra.Ring.Nat
import ZenRemote.Lib.Descriptors
import ZenRemote.Server.PeerManager
import ZenRemote.Server.Session

/-!
# Descriptors

Sessions, loop notifiers and buffers create a pipe, and peers a timer. Each has its own way
to clean up. The two destructors that close a pipe take an end with the number zero for no
pipe, and tell the loop to forget the read end when they have closed it.
-/

namespace ZenRemote.Server

open Descriptors (Event Kept Disciplined)

/-- An object that has a pipe, and what it has done with descriptors so far. -/
structure PipeOwner where
  /-- `pipe_`, the read end and the write end. -/
  pipe : Nat × Nat := (0, 0)
  /-- The source of the read end, by its `fd`. -/
  source : Option Nat := none
  gone : Bool := false
  events : List (Event Nat) := []
  deriving DecidableEq, Repr

namespace PipeOwner

def record (o : PipeOwner) (events : List (Event Nat)) : PipeOwner := { o with events := o.events ++ events }

/-- `pipe2` succeeds. -/
def create (o : PipeOwner) (reader writer : Nat) : PipeOwner :=
  { o with pipe := (reader, writer) }.record [.opened reader, .opened writer]

def addFd (o : PipeOwner) : PipeOwner := { o with source := some o.pipe.1 }

def close (o : PipeOwner) : PipeOwner := o.record [.closed o.pipe.1, .closed o.pipe.2]

def write (o : PipeOwner) (n : Nat) : PipeOwner := o.record (List.replicate n (.written o.pipe.2))

def removeFd (o : PipeOwner) : PipeOwner := o.record (o.source.toList.map .removed)

/-- The destructor ends. -/
def leave (o : PipeOwner) : PipeOwner := { o with gone := true }

/-- How `~Session` and `~LoopNotifier` clean up. -/
def release (o : PipeOwner) : PipeOwner := (if o.pipe.1 ≠ 0 then o.close else o).removeFd.leave

end PipeOwner

-- ---------------------------------------------------------------------------
-- Owners
-- ---------------------------------------------------------------------------

namespace PipeOwner

variable {o : PipeOwner} {reader writer fd : Nat}

/-- There is no pipe. -/
structure Unused (o : PipeOwner) : Prop where
  pipe : o.pipe.1 = 0
  source : o.source = none
  unopened : ∀ fd, .opened fd ∉ o.events
  unclosed : ∀ fd, .closed fd ∉ o.events

/-- The loop has the source of the read end, which has not been closed. -/
structure Registered (reader : Nat) (o : PipeOwner) : Prop where
  opened : .opened reader ∈ o.events
  pipe : o.pipe.1 = reader
  source : o.source = some reader
  unclosed : .closed reader ∉ o.events

/-- The read end has been closed too early or twice, or is not closed any more. -/
structure Lost (reader : Nat) (o : PipeOwner) : Prop where
  opened : .opened reader ∈ o.events
  lost : ¬ Kept reader o.events

/-- How the owner stands to the pipe that it reads at `reader`, if it has one. -/
def Stands (reader : Option Nat) (o : PipeOwner) : Prop :=
  match reader with
  | none => Unused o
  | some reader => if o.gone then Lost reader o else Registered reader o

theorem Lost.not_disciplined (h : Lost reader o) : ¬ Disciplined o.events :=
  fun hdisciplined => h.lost (hdisciplined reader h.opened)

theorem Unused.disciplined (h : Unused o) : Disciplined o.events :=
  Descriptors.disciplined_of_not_opened h.unopened

theorem unused_init : Unused {} := ⟨rfl, rfl, nofun, nofun⟩

theorem not_opened_writes {n : Nat} : .opened fd ∉ List.replicate n (Event.written writer) := by
  intro h
  cases (List.mem_replicate.mp h).2

theorem not_closed_writes {n : Nat} : .closed fd ∉ List.replicate n (Event.written writer) := by
  intro h
  cases (List.mem_replicate.mp h).2

theorem Unused.write (h : Unused o) (n : Nat) : Unused (o.write n) where
  pipe := h.pipe
  source := h.source
  unopened := fun fd hopened => (List.mem_append.mp hopened).elim (h.unopened fd) not_opened_writes
  unclosed := fun fd hclosed => (List.mem_append.mp hclosed).elim (h.unclosed fd) not_closed_writes

theorem Unused.leave (h : Unused o) : Unused o.leave := ⟨h.pipe, h.source, h.unopened, h.unclosed⟩

theorem Registered.leave (h : Registered reader o) : Registered reader o.leave :=
  ⟨h.opened, h.pipe, h.source, h.unclosed⟩

theorem Lost.leave (h : Lost reader o) : Lost reader o.leave := ⟨h.opened, h.lost⟩

theorem Unused.release (h : Unused o) : Unused o.release := by
  have hrelease : o.release = o.leave := by
    simp [PipeOwner.release, PipeOwner.leave, removeFd, record, h.pipe, h.source]
  rw [hrelease]
  exact h.leave

theorem registered_create (h : .closed reader ∉ o.events) : Registered reader (o.create reader writer).addFd where
  opened := List.mem_append_right _ List.mem_cons_self
  pipe := rfl
  source := rfl
  unclosed := by
    intro hclosed
    rcases List.mem_append.mp hclosed with hclosed | hclosed
    · exact h hclosed
    · simp at hclosed

theorem Registered.write (h : Registered reader o) (n : Nat) : Registered reader (o.write n) where
  opened := List.mem_append_left _ h.opened
  pipe := h.pipe
  source := h.source
  unclosed := fun hclosed => (List.mem_append.mp hclosed).elim h.unclosed not_closed_writes

theorem Lost.write (h : Lost reader o) (n : Nat) : Lost reader (o.write n) where
  opened := List.mem_append_left _ h.opened
  lost := fun hkept => h.lost (hkept.of_append not_closed_writes)

/-- The loop is told to forget a descriptor that has been closed. -/
theorem Registered.close_removeFd (h : Registered reader o) : Lost reader o.close.removeFd where
  opened := List.mem_append_left _ (List.mem_append_left _ h.opened)
  lost := by
    have hevents : o.close.removeFd.events =
        o.events ++ .closed reader :: [.closed o.pipe.2, .removed reader] := by
      simp [close, removeFd, record, h.source, h.pipe]
    rw [hevents]
    exact Descriptors.not_kept_of_uses (List.mem_cons_of_mem _ List.mem_cons_self) rfl

/-- A read end with the number zero is not closed at all. -/
theorem Registered.release (h : Registered reader o) : Lost reader o.release := by
  unfold PipeOwner.release
  apply Lost.leave
  split
  · exact h.close_removeFd
  · refine ⟨List.mem_append_left _ h.opened, Descriptors.not_kept_of_not_closed fun hclosed => ?_⟩
    rcases List.mem_append.mp hclosed with hclosed | hclosed
    · exact h.unclosed hclosed
    · simp at hclosed

theorem Stands.write {reader : Option Nat} (h : Stands reader o) (n : Nat) : Stands reader (o.write n) := by
  unfold Stands at h ⊢
  split at h
  · exact Unused.write h n
  · split at h
    · next hgone => exact (if_pos hgone).mpr (h.write n)
    · next hgone => exact (if_neg hgone).mpr (h.write n)

theorem Stands.release {reader : Option Nat} (h : Stands reader o) (hgone : o.gone = false) :
    Stands reader o.release := by
  unfold Stands at h ⊢
  split at h
  · exact Unused.release h
  · rw [hgone] at h
    exact (if_pos rfl).mpr (Registered.release h)

theorem Stands.disciplined_iff {reader : Option Nat} (h : Stands reader o) (hgone : o.gone = true) :
    Disciplined o.events ↔ reader = none := by
  unfold Stands at h
  split at h
  · exact iff_of_true h.disciplined rfl
  · rw [hgone] at h
    exact iff_of_false (Lost.not_disciplined h) nofun

end PipeOwner

-- ---------------------------------------------------------------------------
-- Loop notifiers
-- ---------------------------------------------------------------------------

namespace LoopNotifier

structure State where
  fds : PipeOwner := {}
  /-- What `pipe2` has given, `none` if it has failed, once `Init` has been called. -/
  pipe2 : Option (Option (Nat × Nat)) := none
  deriving DecidableEq, Repr

inductive Label where
  | init (pipe2 : Option (Nat × Nat))
  | notify
  | destroy
  deriving DecidableEq, Repr

namespace State

def init (s : State) : Option (Nat × Nat) → State
  | none => { s with pipe2 := some none }
  | some (reader, writer) =>
    { fds := (s.fds.create reader writer).addFd, pipe2 := some (some (reader, writer)) }

def step (s : State) (l : Label) : Option State :=
  if s.fds.gone then none
  else
    match l with
    | .init pipe2 => if s.pipe2 = none then some (s.init pipe2) else none
    | .notify => some { s with fds := s.fds.write 1 }
    | .destroy => some { s with fds := s.fds.release }

end State

def machine : Machine State Label := ⟨{}, State.step⟩

variable {s s' : State}

/-- The read end of the pipe. -/
def State.reader (s : State) : Option Nat := s.pipe2.join.map Prod.fst

theorem stands_step (h : s.fds.Stands s.reader) {l : Label} (hstep : s.step l = some s') :
    s'.fds.Stands s'.reader := by
  obtain ⟨hgone, hstep⟩ := Option.ite_none_left_eq_some.mp hstep
  rw [Bool.not_eq_true] at hgone
  cases l with
  | init pipe2 =>
    obtain ⟨hfirst, hs'⟩ := Option.ite_none_right_eq_some.mp hstep
    cases hs'
    rw [State.reader, hfirst] at h
    cases pipe2 with
    | none => exact h
    | some pipe =>
      have hregistered : PipeOwner.Registered pipe.1 (s.fds.create pipe.1 pipe.2).addFd :=
        PipeOwner.registered_create (h.unclosed pipe.1)
      exact (if_neg (Bool.eq_false_iff.mp hgone)).mpr hregistered
  | notify =>
    cases hstep
    exact h.write 1
  | destroy =>
    cases hstep
    exact h.release hgone

theorem disciplined_iff {ls : List Label} (hrun : machine.run ls = some s) (hgone : s.fds.gone = true) :
    Disciplined s.fds.events ↔ s.reader = none := by
  have hstands : s.fds.Stands s.reader :=
    Machine.run_invariant (I := fun s => s.fds.Stands s.reader) PipeOwner.unused_init
      (fun _ _ _ h hstep => stands_step h hstep) hrun
  exact hstands.disciplined_iff hgone

end LoopNotifier

-- ---------------------------------------------------------------------------
-- Sessions
-- ---------------------------------------------------------------------------

namespace Session

/-- The number of messages that the channels have written to the control pipe. -/
def State.written (s : State) : Nat := (s.made.map ChannelLife.State.written).sum

/-- How `Connect` ends. -/
inductive Outcome where
  | pipe2Fails
  /-- `New` of the session service returns no ok status. -/
  | newFails (reader writer : Nat)
  | succeeds (reader writer : Nat)
  deriving DecidableEq, Repr

/-- The two ends of a pipe are two descriptors. -/
def Outcome.distinct : Outcome → Bool
  | .pipe2Fails => true
  | .newFails reader writer | .succeeds reader writer => reader ≠ writer

/-- A session from its constructor to the end of its destructor. -/
structure Life where
  fds : PipeOwner := {}
  outcome : Option Outcome := none
  /-- The session as it is from when `Connect` has succeeded. -/
  session : Option State := none
  deriving DecidableEq, Repr

namespace Life

inductive Label where
  | connect (outcome : Outcome)
  /-- A step of the connected session, of its users or of its channels. The last step of
  `~Session` here is the return of `DisableChannels`. -/
  | session (l : Session.Label)
  /-- The rest of `~Session`. -/
  | destroy
  deriving DecidableEq, Repr

def connect (s : Life) (outcome : Outcome) : Life :=
  match outcome with
  | .pipe2Fails => { s with outcome }
  | .newFails reader writer => { s with outcome, fds := (s.fds.create reader writer).close }
  | .succeeds reader writer =>
    { fds := (s.fds.create reader writer).addFd, outcome, session := some {} }

/-- Nothing is left to disable. -/
def disabled (s : Life) : Bool := s.session.all fun t => t.loop = .destroyed

def step (capacity : Nat) (s : Life) : Label → Option Life
  | .connect outcome =>
    if s.fds.gone = false ∧ s.outcome = none ∧ outcome.distinct then some (s.connect outcome) else none
  | .session l =>
    s.session.bind fun t => (t.step capacity l).map fun t' =>
      { s with session := some t', fds := s.fds.write (t'.written - t.written) }
  | .destroy => if s.fds.gone = false ∧ s.disabled then some { s with fds := s.fds.release } else none

def machine (capacity : Nat) : Machine Life Label := ⟨{}, step capacity⟩

variable {s s' : Life} {capacity : Nat}

/-- `Connect` has closed the pipe that it has made. The destructor closes it again, unless
the read end has the number zero. -/
structure Closed (reader writer : Nat) (o : PipeOwner) : Prop where
  distinct : reader ≠ writer
  pipe : o.pipe = (reader, writer)
  source : o.source = none
  events : o.events = [.opened reader, .opened writer, .closed reader, .closed writer] ++
    if o.gone ∧ reader ≠ 0 then [.closed reader, .closed writer] else []

theorem Closed.disciplined_iff {reader writer : Nat} {o : PipeOwner} (h : Closed reader writer o)
    (hgone : o.gone = true) : Disciplined o.events ↔ reader = 0 := by
  have hevents := h.events
  rw [hgone] at hevents
  by_cases hzero : reader = 0
  · refine iff_of_true ?_ hzero
    rw [if_neg (fun hand => hand.2 hzero), List.append_nil] at hevents
    rw [hevents]
    intro fd hopened
    have hcases : fd = reader ∨ fd = writer := by simpa using hopened
    obtain rfl | rfl := hcases
    · exact Descriptors.kept_of_unused [.opened fd, .opened writer] [.closed writer] (by simp)
        (by simpa [Event.Uses] using h.distinct.symm)
    · exact Descriptors.kept_of_unused [.opened reader, .opened fd, .closed reader] []
        (by simpa using h.distinct.symm) nofun
  · refine iff_of_false (fun hdisciplined => ?_) hzero
    rw [if_pos ⟨rfl, hzero⟩] at hevents
    have hkept := hdisciplined reader (by rw [hevents]; exact List.mem_cons_self)
    have htwice : ¬ Kept reader ([.opened reader, .opened writer] ++
        .closed reader :: [.closed writer, .closed reader, .closed writer]) :=
      Descriptors.not_kept_of_uses (List.mem_cons_of_mem _ List.mem_cons_self) rfl
    rw [hevents] at hkept
    exact htwice hkept

theorem Closed.release {reader writer : Nat} {o : PipeOwner} (h : Closed reader writer o)
    (hgone : o.gone = false) : Closed reader writer o.release := by
  have hevents := h.events
  rw [hgone, if_neg (fun hand => Bool.false_ne_true hand.1), List.append_nil] at hevents
  by_cases hzero : reader = 0
  · have hrelease : o.release = o.leave := by
      simp [PipeOwner.release, PipeOwner.leave, PipeOwner.removeFd, PipeOwner.record, h.pipe,
        h.source, hzero]
    rw [hrelease]
    refine ⟨h.distinct, h.pipe, h.source, ?_⟩
    rw [if_neg (fun hand => hand.2 hzero), List.append_nil]
    exact hevents
  · have hrelease : o.release = o.close.leave := by
      simp [PipeOwner.release, PipeOwner.removeFd, PipeOwner.close, PipeOwner.record, h.pipe, h.source,
        hzero]
    rw [hrelease]
    refine ⟨h.distinct, h.pipe, h.source, ?_⟩
    rw [if_pos ⟨rfl, hzero⟩, ← hevents, PipeOwner.close, h.pipe]
    rfl

/-- How the session stands to its pipe, as `Connect` has ended. -/
def Sound (s : Life) : Option Outcome → Prop
  | none | some .pipe2Fails => s.fds = { gone := s.fds.gone } ∧ s.session = none
  | some (.newFails reader writer) => Closed reader writer s.fds ∧ s.session = none
  | some (.succeeds reader _) => s.fds.Stands (some reader)

theorem sound_connect (h : Sound s none) (hgone : s.fds.gone = false) {outcome : Outcome}
    (hdistinct : outcome.distinct = true) : Sound (s.connect outcome) (some outcome) := by
  obtain ⟨hfds, hsession⟩ := h
  rw [hgone] at hfds
  cases outcome with
  | pipe2Fails => exact ⟨by rw [connect, hfds], hsession⟩
  | newFails reader writer =>
    refine ⟨⟨of_decide_eq_true hdistinct, rfl, ?_, ?_⟩, hsession⟩
    · simp [connect, PipeOwner.create, PipeOwner.close, PipeOwner.record, hfds]
    · simp [connect, PipeOwner.create, PipeOwner.close, PipeOwner.record, hfds]
  | succeeds reader writer =>
    have hregistered : PipeOwner.Registered reader (s.fds.create reader writer).addFd :=
      PipeOwner.registered_create (by rw [hfds]; exact nofun)
    exact (if_neg (Bool.eq_false_iff.mp hgone)).mpr hregistered

theorem outcome_connect (outcome : Outcome) : (s.connect outcome).outcome = some outcome := by
  cases outcome with
  | pipe2Fails | newFails reader writer | succeeds reader writer => rfl

theorem sound_release (h : Sound s s.outcome) (hgone : s.fds.gone = false) :
    Sound { s with fds := s.fds.release } s.outcome := by
  cases houtcome : s.outcome with
  | none =>
    rw [houtcome] at h
    refine ⟨?_, h.2⟩
    rw [h.1]
    rfl
  | some outcome =>
    rw [houtcome] at h
    cases outcome with
    | pipe2Fails =>
      refine ⟨?_, h.2⟩
      rw [h.1]
      rfl
    | newFails reader writer => exact ⟨h.1.release hgone, h.2⟩
    | succeeds reader writer =>
      have hstands : s.fds.Stands (some reader) := h
      exact hstands.release hgone

theorem sound_step (h : Sound s s.outcome) {l : Label} (hstep : step capacity s l = some s') :
    Sound s' s'.outcome := by
  cases l with
  | connect outcome =>
    obtain ⟨⟨hgone, hfirst, hdistinct⟩, hs'⟩ := Option.ite_none_right_eq_some.mp hstep
    cases hs'
    rw [hfirst] at h
    rw [outcome_connect]
    exact sound_connect h hgone hdistinct
  | session l =>
    obtain ⟨t, ht, hstep⟩ := Option.bind_eq_some_iff.mp hstep
    obtain ⟨t', ht', rfl⟩ := Option.map_eq_some_iff.mp hstep
    show Sound _ s.outcome
    cases houtcome : s.outcome with
    | none =>
      rw [houtcome] at h
      exact absurd (h.2.symm.trans ht) nofun
    | some outcome =>
      rw [houtcome] at h
      cases outcome with
      | pipe2Fails | newFails reader writer => exact absurd (h.2.symm.trans ht) nofun
      | succeeds reader writer =>
        have hstands : s.fds.Stands (some reader) := h
        exact hstands.write _
  | destroy =>
    obtain ⟨⟨hgone, hdisabled⟩, hs'⟩ := Option.ite_none_right_eq_some.mp hstep
    cases hs'
    exact sound_release h hgone

/-- There is no pipe, or the destructor does not see that there was one. -/
def NoPipeLeft : Option Outcome → Prop
  | none | some .pipe2Fails => True
  | some (.newFails reader _) => reader = 0
  | some (.succeeds _ _) => False

theorem disciplined_iff {ls : List Label} (hrun : (machine capacity).run ls = some s)
    (hgone : s.fds.gone = true) : Disciplined s.fds.events ↔ NoPipeLeft s.outcome := by
  have hinit : Sound (machine capacity).init (machine capacity).init.outcome := ⟨rfl, rfl⟩
  have hsound : Sound s s.outcome :=
    Machine.run_invariant (I := fun s => Sound s s.outcome) hinit (fun _ _ _ h hstep => sound_step h hstep)
      hrun
  cases houtcome : s.outcome with
  | none =>
    rw [houtcome] at hsound
    rw [hsound.1]
    exact iff_of_true (Descriptors.disciplined_of_not_opened nofun) trivial
  | some outcome =>
    rw [houtcome] at hsound
    cases outcome with
    | pipe2Fails =>
      rw [hsound.1]
      exact iff_of_true (Descriptors.disciplined_of_not_opened nofun) trivial
    | newFails reader writer => exact hsound.1.disciplined_iff hgone
    | succeeds reader writer =>
      have hstands : s.fds.Stands (some reader) := hsound
      rw [hstands.disciplined_iff hgone]
      exact iff_of_false nofun id

end Life

-- ---------------------------------------------------------------------------
-- Writes to the control pipe
-- ---------------------------------------------------------------------------

variable {t t' : State} {capacity i : Nat} {c c' : ChannelLife.State}

/-- A channel to which no reference is left does not write. -/
theorem written_step_of_released (hreleased : c.strong = 0) {l : ChannelLife.Label}
    (hstep : c.step l = some c') : c'.written = c.written := by
  cases (ChannelLife.stepped_of_step hstep).2 with
  | work l hwork => exact ChannelLife.worked_written l _
  | leave | userDrop | leaveCompletion | disablerDrop => exact ChannelLife.dropped_written _
  | userCopy | complete | disablerLock | disable | disableDisabled | destruct | destructDisabled => rfl
  | notifyDisconnection hsome hfree =>
    simp only [ChannelLife.State.strong, ChannelLife.State.others] at hreleased
    omega

/-- Once `~Session` has come back from `DisableChannels`, every channel that is alive is
disabled. -/
structure Quieted (t : State) : Prop extends Invariant t where
  disabled : t.loop = .destroyed → ∀ (i : Nat) c, t.made[i]? = some c → 0 < c.strong → c.enabled = false

theorem Quieted.stepChannel (h : Quieted t) {l : ChannelLife.Label} (hloop : t.loop = .destroyed)
    (hstep : t.stepChannel capacity i l = some t') :
    t'.written = t.written ∧
      ∀ (j : Nat) d, t'.made[j]? = some d → 0 < d.strong → d.enabled = false := by
  refine ⟨?_, fun j d hd hpos => ?_⟩
  · obtain ⟨c, c', arriving, hc, hc', rfl⟩ := stepChannel_eq_some hstep
    have hwritten : c'.written = c.written := by
      rcases Nat.eq_zero_or_pos c.strong with hreleased | hpos
      · exact written_step_of_released hreleased hc'
      · exact ((h.made i c hc).disabled_step (h.disabled hloop i c hc hpos) hc').2.2
    obtain ⟨hlt, rfl⟩ := List.getElem?_eq_some_iff.mp hc
    have hmap : (t.made.set i c').map ChannelLife.State.written =
        t.made.map ChannelLife.State.written := by
      rw [List.map_set, hwritten, ← List.map_set, List.set_getElem_self]
    exact congrArg List.sum hmap
  · obtain ⟨-, hd⟩ | ⟨-, c, hc, hcd⟩ := made_before hstep hd
    · exact h.disabled hloop j d hd hpos
    · have hsound := h.made j c hc
      exact (hsound.disabled_step (h.disabled hloop j c hc (hsound.strong_step hcd hpos)) hcd).1

theorem destroyed_step (hloop : t.loop = .destroyed) {l : Label} (hstep : t.step capacity l = some t') :
    ∃ i cl, l = .channel i cl ∧ t.stepChannel capacity i cl = some t' := by
  cases stepped_of_step hstep with
  | channel i cl hforeign ht => exact ⟨i, cl, rfl, ht⟩
  | createChannel hother | emit hother | destroy hother | dispatch hother => cases hloop.symm.trans hother
  | lockNext hother | skipNext hother | beginEmit hother | endDestroy hother | disable hother
  | disabled hother => cases hloop.symm.trans hother

/-- Only the end of `DisableChannels` in `~Session` leads to the end of the session. -/
theorem pending_of_destroyed (hbefore : t.loop ≠ .destroyed) {l : Label}
    (hstep : t.step capacity l = some t') (hloop : t'.loop = .destroyed) :
    t.loop.pending = some [] ∧ t'.made = t.made := by
  cases stepped_of_step hstep with
  | endDestroy hdisabling =>
    rw [hdisabling]
    exact ⟨rfl, rfl⟩
  | channel i cl hforeign ht => exact absurd ((loop_stepChannel ht).symm.trans hloop) hbefore
  | disable hinDisable ht => exact absurd ((loop_stepChannel ht).symm.trans hloop) hbefore
  | createChannel hidle => exact absurd hloop hbefore
  | dispatch hidle hsome =>
    unfold State.handleControlEvent at hloop
    split at hloop
    · cases hloop
    · exact absurd hloop hbefore
  | lockNext | skipNext | beginEmit | disabled | emit | destroy => cases hloop

theorem quieted_init : Quieted (machine capacity).init where
  toInvariant := invariant_init
  disabled := nofun

theorem Quieted.step (h : Quieted t) {l : Label} (hstep : t.step capacity l = some t') : Quieted t' := by
  refine ⟨h.toInvariant.step hstep, fun hloop => ?_⟩
  by_cases hbefore : t.loop = .destroyed
  · obtain ⟨i, cl, -, hchannel⟩ := destroyed_step hbefore hstep
    exact (h.stepChannel hbefore hchannel).2
  · obtain ⟨hpending, hmade⟩ := pending_of_destroyed hbefore hstep hloop
    intro j d hd hpos
    rw [hmade] at hd
    exact (h.pending [] hpending j d hd hpos).resolve_right List.not_mem_nil

namespace Life

variable {s s' : Life}

/-- The destructor goes on when the loop has come to its end. -/
def Quiet (s : Life) : Prop :=
  ∀ t, s.session = some t → Quieted t ∧ (s.fds.gone = true → t.loop = .destroyed)

theorem quiet_init : Quiet (Life.machine capacity).init := by
  intro t ht
  cases ht

theorem Quiet.step (h : Quiet s) {l : Label} (hstep : step capacity s l = some s') : Quiet s' := by
  cases l with
  | connect outcome =>
    obtain ⟨⟨hgone, -, -⟩, hs'⟩ := Option.ite_none_right_eq_some.mp hstep
    cases hs'
    cases outcome with
    | pipe2Fails | newFails reader writer => exact h
    | succeeds reader writer =>
      rintro _ ⟨rfl⟩
      have hquieted : Quieted (Session.machine capacity).init := quieted_init
      exact ⟨hquieted, fun hgone' => absurd (hgone.symm.trans hgone') nofun⟩
  | session l =>
    obtain ⟨t, ht, hstep⟩ := Option.bind_eq_some_iff.mp hstep
    obtain ⟨t', ht', rfl⟩ := Option.map_eq_some_iff.mp hstep
    obtain ⟨hquieted, hloop⟩ := h t ht
    rintro _ ⟨rfl⟩
    refine ⟨hquieted.step ht', fun hgone => ?_⟩
    obtain ⟨i, cl, -, hchannel⟩ := destroyed_step (hloop hgone) ht'
    exact (loop_stepChannel hchannel).trans (hloop hgone)
  | destroy =>
    obtain ⟨⟨-, hdisabled⟩, hs'⟩ := Option.ite_none_right_eq_some.mp hstep
    cases hs'
    intro t ht
    refine ⟨(h t ht).1, fun _ => ?_⟩
    rw [disabled, show s.session = some t from ht] at hdisabled
    exact of_decide_eq_true hdisabled

/-- The channels that outlive the session do not write to the pipe that it has closed. -/
theorem events_after_gone {ls : List Label} (hrun : (machine capacity).run ls = some s)
    (hgone : s.fds.gone = true) {l : Session.Label} (hstep : step capacity s (.session l) = some s') :
    s'.fds.events = s.fds.events := by
  have hquiet : Quiet s :=
    Machine.run_invariant (I := Quiet) quiet_init (fun _ _ _ h hstep => h.step hstep) hrun
  obtain ⟨t, ht, hstep⟩ := Option.bind_eq_some_iff.mp hstep
  obtain ⟨t', ht', rfl⟩ := Option.map_eq_some_iff.mp hstep
  obtain ⟨hquieted, hloop⟩ := hquiet t ht
  obtain ⟨i, cl, -, hchannel⟩ := destroyed_step (hloop hgone) ht'
  have hwritten := (hquieted.stepChannel (hloop hgone) hchannel).1
  show (s.fds.write (t'.written - t.written)).events = s.fds.events
  rw [hwritten, Nat.sub_self]
  exact List.append_nil _

end Life

end Session

-- ---------------------------------------------------------------------------
-- Buffers
-- ---------------------------------------------------------------------------

namespace Buffer

/-- A buffer, and the source of its pipe, which goes on when the buffer is gone. -/
structure State where
  fds : PipeOwner := {}
  /-- What `pipe2` has given, `none` if it has failed, once `Init` has been called. -/
  pipe2 : Option (Option (Nat × Nat)) := none
  /-- The destructor has written to the pipe. -/
  readable : Bool := false
  /-- The callback of the source has run. -/
  released : Bool := false
  deriving DecidableEq, Repr

inductive Label where
  | init (pipe2 : Option (Nat × Nat))
  | destroy
  | callback
  deriving DecidableEq, Repr

namespace State

def init (s : State) : Option (Nat × Nat) → State
  | none => { s with pipe2 := some none }
  | some (reader, writer) =>
    { s with fds := (s.fds.create reader writer).addFd, pipe2 := some (some (reader, writer)) }

def destroy (s : State) : State :=
  if s.fds.pipe.2 ≠ 0 then { s with fds := (s.fds.write 1).leave, readable := true }
  else { s with fds := s.fds.leave }

/-- `on_release` is called first, and does nothing to the descriptors. -/
def callback (s : State) : State := { s with fds := s.fds.close.removeFd, released := true }

def step (s : State) : Label → Option State
  | .init pipe2 => if s.fds.gone = false ∧ s.pipe2 = none then some (s.init pipe2) else none
  | .destroy => if s.fds.gone = false then some s.destroy else none
  | .callback =>
    if s.fds.source.isSome ∧ s.readable ∧ s.released = false then some s.callback else none

end State

def machine : Machine State Label := ⟨{}, State.step⟩

variable {s s' : State}

structure Sound (s : State) : Prop where
  fresh : s.pipe2 = none → s.fds.Unused ∧ s.released = false
  held : s.released = false → s.fds.Unused ∨ ∃ reader, s.fds.Registered reader
  lost : s.released = true → ∃ reader, s.fds.Lost reader

theorem Sound.destroy (h : Sound s) : Sound s.destroy := by
  obtain ⟨hfresh, hheld, hlost⟩ := h
  unfold State.destroy
  split
  · refine ⟨fun hfirst => ?_, fun hreleased => ?_, fun hreleased => ?_⟩
    · exact ⟨((hfresh hfirst).1.write 1).leave, (hfresh hfirst).2⟩
    · exact (hheld hreleased).imp (fun h => (h.write 1).leave)
        (Exists.imp fun _ h => (h.write 1).leave)
    · exact (hlost hreleased).imp fun _ h => (h.write 1).leave
  · refine ⟨fun hfirst => ?_, fun hreleased => ?_, fun hreleased => ?_⟩
    · exact ⟨(hfresh hfirst).1.leave, (hfresh hfirst).2⟩
    · exact (hheld hreleased).imp (fun h => h.leave) (Exists.imp fun _ h => h.leave)
    · exact (hlost hreleased).imp fun _ h => h.leave

theorem Sound.step (h : Sound s) {l : Label} (hstep : s.step l = some s') : Sound s' := by
  cases l with
  | init pipe2 =>
    obtain ⟨⟨-, hfirst⟩, hs'⟩ := Option.ite_none_right_eq_some.mp hstep
    cases hs'
    obtain ⟨hunused, hreleased⟩ := h.fresh hfirst
    cases pipe2 with
    | none => exact ⟨nofun, h.held, h.lost⟩
    | some pipe =>
      refine ⟨nofun, fun _ => .inr ⟨pipe.1, ?_⟩, fun hreleased' => ?_⟩
      · exact PipeOwner.registered_create (hunused.unclosed pipe.1)
      · exact absurd (hreleased.symm.trans hreleased') nofun
  | destroy =>
    obtain ⟨-, hs'⟩ := Option.ite_none_right_eq_some.mp hstep
    cases hs'
    exact h.destroy
  | callback =>
    obtain ⟨⟨hsource, hreadable, hreleased⟩, hs'⟩ := Option.ite_none_right_eq_some.mp hstep
    cases hs'
    refine ⟨fun hfirst => ?_, nofun, fun _ => ?_⟩
    · rw [(h.fresh hfirst).1.source] at hsource
      cases hsource
    · obtain hunused | ⟨reader, hregistered⟩ := h.held hreleased
      · rw [hunused.source] at hsource
        cases hsource
      · exact ⟨reader, hregistered.close_removeFd⟩

/-- The callback closes the read end and has the loop forget it then. -/
theorem disciplined_iff {ls : List Label} (hrun : machine.run ls = some s) :
    (s.released = true → Disciplined s.fds.events) ↔ s.released = false := by
  have hinit : Sound machine.init :=
    ⟨fun _ => ⟨PipeOwner.unused_init, rfl⟩, fun _ => .inl PipeOwner.unused_init, nofun⟩
  have hsound : Sound s := Machine.run_invariant hinit (fun _ _ _ h hstep => h.step hstep) hrun
  cases hreleased : s.released with
  | false => exact iff_of_true nofun rfl
  | true =>
    obtain ⟨reader, hlost⟩ := hsound.lost hreleased
    exact iff_of_false (fun h => hlost.not_disciplined (h rfl)) nofun

end Buffer

-- ---------------------------------------------------------------------------
-- Peers
-- ---------------------------------------------------------------------------

namespace PeerManager

/-- The manager, and what its peers have done with their timers. A timer goes by the id of
its peer. -/
structure Timers where
  manager : PeerManager := {}
  events : List (Event Nat) := []

namespace Timers

/-- The peers whose `Init` has created a timer. -/
def created (m m' : PeerManager) : List Nat := m'.made.keys.filter (· ∉ m.made)

/-- The peers to which no pointer is left. -/
def destroyed (m m' : PeerManager) : List Nat :=
  m'.made.keys.filter fun id => (id ∉ m.made ∨ m.refersTo id) ∧ ¬ m'.refersTo id

/-- `~Peer` only has the loop forget the source of the timer. -/
def step (s : Timers) (l : Label) : Option Timers :=
  (s.manager.step l).map fun m =>
    { manager := m
      events := s.events ++ (created s.manager m).map .opened ++ (destroyed s.manager m).map .removed }

def machine : Machine Timers Label := ⟨{}, step⟩

variable {s s' : Timers}

/-- The timer of every peer that is gone has been closed. -/
def KeepsTimers (s : Timers) : Prop :=
  ∀ id, .opened id ∈ s.events → s.manager.refersTo id = false → Kept id s.events

theorem not_closed_step {id : Nat} (h : .closed id ∉ s.events) {l : Label} (hstep : step s l = some s') :
    .closed id ∉ s'.events := by
  obtain ⟨m, -, rfl⟩ := Option.map_eq_some_iff.mp hstep
  simpa using h

/-- No timer is ever closed. -/
theorem keepsTimers_iff {ls : List Label} (hrun : machine.run ls = some s) :
    KeepsTimers s ↔ ∀ id, .opened id ∈ s.events → s.manager.refersTo id = true := by
  have hclosed : ∀ id, .closed id ∉ s.events := fun id =>
    Machine.run_invariant (I := fun s => .closed id ∉ s.events) List.not_mem_nil
      (fun _ _ _ h hstep => not_closed_step h hstep) hrun
  refine forall_congr' fun id => forall_congr' fun _ => ?_
  have hnot : ¬ Kept id s.events := Descriptors.not_kept_of_not_closed (hclosed id)
  cases s.manager.refersTo id with
  | true => exact iff_of_true nofun rfl
  | false => exact iff_of_false (fun h => hnot (h rfl)) nofun

end Timers

end PeerManager

-- ---------------------------------------------------------------------------
-- All lifetimes
-- ---------------------------------------------------------------------------

/-- Which lifetimes keep the discipline: of sessions and notifiers that are gone, of buffers
that have been released, and of the peers that are gone. -/
theorem closesDescriptors_iff (capacity : Nat) :
    (∀ ls s, (Session.Life.machine capacity).run ls = some s → s.fds.gone = true →
        (Disciplined s.fds.events ↔ Session.Life.NoPipeLeft s.outcome)) ∧
      (∀ ls s, LoopNotifier.machine.run ls = some s → s.fds.gone = true →
        (Disciplined s.fds.events ↔ s.reader = none)) ∧
      (∀ ls s, Buffer.machine.run ls = some s →
        ((s.released = true → Disciplined s.fds.events) ↔ s.released = false)) ∧
      ∀ ls s, PeerManager.Timers.machine.run ls = some s →
        (s.KeepsTimers ↔ ∀ id, .opened id ∈ s.events → s.manager.refersTo id = true) :=
  ⟨fun _ _ hrun hgone => Session.Life.disciplined_iff hrun hgone,
    fun _ _ hrun hgone => LoopNotifier.disciplined_iff hrun hgone,
    fun _ _ hrun => Buffer.disciplined_iff hrun, fun _ _ hrun => PeerManager.Timers.keepsTimers_iff hrun⟩

/-- `New` fails for a session whose pipe is read at the descriptor 0, `pipe2` fails for a
notifier, the loop has not called back for a buffer, and a user holds a peer that is lost. -/
theorem closesDescriptors_unnoticed :
    (∃ s, (Session.Life.machine 1).run [.connect (.newFails 0 3), .destroy] = some s ∧
      Disciplined s.fds.events) ∧
    (∃ s, LoopNotifier.machine.run [.init none, .notify, .destroy] = some s ∧
      Disciplined s.fds.events) ∧
    (∃ s, Buffer.machine.run [.init (some (3, 4)), .destroy] = some s ∧
      (s.released = true → Disciplined s.fds.events)) ∧
    ∃ s, PeerManager.Timers.machine.run [.portForwardedPeerProbe true true true, .get 0, .timer 0] =
      some s ∧ s.KeepsTimers := by
  obtain ⟨hsession, hnotifier, hbuffer, hpeers⟩ := closesDescriptors_iff 1
  refine ⟨?_, ?_, ?_, ?_⟩
  · exact ⟨_, rfl, (hsession [.connect (.newFails 0 3), .destroy] _ rfl rfl).mpr rfl⟩
  · exact ⟨_, rfl, (hnotifier [.init none, .notify, .destroy] _ rfl rfl).mpr rfl⟩
  · exact ⟨_, rfl, (hbuffer [.init (some (3, 4)), .destroy] _ rfl).mpr rfl⟩
  · obtain ⟨s, hs, hevents, hheld⟩ : ∃ s,
        PeerManager.Timers.machine.run [.portForwardedPeerProbe true true true, .get 0, .timer 0] = some s ∧
          s.events = [.opened 0] ∧ s.manager.refersTo 0 = true := ⟨_, rfl, rfl, rfl⟩
    refine ⟨s, hs, (hpeers _ s hs).mpr fun id hopened => ?_⟩
    rw [hevents] at hopened
    cases List.mem_singleton.mp hopened
    exact hheld

/-- A session connects and is destroyed. -/
def connectedAndDestroyed : List Session.Life.Label :=
  [.connect (.succeeds 3 4), .session .destroy, .session .disableNext, .session .disable,
    .session (.channel 0 (.work .terminateNotify)), .session (.channel 0 (.work .wake)),
    .session (.channel 0 (.work .join)), .session .disabled, .session .disableNext, .session .disable,
    .session .disabled, .session .disableNext, .destroy]

/-- `New` fails for a session, another one connects, a notifier is destroyed, a buffer is
released, and a peer expires that no user holds. -/
theorem not_closesDescriptors :
    (∃ s, (Session.Life.machine 1).run [.connect (.newFails 3 4), .destroy] = some s ∧
      s.fds.gone = true ∧ ¬ Disciplined s.fds.events) ∧
    (∃ s, (Session.Life.machine 1).run connectedAndDestroyed = some s ∧ s.fds.gone = true ∧
      ¬ Disciplined s.fds.events) ∧
    (∃ s, LoopNotifier.machine.run [.init (some (3, 4)), .notify, .destroy] = some s ∧
      s.fds.gone = true ∧ ¬ Disciplined s.fds.events) ∧
    (∃ s, Buffer.machine.run [.init (some (3, 4)), .destroy, .callback] = some s ∧
      s.released = true ∧ ¬ Disciplined s.fds.events) ∧
    ∃ s, PeerManager.Timers.machine.run [.portForwardedPeerProbe true true true, .timer 0] = some s ∧
      ¬ s.KeepsTimers := by
  refine ⟨?_, ?_, ?_, ?_, ?_⟩
  · obtain ⟨s, hs, hgone, houtcome⟩ : ∃ s,
        (Session.Life.machine 1).run [.connect (.newFails 3 4), .destroy] = some s ∧ s.fds.gone = true ∧
          s.outcome = some (.newFails 3 4) := ⟨_, rfl, rfl, rfl⟩
    refine ⟨s, hs, hgone, fun h => ?_⟩
    have hzero := (Session.Life.disciplined_iff hs hgone).mp h
    rw [houtcome] at hzero
    exact absurd (show 3 = 0 from hzero) (by decide)
  · obtain ⟨s, hs, hgone, houtcome⟩ : ∃ s,
        (Session.Life.machine 1).run connectedAndDestroyed = some s ∧ s.fds.gone = true ∧
          s.outcome = some (.succeeds 3 4) := ⟨_, rfl, rfl, rfl⟩
    refine ⟨s, hs, hgone, fun h => ?_⟩
    have hnone := (Session.Life.disciplined_iff hs hgone).mp h
    rw [houtcome] at hnone
    exact hnone
  · obtain ⟨s, hs, hgone, hreader⟩ : ∃ s,
        LoopNotifier.machine.run [.init (some (3, 4)), .notify, .destroy] = some s ∧ s.fds.gone = true ∧
          s.reader = some 3 := ⟨_, rfl, rfl, rfl⟩
    refine ⟨s, hs, hgone, fun h => ?_⟩
    have hnone := (LoopNotifier.disciplined_iff hs hgone).mp h
    rw [hreader] at hnone
    cases hnone
  · obtain ⟨s, hs, hreleased⟩ : ∃ s,
        Buffer.machine.run [.init (some (3, 4)), .destroy, .callback] = some s ∧ s.released = true :=
      ⟨_, rfl, rfl⟩
    refine ⟨s, hs, hreleased, fun h => ?_⟩
    have hheld := (Buffer.disciplined_iff hs).mp fun _ => h
    rw [hreleased] at hheld
    cases hheld
  · obtain ⟨s, hs, hevents, hgone⟩ : ∃ s,
        PeerManager.Timers.machine.run [.portForwardedPeerProbe true true true, .timer 0] = some s ∧
          s.events = [.opened 0, .removed 0] ∧ s.manager.refersTo 0 = false := ⟨_, rfl, rfl, rfl⟩
    refine ⟨s, hs, fun h => ?_⟩
    have hheld := (PeerManager.Timers.keepsTimers_iff hs).mp h 0 (by rw [hevents]; exact List.mem_cons_self)
    rw [hgone] at hheld
    cases hheld

end ZenRemote.Server
