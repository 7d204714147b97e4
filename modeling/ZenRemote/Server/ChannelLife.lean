-- SUMMARY: The life of a server channel: who holds references to it, who tears it down, and that its buffers are released.
import ZenRemote.Server.ChannelWork

/-!
# The life of a channel

Users own a channel. Everything else only locks a weak pointer for a while: an API call
around its push, the worker inside the closure of a job, the completion of a call, and the
session's loop when it disables its channels. Whoever drops the last reference runs the
destructor, which joins the worker.
-/

namespace ZenRemote.Server

namespace ChannelLife

/-- How far the session's loop is in disabling this channel. -/
inductive Disabler where
  | absent
  | locked
  /-- In `Disable`, past the section of `JobQueue::Terminate`. -/
  | disabling
  | done
  deriving DecidableEq, Repr

def Disabler.isHolding : Disabler → Bool
  | .absent => false
  | .locked | .disabling | .done => true

inductive Life where
  | alive
  /-- The last reference has been dropped, and `~Channel` runs. -/
  | destructing
  | destroyed
  /-- The worker runs `~Channel` and joins itself, which ends the process. -/
  | crashed
  deriving DecidableEq, Repr

inductive Party where
  | user
  | apiCall
  | completion
  | loop
  | worker
  deriving DecidableEq, Repr

structure State where
  work : ChannelWork := {}
  users : Nat := 1
  /-- The number of API calls that are about to drop their reference. -/
  leaving : Nat := 0
  /-- The number of completions that are about to notify the session. -/
  notifying : Nat := 0
  leavingCompletions : Nat := 0
  disabler : Disabler := .absent
  life : Life := .alive
  /-- Who has dropped the last reference. -/
  lastDropper : Option Party := none
  /-- The number of calls that have been started and are not completed. -/
  calls : Nat := 0
  /-- The number of messages written to the control pipe. -/
  written : Nat := 0
  deriving DecidableEq, Repr

inductive Label where
  | work (l : ChannelWork.Label)
  | leave
  | userCopy
  | userDrop
  /-- A call completes; `failed` tells whether its callback locks the channel. -/
  | complete (failed : Bool)
  | notifyDisconnection
  | leaveCompletion
  | disablerLock
  | disable
  | disablerDrop
  /-- `~Channel` enters `Disable`, or finds the channel disabled. -/
  | destruct
  deriving DecidableEq, Repr

/-- A step that follows by itself once its thread is at it. -/
def Label.isInternal : Label → Bool
  | .work l => l.isInternal
  | .userCopy | .userDrop | .complete _ | .disablerLock => false
  | .leave | .notifyDisconnection | .leaveCompletion | .disable | .disablerDrop | .destruct => true

namespace State

/-- The references that are not the worker's. -/
def others (s : State) : Nat :=
  s.users + s.leaving + s.notifying + s.leavingCompletions +
    s.disabler.isHolding.toNat + s.work.borrowed

def strong (s : State) : Nat := s.others + s.work.progress.isHolding.toNat

/-- `enabled_`. It changes while `Disable` holds the mutex. -/
def enabled (s : State) : Bool := s.work.jobs.terminator ≠ .returned

/-- Some thread is in `Disable`, and holds `mtx_`. -/
def isDisabling (s : State) : Bool :=
  s.work.jobs.terminator = .notifying || s.work.jobs.terminator = .joining

/-- A reference has been dropped. -/
def dropped (s : State) (party : Party) : State :=
  if s.strong = 0 then
    { s with
      lastDropper := some party
      life := if party = .worker then .crashed else .destructing }
  else s

/-- What a step of the work means to the references. -/
def worked (s : State) (l : ChannelWork.Label) (work : ChannelWork) : State :=
  match l with
  | .notify | .performInline _ => { s with work, leaving := s.leaving + 1 }
  | .pushCaller => { s with work, calls := s.calls + 1 }
  | .leave => { s with work }.dropped .worker
  | .join =>
    if s.disabler = .disabling then { s with work, disabler := .done }
    else { s with work, life := .destroyed }
  | _ => { s with work }

def step (s : State) (l : Label) : Option State :=
  if s.life = .crashed then none
  else
    match l with
    | .work l => (s.work.step (0 < s.strong) l).map (s.worked l)
    | .leave =>
      if 0 < s.leaving then some ({ s with leaving := s.leaving - 1 }.dropped .apiCall) else none
    | .userCopy => if 0 < s.users then some { s with users := s.users + 1 } else none
    | .userDrop =>
      if 0 < s.users then some ({ s with users := s.users - 1 }.dropped .user) else none
    | .complete failed =>
      if 0 < s.calls then
        some { s with
          calls := s.calls - 1
          notifying := s.notifying + (failed && decide (0 < s.strong)).toNat }
      else none
    | .notifyDisconnection =>
      if 0 < s.notifying ∧ ¬ s.isDisabling then
        some { s with
          notifying := s.notifying - 1
          leavingCompletions := s.leavingCompletions + 1
          written := s.written + s.enabled.toNat }
      else none
    | .leaveCompletion =>
      if 0 < s.leavingCompletions then
        some ({ s with leavingCompletions := s.leavingCompletions - 1 }.dropped .completion)
      else none
    | .disablerLock =>
      if s.disabler = .absent ∧ 0 < s.strong then some { s with disabler := .locked } else none
    | .disable =>
      if s.disabler = .locked ∧ ¬ s.isDisabling then
        if s.enabled then some { s with work := s.work.terminate, disabler := .disabling }
        else some { s with disabler := .done }
      else none
    | .disablerDrop =>
      if s.disabler = .done then some ({ s with disabler := .absent }.dropped .loop) else none
    | .destruct =>
      if s.life = .destructing ∧ ¬ s.isDisabling then
        if s.enabled then some { s with work := s.work.terminate } else some { s with life := .destroyed }
      else none

/-- Every thread is at rest, but for the worker in its wait. -/
def Quiet (s : State) : Prop := ∀ l : Label, l.isInternal → s.step l = none

end State

/-- Starts with the one reference that `CreateChannel` returns. -/
def machine : Machine State Label where
  init := {}
  step := State.step

-- ---------------------------------------------------------------------------
-- References
-- ---------------------------------------------------------------------------

variable {s s' : State}

/-- The states that a step can lead to. -/
inductive Stepped (s : State) : Label → State → Prop
  | work (l : ChannelWork.Label) {work : ChannelWork} (hwork : s.work.step (0 < s.strong) l = some work) :
      Stepped s (.work l) (s.worked l work)
  | leave (hsome : 0 < s.leaving) :
      Stepped s .leave ({ s with leaving := s.leaving - 1 }.dropped .apiCall)
  | userCopy (hsome : 0 < s.users) : Stepped s .userCopy { s with users := s.users + 1 }
  | userDrop (hsome : 0 < s.users) :
      Stepped s .userDrop ({ s with users := s.users - 1 }.dropped .user)
  | complete (failed : Bool) (hsome : 0 < s.calls) :
      Stepped s (.complete failed)
        { s with
          calls := s.calls - 1
          notifying := s.notifying + (failed && decide (0 < s.strong)).toNat }
  | notifyDisconnection (hsome : 0 < s.notifying) (hfree : ¬ s.isDisabling) :
      Stepped s .notifyDisconnection
        { s with
          notifying := s.notifying - 1
          leavingCompletions := s.leavingCompletions + 1
          written := s.written + s.enabled.toNat }
  | leaveCompletion (hsome : 0 < s.leavingCompletions) :
      Stepped s .leaveCompletion
        ({ s with leavingCompletions := s.leavingCompletions - 1 }.dropped .completion)
  | disablerLock (habsent : s.disabler = .absent) (hpos : 0 < s.strong) :
      Stepped s .disablerLock { s with disabler := .locked }
  | disable (hlocked : s.disabler = .locked) (hfree : ¬ s.isDisabling) (henabled : s.enabled) :
      Stepped s .disable { s with work := s.work.terminate, disabler := .disabling }
  | disableDisabled (hlocked : s.disabler = .locked) (hfree : ¬ s.isDisabling)
      (hdisabled : s.enabled = false) : Stepped s .disable { s with disabler := .done }
  | disablerDrop (hdone : s.disabler = .done) :
      Stepped s .disablerDrop ({ s with disabler := .absent }.dropped .loop)
  | destruct (hlife : s.life = .destructing) (hfree : ¬ s.isDisabling) (henabled : s.enabled) :
      Stepped s .destruct { s with work := s.work.terminate }
  | destructDisabled (hlife : s.life = .destructing) (hfree : ¬ s.isDisabling)
      (hdisabled : s.enabled = false) : Stepped s .destruct { s with life := .destroyed }

theorem stepped_of_step {l : Label} (hstep : s.step l = some s') : s.life ≠ .crashed ∧ Stepped s l s' := by
  obtain ⟨hrunning, hstep⟩ := Option.ite_none_left_eq_some.mp hstep
  refine ⟨hrunning, ?_⟩
  cases l with
  | work l =>
    obtain ⟨work, hwork, rfl⟩ := Option.map_eq_some_iff.mp hstep
    exact .work l hwork
  | leave =>
    obtain ⟨hsome, hs'⟩ := Option.ite_none_right_eq_some.mp hstep
    exact Option.some.inj hs' ▸ .leave hsome
  | userCopy =>
    obtain ⟨hsome, hs'⟩ := Option.ite_none_right_eq_some.mp hstep
    exact Option.some.inj hs' ▸ .userCopy hsome
  | userDrop =>
    obtain ⟨hsome, hs'⟩ := Option.ite_none_right_eq_some.mp hstep
    exact Option.some.inj hs' ▸ .userDrop hsome
  | complete failed =>
    obtain ⟨hsome, hs'⟩ := Option.ite_none_right_eq_some.mp hstep
    exact Option.some.inj hs' ▸ .complete failed hsome
  | notifyDisconnection =>
    obtain ⟨⟨hsome, hfree⟩, hs'⟩ := Option.ite_none_right_eq_some.mp hstep
    exact Option.some.inj hs' ▸ .notifyDisconnection hsome hfree
  | leaveCompletion =>
    obtain ⟨hsome, hs'⟩ := Option.ite_none_right_eq_some.mp hstep
    exact Option.some.inj hs' ▸ .leaveCompletion hsome
  | disablerLock =>
    obtain ⟨⟨habsent, hpos⟩, hs'⟩ := Option.ite_none_right_eq_some.mp hstep
    exact Option.some.inj hs' ▸ .disablerLock habsent hpos
  | disable =>
    obtain ⟨⟨hlocked, hfree⟩, hs'⟩ := Option.ite_none_right_eq_some.mp hstep
    split at hs'
    · next henabled => exact Option.some.inj hs' ▸ .disable hlocked hfree henabled
    · next hdisabled =>
      exact Option.some.inj hs' ▸ .disableDisabled hlocked hfree ((Bool.not_eq_true _).mp hdisabled)
  | disablerDrop =>
    obtain ⟨hdone, hs'⟩ := Option.ite_none_right_eq_some.mp hstep
    exact Option.some.inj hs' ▸ .disablerDrop hdone
  | destruct =>
    obtain ⟨⟨hlife, hfree⟩, hs'⟩ := Option.ite_none_right_eq_some.mp hstep
    split at hs'
    · next henabled => exact Option.some.inj hs' ▸ .destruct hlife hfree henabled
    · next hdisabled =>
      exact Option.some.inj hs' ▸ .destructDisabled hlife hfree ((Bool.not_eq_true _).mp hdisabled)

/-- A reference that is not the worker's is not the last one while the worker holds another. -/
def Attended (s : State) : Label → Prop
  | .leave | .userDrop | .leaveCompletion | .disablerDrop => s.work.progress.isHolding → 1 < s.others
  | _ => True

/-- The channel lives as long as it is referred to, and whoever is in `Disable` is the loop or
the destructor. -/
structure Counted (s : State) : Prop where
  work : s.work.Invariant
  alive : s.life = .alive ↔ 0 < s.strong
  disabling : s.isDisabling → s.disabler = .disabling ∨ s.life ≠ .alive

/-- `t` comes from `s` without the loss of a reference. -/
structure Kept (s t : State) : Prop where
  work : t.work.Invariant
  others : s.others ≤ t.others
  holding : s.work.progress.isHolding → t.work.progress.isHolding
  strong : 0 < t.strong → 0 < s.strong
  alive : t.life = .alive ↔ s.life = .alive
  running : t.life ≠ .crashed
  lastDropper : t.lastDropper = s.lastDropper
  disabling : t.isDisabling → t.disabler = .disabling ∨ t.life ≠ .alive

/-- `t` is `s` without a reference that `party` has held. -/
structure Left (s t : State) (party : Party) : Prop where
  work : t.work.Invariant
  strong : t.strong + 1 = s.strong
  others : if party = .worker then t.others = s.others
    else t.others + 1 = s.others ∧ t.work.progress = s.work.progress
  life : t.life = s.life
  lastDropper : t.lastDropper = s.lastDropper
  disabling : t.isDisabling → t.disabler = .disabling ∨ t.life ≠ .alive

theorem others_worked {l : ChannelWork.Label} {work : ChannelWork} (hl : l ≠ .leave)
    (hstep : s.work.step (0 < s.strong) l = some work) :
    (s.worked l work).others = s.others + l.taken (0 < s.strong) := by
  have hborrowed := ChannelWork.borrowed_step hstep
  cases l with
  | leave => exact absurd rfl hl
  | notify | performInline job =>
    simp only [State.worked, State.others, ChannelWork.Label.given] at hborrowed ⊢
    omega
  | join =>
    simp only [State.worked, State.others, ChannelWork.Label.given] at hborrowed ⊢
    split
    · rename_i hdisabling
      simp only [hdisabling, Disabler.isHolding]
      omega
    · dsimp only
      omega
  | _ =>
    simp only [State.worked, State.others, ChannelWork.Label.given] at hborrowed ⊢
    omega

/-- A drop changes nothing but the life of the channel. -/
theorem dropped_eq (s : State) (party : Party) :
    ∃ life lastDropper, s.dropped party = { s with life, lastDropper } := by
  unfold State.dropped
  split
  · exact ⟨_, _, rfl⟩
  · exact ⟨_, _, rfl⟩

@[simp] theorem dropped_work (party : Party) : (s.dropped party).work = s.work := by
  obtain ⟨_, _, hdropped⟩ := dropped_eq s party
  rw [hdropped]

@[simp] theorem dropped_users (party : Party) : (s.dropped party).users = s.users := by
  obtain ⟨_, _, hdropped⟩ := dropped_eq s party
  rw [hdropped]

@[simp] theorem dropped_disabler (party : Party) : (s.dropped party).disabler = s.disabler := by
  obtain ⟨_, _, hdropped⟩ := dropped_eq s party
  rw [hdropped]

@[simp] theorem dropped_written (party : Party) : (s.dropped party).written = s.written := by
  obtain ⟨_, _, hdropped⟩ := dropped_eq s party
  rw [hdropped]

/-- A step of the work changes nothing but the life of the channel and what the disabler does. -/
theorem worked_frame (s : State) (l : ChannelWork.Label) (work : ChannelWork) :
    (s.worked l work).work = work ∧ (s.worked l work).written = s.written ∧
      (s.worked l work).users = s.users := by
  cases l with
  | leave => exact ⟨dropped_work _, dropped_written _, dropped_users _⟩
  | join =>
    unfold State.worked
    dsimp only
    split
    · exact ⟨rfl, rfl, rfl⟩
    · exact ⟨rfl, rfl, rfl⟩
  | _ => exact ⟨rfl, rfl, rfl⟩

@[simp] theorem worked_work (l : ChannelWork.Label) (work : ChannelWork) : (s.worked l work).work = work :=
  (worked_frame s l work).1

@[simp] theorem worked_written (l : ChannelWork.Label) (work : ChannelWork) :
    (s.worked l work).written = s.written :=
  (worked_frame s l work).2.1

@[simp] theorem worked_users (l : ChannelWork.Label) (work : ChannelWork) :
    (s.worked l work).users = s.users :=
  (worked_frame s l work).2.2

/-- A step of the work other than the return of the worker's closure. -/
theorem Counted.kept_worked (h : Counted s) {l : ChannelWork.Label} {work : ChannelWork} (hl : l ≠ .leave)
    (hrunning : s.life ≠ .crashed) (hstep : s.work.step (0 < s.strong) l = some work) :
    Kept s (s.worked l work) := by
  have hwork := h.work.step hstep
  have hothers := others_worked hl hstep
  have hstrong : 0 < (s.worked l work).strong → 0 < s.strong := by
    intro hpos
    by_contra hgone
    have hnone : s.others = 0 ∧ s.work.progress.isHolding.toNat = 0 := by
      unfold State.strong at hgone
      omega
    have htaken : l.taken (0 < s.strong) = 0 := by
      cases l <;> simp [ChannelWork.Label.taken, hgone]
    have hheld : work.progress.isHolding = false := by
      by_contra hheld
      rw [Bool.not_eq_false] at hheld
      obtain hheld | halive := ChannelWork.holding_step hstep hheld
      · simp [hheld] at hnone
      · exact hgone (of_decide_eq_true halive)
    rw [State.strong, hothers, htaken, hnone.1, worked_work, hheld] at hpos
    exact absurd hpos (Nat.lt_irrefl 0)
  -- A thread stays in `Disable`, except for the end of the join.
  have hdisabling : l ≠ .join → ({ s with work } : State).isDisabling →
      s.disabler = .disabling ∨ s.life ≠ .alive := by
    intro hl hterminator
    refine h.disabling ?_
    unfold State.isDisabling at hterminator ⊢
    obtain hsame | ⟨hnotifying, -⟩ | ⟨rfl, -⟩ := ChannelWork.terminator_step hstep
    · rw [hsame] at hterminator
      exact hterminator
    · simp [hnotifying]
    · exact absurd rfl hl
  have hle : s.others ≤ (s.worked l work).others := hothers ▸ Nat.le_add_right _ _
  have hholding := h.work.holding_kept hl hstep
  cases ChannelWork.step_cases hstep with
  | leave _ _ => exact absurd rfl hl
  | join _ hjoining _ =>
    have hbefore := h.disabling (by simp [State.isDisabling, hjoining])
    unfold State.worked at hle hstrong ⊢
    dsimp only at hle hstrong ⊢
    split
    · rename_i hdisabler
      rw [if_pos hdisabler] at hle hstrong
      exact ⟨hwork, hle, hholding, hstrong, Iff.rfl, hrunning, rfl, by simp [State.isDisabling]⟩
    · rename_i hdisabler
      rw [if_neg hdisabler] at hle hstrong
      have hlife := hbefore.resolve_left hdisabler
      exact ⟨hwork, hle, hholding, hstrong, by simp [hlife], by simp, rfl, by simp [State.isDisabling]⟩
  | _ => exact ⟨hwork, hle, hholding, hstrong, Iff.rfl, hrunning, rfl, hdisabling (by simp)⟩

/-- The return of the worker's closure. -/
theorem Counted.left_worked (h : Counted s) {work : ChannelWork}
    (hstep : s.work.step (0 < s.strong) .leave = some work) : Left s { s with work } .worker := by
  have hwork := h.work.step hstep
  obtain ⟨-, hheld, rfl⟩ := ChannelWork.leave_eq_some hstep
  refine ⟨hwork, ?_, rfl, rfl, rfl, h.disabling⟩
  rw [State.strong, State.strong, hheld]
  rfl

/-- A party other than the worker gives its reference back. -/
theorem Counted.left_of_others (h : Counted s) {t : State} {party : Party} (hparty : party ≠ .worker)
    (hwork : t.work = s.work) (hothers : t.others + 1 = s.others) (hlife : t.life = s.life)
    (hlastDropper : t.lastDropper = s.lastDropper)
    (hdisabling : t.isDisabling → t.disabler = .disabling ∨ t.life ≠ .alive) : Left s t party where
  work := hwork ▸ h.work
  strong := by
    rw [State.strong, State.strong, hwork, ← hothers]
    omega
  others := by
    rw [if_neg hparty]
    exact ⟨hothers, congrArg ChannelWork.progress hwork⟩
  life := hlife
  lastDropper := hlastDropper
  disabling := hdisabling

/-- A step takes references and keeps those there are, or it drops one. -/
theorem Counted.step_cases (h : Counted s) {l : Label} (hstep : s.step l = some s') :
    Kept s s' ∨ ∃ t party, Left s t party ∧ s' = t.dropped party ∧
      (party ≠ .worker → Attended s l → s.work.progress.isHolding → 1 < s.others) := by
  obtain ⟨hrunning, hstepped⟩ := stepped_of_step hstep
  cases hstepped with
  | work l hwork =>
    by_cases hl : l = .leave
    · subst hl
      exact .inr ⟨_, _, h.left_worked hwork, rfl, fun hparty => absurd rfl hparty⟩
    · exact .inl (h.kept_worked hl hrunning hwork)
  | leave hsome =>
    refine .inr ⟨{ s with leaving := s.leaving - 1 }, .apiCall,
      h.left_of_others nofun rfl ?_ rfl rfl h.disabling, rfl, fun _ => id⟩
    simp only [State.others]
    omega
  | userCopy hsome =>
    refine .inl ⟨h.work, ?_, id, fun _ => ?_, Iff.rfl, hrunning, rfl, h.disabling⟩
    · simp only [State.others]
      omega
    · simp only [State.strong, State.others]
      omega
  | userDrop hsome =>
    refine .inr ⟨{ s with users := s.users - 1 }, .user,
      h.left_of_others nofun rfl ?_ rfl rfl h.disabling, rfl, fun _ => id⟩
    simp only [State.others]
    omega
  | complete failed hsome =>
    refine .inl ⟨h.work, ?_, id, fun hpos => ?_, Iff.rfl, hrunning, rfl, h.disabling⟩
    · simp only [State.others]
      omega
    · by_contra hgone
      rw [decide_eq_false hgone, Bool.and_false, Bool.toNat_false, Nat.add_zero] at hpos
      exact hgone hpos
  | notifyDisconnection hsome hfree =>
    refine .inl ⟨h.work, ?_, id, fun _ => ?_, Iff.rfl, hrunning, rfl, h.disabling⟩
    · simp only [State.others]
      omega
    · simp only [State.strong, State.others]
      omega
  | leaveCompletion hsome =>
    refine .inr ⟨{ s with leavingCompletions := s.leavingCompletions - 1 }, .completion,
      h.left_of_others nofun rfl ?_ rfl rfl h.disabling, rfl, fun _ => id⟩
    simp only [State.others]
    omega
  | disablerLock habsent hpos =>
    refine .inl ⟨h.work, ?_, id, fun _ => hpos, Iff.rfl, hrunning, rfl, fun hdisabling => ?_⟩
    · simp [State.others, habsent, Disabler.isHolding]
    · exact .inr ((h.disabling hdisabling).resolve_left (by simp [habsent]))
  | disable hlocked hfree henabled =>
    refine .inl ⟨h.work.terminate, ?_, id, ?_, Iff.rfl, hrunning, rfl, fun _ => .inl rfl⟩
    · simp [State.others, hlocked, Disabler.isHolding]
    · simp [State.strong, State.others, hlocked, Disabler.isHolding]
  | disableDisabled hlocked hfree hdisabled =>
    refine .inl ⟨h.work, ?_, id, ?_, Iff.rfl, hrunning, rfl, fun hdisabling => absurd hdisabling hfree⟩
    · simp [State.others, hlocked, Disabler.isHolding]
    · simp [State.strong, State.others, hlocked, Disabler.isHolding]
  | disablerDrop hdone =>
    refine .inr ⟨{ s with disabler := .absent }, .loop,
      h.left_of_others nofun rfl ?_ rfl rfl fun hdisabling => ?_, rfl, fun _ => id⟩
    · simp only [State.others, hdone, Disabler.isHolding, Bool.toNat_true, Bool.toNat_false]
      omega
    · exact .inr ((h.disabling hdisabling).resolve_left (by simp [hdone]))
  | destruct hlife hfree henabled =>
    refine .inl ⟨h.work.terminate, ?_, id, ?_, Iff.rfl, hrunning, rfl, fun _ => .inr (by simp [hlife])⟩
    · simp [State.others]
    · simp [State.strong, State.others]
  | destructDisabled hlife hfree hdisabled =>
    exact .inl ⟨h.work, Nat.le_refl _, id, id, by simp [hlife], nofun, rfl,
      fun hdisabling => absurd hdisabling hfree⟩

theorem counted_init : Counted machine.init where
  work := ChannelWork.invariant_init
  alive := ⟨fun _ => Nat.one_pos, fun _ => rfl⟩
  disabling := nofun

theorem Counted.step (h : Counted s) {l : Label} (hstep : s.step l = some s') : Counted s' := by
  obtain hkept | ⟨t, party, hleft, rfl, -⟩ := h.step_cases hstep
  · refine ⟨hkept.work, ?_, hkept.disabling⟩
    rw [hkept.alive, h.alive]
    refine ⟨fun hpos => ?_, hkept.strong⟩
    have hothers := hkept.others
    unfold State.strong at hpos ⊢
    by_cases hheld : s.work.progress.isHolding
    · rw [hkept.holding hheld]
      exact Nat.succ_pos _
    · simp only [hheld, Bool.toNat_false] at hpos
      omega
  · by_cases hgone : t.strong = 0
    · rw [State.dropped, if_pos hgone]
      have hdead : (if party = .worker then Life.crashed else .destructing) ≠ .alive := by
        split <;> exact nofun
      exact ⟨hleft.work, ⟨fun hlife => absurd hlife hdead, fun hpos => absurd hgone (Nat.ne_of_gt hpos)⟩,
        fun _ => .inr hdead⟩
    · rw [State.dropped, if_neg hgone]
      have hstrong := hleft.strong
      refine ⟨hleft.work, ⟨fun _ => Nat.pos_of_ne_zero hgone, fun _ => ?_⟩, hleft.disabling⟩
      exact hleft.life.trans (h.alive.mpr (by omega))

-- ---------------------------------------------------------------------------
-- Disabled channels
-- ---------------------------------------------------------------------------

theorem enabled_eq_false : s.enabled = false ↔ s.work.jobs.terminator = .returned := by
  simp [State.enabled]

/-- A channel that has gone does not come back. -/
theorem Counted.strong_step (h : Counted s) {l : Label} (hstep : s.step l = some s') (hpos : 0 < s'.strong) :
    0 < s.strong := by
  obtain hkept | ⟨t, party, hleft, rfl, -⟩ := h.step_cases hstep
  · exact hkept.strong hpos
  · have hstrong := hleft.strong
    omega

/-- Users only go away one by one. -/
theorem users_step {l : Label} (hl : l ≠ .userDrop) (hstep : s.step l = some s') : s.users ≤ s'.users := by
  cases (stepped_of_step hstep).2 with
  | userDrop hsome => exact absurd rfl hl
  | work | leave | leaveCompletion | disablerDrop => simp
  | userCopy hsome => exact Nat.le_succ _
  | complete | notifyDisconnection | disablerLock | disable | disableDisabled | destruct
  | destructDisabled => exact Nat.le_refl _

/-- A disabled channel stays disabled. It performs no job uncancelled and does not write. -/
theorem Counted.disabled_step (h : Counted s) (hdisabled : s.enabled = false) {l : Label}
    (hstep : s.step l = some s') :
    s'.enabled = false ∧ s'.work.jobs.uncancelled = s.work.jobs.uncancelled ∧ s'.written = s.written := by
  have hreturned := enabled_eq_false.mp hdisabled
  cases (stepped_of_step hstep).2 with
  | work l hwork =>
    rw [enabled_eq_false, worked_work, worked_written]
    refine ⟨?_, h.work.uncancelled_step hreturned hwork, rfl⟩
    obtain hsame | ⟨hnotifying, -⟩ | ⟨-, hjoining, -⟩ := ChannelWork.terminator_step hwork
    · rw [hsame, hreturned]
    · simp [hreturned] at hnotifying
    · simp [hreturned] at hjoining
  | leave | userDrop | leaveCompletion | disablerDrop =>
    rw [enabled_eq_false, dropped_work, dropped_written]
    exact ⟨hreturned, rfl, rfl⟩
  | userCopy | complete | disablerLock | disableDisabled | destructDisabled =>
    exact ⟨hdisabled, rfl, rfl⟩
  | notifyDisconnection hsome hfree => exact ⟨hdisabled, rfl, by simp [hdisabled]⟩
  | disable hlocked hfree henabled => exact absurd (hdisabled.symm.trans henabled) Bool.false_ne_true
  | destruct hlife hfree henabled => exact absurd (hdisabled.symm.trans henabled) Bool.false_ne_true

/-- The loop comes back from `Disable` only when the channel is disabled. -/
structure Disabling (s : State) : Prop extends Counted s where
  done : s.disabler = .done → s.enabled = false

theorem disabling_init : Disabling machine.init where
  toCounted := counted_init
  done := nofun

theorem Disabling.step (h : Disabling s) {l : Label} (hstep : s.step l = some s') : Disabling s' := by
  refine ⟨h.toCounted.step hstep, fun hdone => ?_⟩
  by_cases hbefore : s.disabler = .done
  · exact (h.disabled_step (h.done hbefore) hstep).1
  cases (stepped_of_step hstep).2 with
  | work l hwork =>
    cases l with
    | join =>
      cases ChannelWork.step_cases hwork
      rw [enabled_eq_false, worked_work]
    | leave => exact absurd ((dropped_disabler .worker).symm.trans hdone) hbefore
    | _ => exact absurd hdone hbefore
  | leave | userDrop | leaveCompletion => exact absurd ((dropped_disabler _).symm.trans hdone) hbefore
  | userCopy | complete | notifyDisconnection | destruct | destructDisabled =>
    exact absurd hdone hbefore
  | disablerLock | disable => cases hdone
  | disableDisabled hlocked hfree hdisabled => exact hdisabled
  | disablerDrop hdone' => exact absurd hdone' hbefore

-- ---------------------------------------------------------------------------
-- Tearing down
-- ---------------------------------------------------------------------------

/-- The worker is never alone with the channel. -/
structure AttendedTo (s : State) : Prop extends Counted s where
  attended : s.work.progress.isHolding → 0 < s.others
  running : s.life ≠ .crashed
  lastDropper : s.lastDropper ≠ some .worker

theorem attendedTo_init : AttendedTo machine.init where
  toCounted := counted_init
  attended := nofun
  running := nofun
  lastDropper := nofun

theorem AttendedTo.step (h : AttendedTo s) {l : Label} (hattended : Attended s l)
    (hstep : s.step l = some s') : AttendedTo s' := by
  have hcounted := h.toCounted.step hstep
  obtain hkept | ⟨t, party, hleft, rfl, hone⟩ := h.step_cases hstep
  · refine ⟨hcounted, fun hheld => ?_, hkept.running, hkept.lastDropper ▸ h.lastDropper⟩
    have hpos := hkept.strong (Nat.add_pos_right _ (by simp [hheld]))
    have hothers := hkept.others
    unfold State.strong at hpos
    cases hbefore : s.work.progress.isHolding with
    | true => exact Nat.lt_of_lt_of_le (h.attended hbefore) hothers
    | false =>
      simp only [hbefore, Bool.toNat_false] at hpos
      omega
  · have hothers := hleft.others
    have hstrong := hleft.strong
    split at hothers
    · -- The worker leaves the others behind.
      rename_i hworker
      have hheld : s.work.progress.isHolding := by
        by_contra hfree
        rw [Bool.not_eq_true] at hfree
        simp only [State.strong, hothers, hfree, Bool.toNat_false] at hstrong
        omega
      have hpos := h.attended hheld
      have hkept : t.strong ≠ 0 := by
        unfold State.strong
        omega
      rw [State.dropped, if_neg hkept] at hcounted ⊢
      exact ⟨hcounted, fun _ => hothers ▸ hpos, hleft.life ▸ h.running, hleft.lastDropper ▸ h.lastDropper⟩
    · rename_i hparty
      obtain ⟨hothers, hprogress⟩ := hothers
      have hheld : t.work.progress.isHolding → 0 < t.others := by
        intro hheld
        have := hone hparty hattended (hprogress ▸ hheld)
        omega
      by_cases hgone : t.strong = 0
      · rw [State.dropped, if_pos hgone, if_neg hparty] at hcounted ⊢
        exact ⟨hcounted, hheld, nofun, fun heq => hparty (Option.some.inj heq)⟩
      · rw [State.dropped, if_neg hgone] at hcounted ⊢
        exact ⟨hcounted, hheld, hleft.life ▸ h.running, hleft.lastDropper ▸ h.lastDropper⟩

-- ---------------------------------------------------------------------------
-- No thread is stuck
-- ---------------------------------------------------------------------------

def Disabler.rank : Disabler → Nat
  | .absent => 0
  | .locked => 202
  | .disabling => 2
  | .done => 1

def Life.rank (terminator : JobQueue.Terminator) : Life → Nat
  | .alive => 400
  | .destructing => if terminator = .none then 300 else 1
  | .destroyed | .crashed => 0

/-- What the threads still have to do. Termination gives the worker something more to do. -/
def measure (s : State) : Nat :=
  8 * s.work.measure + s.leaving + s.leavingCompletions + 2 * s.notifying + s.disabler.rank +
    s.life.rank s.work.jobs.terminator

theorem rank_le_alive (life : Life) (terminator : JobQueue.Terminator) : life.rank terminator ≤ 400 := by
  unfold Life.rank
  split
  · exact Nat.le_refl _
  · split <;> omega
  · exact Nat.zero_le _
  · exact Nat.zero_le _

theorem measure_dropped {party : Party} (halive : s.life = .alive) :
    measure (s.dropped party) ≤ measure s := by
  unfold State.dropped
  split
  · have hrank := rank_le_alive (if party = .worker then .crashed else .destructing)
      s.work.jobs.terminator
    simp only [measure, halive] at hrank ⊢
    simp only [Life.rank] at hrank ⊢
    omega
  · exact Nat.le_refl _

theorem Counted.measure_worked (h : Counted s) {l : ChannelWork.Label} {work : ChannelWork}
    (hl : l.isInternal) (hstep : s.work.step (0 < s.strong) l = some work) :
    measure (s.worked l work) < measure s := by
  have hwork := h.work.measure_lt hl hstep
  have hrank : s.life.rank work.jobs.terminator ≤ s.life.rank s.work.jobs.terminator := by
    cases hlife : s.life with
    | destructing =>
      simp only [Life.rank]
      obtain hsame | ⟨hbefore, hafter⟩ | ⟨-, hbefore, hafter⟩ := ChannelWork.terminator_step hstep
      · exact Nat.le_of_eq (by rw [hsame])
      · simp [hbefore, hafter]
      · simp [hbefore, hafter]
    | _ => exact Nat.le_refl _
  have hkept : measure { s with work } + 8 ≤ measure s := by
    simp only [measure]
    omega
  cases l with
  | leave =>
    obtain ⟨-, hheld, -⟩ := ChannelWork.leave_eq_some hstep
    have halive : s.life = .alive := h.alive.mpr (Nat.add_pos_right _ (by simp [hheld]))
    refine Nat.lt_of_le_of_lt (measure_dropped (s := { s with work }) halive) ?_
    omega
  | notify | performInline job =>
    simp only [State.worked, measure] at hkept ⊢
    omega
  | pushCaller => exact Nat.lt_of_lt_of_le (Nat.lt_add_of_pos_right (by decide)) hkept
  | join =>
    unfold State.worked
    dsimp only
    split
    · rename_i hdisabling
      simp only [measure, hdisabling, Disabler.rank] at hkept ⊢
      omega
    · simp only [measure, Life.rank] at hkept ⊢
      omega
  | _ => exact Nat.lt_of_lt_of_le (Nat.lt_add_of_pos_right (by decide)) hkept

theorem Counted.measure_lt (h : Counted s) {l : Label} (hl : l.isInternal) (hstep : s.step l = some s') :
    measure s' < measure s := by
  have halive : ∀ n, n ≤ s.others → 0 < n → s.life = .alive := fun n hle hpos =>
    h.alive.mpr (Nat.add_pos_left (Nat.lt_of_lt_of_le hpos hle) _)
  have hterminate := s.work.measure_terminate
  cases (stepped_of_step hstep).2 with
  | userCopy | userDrop | complete | disablerLock => cases hl
  | work l hwork => exact h.measure_worked hl hwork
  | leave hsome =>
    have hlife := halive s.leaving (by simp only [State.others]; omega) hsome
    refine Nat.lt_of_le_of_lt (measure_dropped (s := { s with leaving := s.leaving - 1 }) hlife) ?_
    simp only [measure]
    omega
  | leaveCompletion hsome =>
    have hlife := halive s.leavingCompletions (by simp only [State.others]; omega) hsome
    refine Nat.lt_of_le_of_lt
      (measure_dropped (s := { s with leavingCompletions := s.leavingCompletions - 1 }) hlife) ?_
    simp only [measure]
    omega
  | notifyDisconnection hsome hfree =>
    simp only [measure]
    omega
  | disable hlocked hfree henabled =>
    have hlife := halive 1 (by simp only [State.others, hlocked, Disabler.isHolding, Bool.toNat_true]; omega)
      Nat.one_pos
    simp only [measure, hlocked, hlife, Disabler.rank, Life.rank]
    omega
  | disableDisabled hlocked hfree hdisabled =>
    simp only [measure, hlocked, Disabler.rank]
    omega
  | disablerDrop hdone =>
    have hlife := halive 1 (by simp only [State.others, hdone, Disabler.isHolding, Bool.toNat_true]; omega)
      Nat.one_pos
    refine Nat.lt_of_le_of_lt (measure_dropped (s := { s with disabler := .absent }) hlife) ?_
    simp only [measure, hdone, Disabler.rank]
    omega
  | destruct hlife hfree henabled =>
    have hnone : s.work.jobs.terminator = .none := by
      unfold State.isDisabling at hfree
      unfold State.enabled at henabled
      cases hterminator : s.work.jobs.terminator <;> simp [hterminator] at hfree henabled ⊢
    have hsome : s.work.terminate.jobs.terminator ≠ .none := by
      have hrunning := h.work.jobs.terminator.mpr hnone
      simp [ChannelWork.terminate, JobQueue.State.terminate, hrunning]
    simp only [measure, hlife, Life.rank, if_pos hnone, if_neg hsome]
    omega
  | destructDisabled hlife hfree hdisabled =>
    simp only [measure, hlife, Life.rank]
    split <;> omega

-- ---------------------------------------------------------------------------
-- Buffers
-- ---------------------------------------------------------------------------

/-- A buffer is destroyed once and released once, in this order, and not read in between; and
when all threads are at rest, which they are after finitely many steps of their own, both has
happened to every buffer. -/
structure ReleasesBuffers (s : State) : Prop where
  created : ∀ n ∈ s.work.buffers.destroyed, n ∈ s.work.buffers.created
  destroyed : s.work.buffers.destroyed.Nodup
  released : s.work.buffers.released.Nodup
  afterwards : ∀ n ∈ s.work.buffers.released, n ∈ s.work.buffers.destroyed
  dispatched : ∀ n ∈ s.work.buffers.created, n ∉ s.work.buffers.sources → n ∈ s.work.buffers.released
  lateReads : s.work.buffers.lateReads = []
  bounded : ∀ ls s', (∀ l ∈ ls, Label.isInternal l) → machine.runFrom s ls = some s' →
    ls.length ≤ measure s
  quiet : s.Quiet → ∀ n ∈ s.work.buffers.created,
    n ∈ s.work.buffers.destroyed ∧ n ∈ s.work.buffers.released

theorem AttendedTo.releasesBuffers (h : AttendedTo s) : ReleasesBuffers s := by
  have hbuffers := h.work.buffers
  have hended : s.work.ended.Nodup := h.work.nodup.of_append_right
  have hreleased : (s.work.buffers.released ++ s.work.buffers.sources).Nodup :=
    hbuffers.sources.nodup_iff.mpr hbuffers.distinct
  refine ⟨?_, ?_, hreleased.of_append_left, hbuffers.released, ?_, hbuffers.lateReads, ?_, ?_⟩
  · intro n hn
    rw [hbuffers.destroyed] at hn
    exact of_decide_eq_true (List.mem_filter.mp hn).2
  · rw [hbuffers.destroyed]
    exact hended.filter _
  · intro n hn hsource
    exact (List.mem_append.mp (hbuffers.sources.symm.subset hn)).resolve_right hsource
  · exact fun _ _ => Machine.length_le_of_measure (P := fun l : Label => l.isInternal)
      (fun _ _ _ h hl hstep => ⟨h.step hstep, h.measure_lt hl hstep⟩) h.toCounted
  · intro hquiet n hn
    have hwork : s.work.Quiet (0 < s.strong) := by
      intro l hl
      have hnone := hquiet (.work l) hl
      rw [State.step, if_neg h.running] at hnone
      exact Option.map_eq_none_iff.mp hnone
    exact h.work.released_of_quiet hwork hn

theorem attendedTo_run {ls : List Label} (halong : machine.Along Attended ls)
    (hrun : machine.run ls = some s) : AttendedTo s :=
  halong.invariant (I := AttendedTo) attendedTo_init
    (fun _ _ _ h hattended hstep => h.step hattended hstep) hrun

/-- In every run in which nobody leaves the worker alone with the channel, the last
reference is not dropped on the worker. -/
theorem lastDropper_ne_worker_run {ls : List Label} (halong : machine.Along Attended ls)
    (hrun : machine.run ls = some s) : s.lastDropper ≠ some .worker :=
  (attendedTo_run halong hrun).lastDropper

/-- The only job is performed, and the user drops the channel afterwards. -/
def droppedWhenIdle : List Label :=
  [.work (.request true), .work (.push 0), .work .notify, .leave, .work .wake, .work .lock,
    .work .build, .work .pushCaller, .work .leave, .userDrop]

theorem lastDropper_droppedWhenIdle : ∃ s, machine.run droppedWhenIdle = some s ∧
    s.life = .destructing ∧ s.lastDropper ≠ some .worker := by
  obtain ⟨s, hrun, hlife⟩ : ∃ s, machine.run droppedWhenIdle = some s ∧ s.life = .destructing :=
    ⟨_, rfl, rfl⟩
  have halong : machine.Along Attended droppedWhenIdle :=
    ⟨trivial, trivial, trivial, nofun, trivial, trivial, trivial, trivial, trivial, nofun, trivial⟩
  exact ⟨s, hrun, hlife, lastDropper_ne_worker_run halong hrun⟩

/-- The user drops the channel while the worker is in the closure of the only job. -/
def droppedWhilePerforming : List Label :=
  [.work (.request true), .work (.push 0), .work .notify, .leave, .work .wake, .work .lock,
    .userDrop, .work .build, .work .pushCaller, .work .leave]

theorem lastDropper_droppedWhilePerforming : ∃ s, machine.run droppedWhilePerforming = some s ∧
    s.life = .crashed ∧ ¬ s.lastDropper ≠ some .worker :=
  ⟨_, rfl, rfl, fun hother => hother rfl⟩

/-- In every such run, the buffers are released. -/
theorem releasesBuffers_run {ls : List Label} (halong : machine.Along Attended ls)
    (hrun : machine.run ls = some s) : ReleasesBuffers s :=
  (attendedTo_run halong hrun).releasesBuffers

/-- One buffer is performed, one cancelled by the worker, one pushed after termination, and
one requested when the channel has gone. -/
def releasedInEveryWay : List Label :=
  [.work (.request true), .work (.push 0), .work .notify, .work .wake, .work .lock, .work .build,
    .work .pushCaller, .work .leave, .work (.request true), .work (.push 1), .work (.request true),
    .disablerLock, .disable, .work .terminateNotify, .work .finish, .work (.push 2),
    .work (.performInline 2), .work .lock, .work .leave, .work .pop, .work .join, .disablerDrop,
    .leave, .work .notify, .leave, .leave, .userDrop, .destruct, .work (.request true),
    .work (.dispatch 0), .work (.dispatch 1), .work (.dispatch 2), .work (.dispatch 3)]

theorem releasesBuffers_releasedInEveryWay : ∃ s, machine.run releasedInEveryWay = some s ∧
    s.life = .destroyed ∧ s.work.buffers.released = [0, 1, 2, 3] ∧ ReleasesBuffers s := by
  obtain ⟨s, hrun, hlife, hreleased⟩ : ∃ s, machine.run releasedInEveryWay = some s ∧
      s.life = .destroyed ∧ s.work.buffers.released = [0, 1, 2, 3] := ⟨_, rfl, rfl, rfl⟩
  have halong : machine.Along Attended releasedInEveryWay := by
    refine ⟨trivial, trivial, trivial, trivial, trivial, trivial, trivial, trivial, trivial, trivial,
      trivial, trivial, trivial, trivial, trivial, trivial, trivial, trivial, trivial, trivial,
      trivial, nofun, nofun, trivial, nofun, nofun, nofun, trivial, trivial, trivial, trivial,
      trivial, trivial, trivial⟩
  exact ⟨s, hrun, hlife, hreleased, releasesBuffers_run halong hrun⟩

theorem not_releasesBuffers_droppedWhilePerforming :
    ∃ s, machine.run droppedWhilePerforming = some s ∧ ¬ ReleasesBuffers s := by
  obtain ⟨s, hrun, hlife, hcreated, hdestroyed⟩ : ∃ s, machine.run droppedWhilePerforming = some s ∧
      s.life = .crashed ∧ s.work.buffers.created = [0] ∧ s.work.buffers.destroyed = [] :=
    ⟨_, rfl, rfl, rfl, rfl⟩
  refine ⟨s, hrun, fun h => ?_⟩
  have hquiet : s.Quiet := fun _ _ => if_pos hlife
  have hmem := (h.quiet hquiet 0 (by simp [hcreated])).1
  simp [hdestroyed] at hmem

end ChannelLife

end ZenRemote.Server
