-- SUMMARY: The client's queue of rendering commands: pushes and commits from any thread, and executors that run whole commits.
import Mathlib.Algebra.Ring.Nat
import Mathlib.Data.List.DropRight
import Mathlib.Logic.Function.Basic
import ZenRemote.Lib.Machine

/-!
# The atomic command queue

Commands are pushed one by one and become executable together, with the next
commit. Every section under `mtx_` is one step, so that pushes, commits, and
threads that wait for `exec_mtx_` can get in between any two of them, and so is
the execution of a command, which may push and commit itself.
-/

namespace ZenRemote.Client

universe u

inductive CommandInfo (α : Type u) where
  | command (c : α)
  /-- `is_commit_command`. -/
  | commit
  deriving DecidableEq, Repr

namespace CommandInfo

variable {α : Type u}

def isCommit : CommandInfo α → Bool
  | .commit => true
  | .command _ => false

def command? : CommandInfo α → Option α
  | .command c => some c
  | .commit => none

end CommandInfo

structure AtomicCommandQueue (α : Type u) where
  queue : List (CommandInfo α) := []
  commitCount : Nat := 0
  deriving DecidableEq, Repr

namespace AtomicCommandQueue

variable {α : Type u}

def push (q : AtomicCommandQueue α) (c : α) : AtomicCommandQueue α :=
  { q with queue := q.queue ++ [.command c] }

def commit (q : AtomicCommandQueue α) : AtomicCommandQueue α :=
  { queue := q.queue ++ [.commit], commitCount := q.commitCount + 1 }

/-- The loop of the destructor, with the commands it cancels. -/
def cancelFrom : List (CommandInfo α) → List α
  | [] => []
  | .commit :: queue => cancelFrom queue
  | .command c :: queue => c :: cancelFrom queue

def destroy (q : AtomicCommandQueue α) : List α := cancelFrom q.queue

end AtomicCommandQueue

namespace UpdateQueue

variable {α : Type u}

/-- Where the thread that holds `exec_mtx_` is in `ExecuteOnce`. -/
inductive ExecPc (α : Type u) where
  /-- It is about to read `commit_count()`. -/
  | entered
  /-- It is about to lock `mtx_` and look at the front. -/
  | atFront
  /-- It executes the front command, with `mtx_` released. -/
  | executing (c : α)
  /-- It has read the front of an empty list. -/
  | crashed
  deriving DecidableEq, Repr

/-- The local variables of `UpdateScene`: `i` has 32 bits. -/
structure Scene where
  i : Nat := 0
  executeCount : Nat
  deriving DecidableEq, Repr

/-- The queue and its threads. The last group of fields records all entries that
were pushed, those popped, and the commands executed, the current one included. -/
structure State (α : Type u) where
  queue : AtomicCommandQueue α := {}
  executor : Option (Nat × ExecPc α) := none
  /-- The threads that are in `UpdateScene`. -/
  scenes : Nat → Option Scene := fun _ => none
  pushed : List (CommandInfo α) := []
  popped : List (CommandInfo α) := []
  executed : List α := []

inductive Label (α : Type u) where
  | push (c : α)
  | commit
  /-- Thread `t` calls `ExecuteOnce` and locks `exec_mtx_`. -/
  | executeOnce (t : Nat)
  /-- Thread `t` calls `UpdateScene` and reads `commit_count()`. -/
  | updateScene (t : Nat)
  /-- Thread `t` is at the head of the loop of `UpdateScene`. -/
  | nextIteration (t : Nat)
  /-- The executor reads `commit_count()`. -/
  | checkCount
  /-- The executor locks `mtx_` before its loop. -/
  | lockFront
  /-- The command returns, and the executor locks `mtx_` again. -/
  | commandDone

namespace State

/-- The head of the loop of `ExecuteOnce`, under `mtx_`. After a commit marker
`ExecuteOnce` returns true, to the loop of `UpdateScene` if that has called it. -/
def lookAtFront (s : State α) (t : Nat) : State α :=
  match s.queue.queue with
  | [] => { s with executor := some (t, .crashed) }
  | .commit :: rest =>
    { s with
      queue := ⟨rest, s.queue.commitCount - 1⟩
      executor := none
      scenes := Function.update s.scenes t
        ((s.scenes t).map fun scene => { scene with i := (scene.i + 1) % 2 ^ 32 })
      popped := s.popped ++ [.commit] }
  | .command c :: _ =>
    { s with executor := some (t, .executing c), executed := s.executed ++ [c] }

def checkCount (s : State α) : Option (State α) :=
  match s.executor with
  | some (t, .entered) =>
    if s.queue.commitCount = 0 then
      some { s with executor := none, scenes := Function.update s.scenes t none }
    else some { s with executor := some (t, .atFront) }
  | _ => none

def lockFront (s : State α) : Option (State α) :=
  match s.executor with
  | some (t, .atFront) => some (s.lookAtFront t)
  | _ => none

def commandDone (s : State α) : Option (State α) :=
  match s.executor with
  | some (t, .executing c) =>
    some (State.lookAtFront { s with
      queue := { s.queue with queue := s.queue.queue.tail }
      popped := s.popped ++ [.command c] } t)
  | _ => none

/-- `exec_mtx_` is free for thread `t`. -/
def lockExec (s : State α) (t : Nat) : Option (State α) :=
  match s.executor with
  | none => some { s with executor := some (t, .entered) }
  | some _ => none

def executeOnce (s : State α) (t : Nat) : Option (State α) :=
  match s.scenes t with
  | none => s.lockExec t
  | some _ => none

def updateScene (s : State α) (t : Nat) : Option (State α) :=
  match s.scenes t with
  | none =>
    if s.executor.any (fun e => e.1 = t) then none
    else some { s with
      scenes := Function.update s.scenes t (some { executeCount := s.queue.commitCount }) }
  | some _ => none

def nextIteration (s : State α) (t : Nat) : Option (State α) :=
  match s.scenes t with
  | some scene =>
    if scene.i < scene.executeCount then s.lockExec t
    else some { s with scenes := Function.update s.scenes t none }
  | none => none

def step (s : State α) : Label α → Option (State α)
  | .push c => some { s with queue := s.queue.push c, pushed := s.pushed ++ [.command c] }
  | .commit => some { s with queue := s.queue.commit, pushed := s.pushed ++ [.commit] }
  | .executeOnce t => s.executeOnce t
  | .updateScene t => s.updateScene t
  | .nextIteration t => s.nextIteration t
  | .checkCount => s.checkCount
  | .lockFront => s.lockFront
  | .commandDone => s.commandDone

end State

def machine (α : Type u) : Machine (State α) (Label α) where
  init := {}
  step := State.step

/-- All that a step can do, with what it has checked. -/
inductive Stepped (s : State α) : Label α → State α → Prop
  | push (c : α) : Stepped s (.push c)
      { s with queue := s.queue.push c, pushed := s.pushed ++ [.command c] }
  | commit : Stepped s .commit { s with queue := s.queue.commit, pushed := s.pushed ++ [.commit] }
  | executeOnce {t : Nat} (hscene : s.scenes t = none) (hfree : s.executor = none) :
      Stepped s (.executeOnce t) { s with executor := some (t, .entered) }
  | updateScene {t : Nat} (hscene : s.scenes t = none) : Stepped s (.updateScene t)
      { s with
        scenes := Function.update s.scenes t (some { executeCount := s.queue.commitCount }) }
  | nextIteration {t : Nat} {scene : Scene} (hscene : s.scenes t = some scene)
      (hi : scene.i < scene.executeCount) (hfree : s.executor = none) :
      Stepped s (.nextIteration t) { s with executor := some (t, .entered) }
  | leaveScene {t : Nat} {scene : Scene} (hscene : s.scenes t = some scene)
      (hi : ¬ scene.i < scene.executeCount) :
      Stepped s (.nextIteration t) { s with scenes := Function.update s.scenes t none }
  | noCommit {t : Nat} (hexecutor : s.executor = some (t, .entered))
      (hcount : s.queue.commitCount = 0) :
      Stepped s .checkCount { s with executor := none, scenes := Function.update s.scenes t none }
  | checkCount {t : Nat} (hexecutor : s.executor = some (t, .entered))
      (hcount : s.queue.commitCount ≠ 0) :
      Stepped s .checkCount { s with executor := some (t, .atFront) }
  | lockFront {t : Nat} (hexecutor : s.executor = some (t, .atFront)) :
      Stepped s .lockFront (s.lookAtFront t)
  | commandDone {t : Nat} {c : α} (hexecutor : s.executor = some (t, .executing c)) :
      Stepped s .commandDone (State.lookAtFront { s with
        queue := { s.queue with queue := s.queue.queue.tail }
        popped := s.popped ++ [.command c] } t)

theorem step_cases {s s' : State α} {l : Label α} (hstep : s.step l = some s') : Stepped s l s' := by
  have hlockExec : ∀ {t}, s.lockExec t = some s' →
      s.executor = none ∧ s' = { s with executor := some (t, .entered) } := by
    intro t hstep
    rw [State.lockExec] at hstep
    split at hstep
    · rename_i hfree
      exact ⟨hfree, (Option.some.inj hstep).symm⟩
    · contradiction
  cases l with
  | push c =>
    cases hstep
    exact .push c
  | commit =>
    cases hstep
    exact .commit
  | executeOnce t =>
    rw [State.step, State.executeOnce] at hstep
    split at hstep
    · rename_i hscene
      obtain ⟨hfree, rfl⟩ := hlockExec hstep
      exact .executeOnce hscene hfree
    · contradiction
  | updateScene t =>
    rw [State.step, State.updateScene] at hstep
    split at hstep
    · rename_i hscene
      split at hstep
      · contradiction
      · cases hstep
        exact .updateScene hscene
    · contradiction
  | nextIteration t =>
    rw [State.step, State.nextIteration] at hstep
    split at hstep
    · rename_i scene hscene
      split at hstep
      · rename_i hi
        obtain ⟨hfree, rfl⟩ := hlockExec hstep
        exact .nextIteration hscene hi hfree
      · rename_i hi
        cases hstep
        exact .leaveScene hscene hi
    · contradiction
  | checkCount =>
    rw [State.step, State.checkCount] at hstep
    split at hstep
    · rename_i hexecutor
      split at hstep
      · rename_i hcount
        cases hstep
        exact .noCommit hexecutor hcount
      · rename_i hcount
        cases hstep
        exact .checkCount hexecutor hcount
    · contradiction
  | lockFront =>
    rw [State.step, State.lockFront] at hstep
    split at hstep
    · rename_i hexecutor
      cases hstep
      exact .lockFront hexecutor
    · contradiction
  | commandDone =>
    rw [State.step, State.commandDone] at hstep
    split at hstep
    · rename_i hexecutor
      cases hstep
      exact .commandDone hexecutor
    · contradiction

-- ---------------------------------------------------------------------------
-- Commits
-- ---------------------------------------------------------------------------

def commands (entries : List (CommandInfo α)) : List α := entries.filterMap CommandInfo.command?

/-- The entries up to the last commit. -/
def committed (entries : List (CommandInfo α)) : List (CommandInfo α) :=
  entries.rdropWhile fun e => !e.isCommit

/-- Nothing, or whole commits. -/
def WholeCommits (entries : List (CommandInfo α)) : Prop :=
  ∀ e ∈ entries.getLast?, e.isCommit

abbrev commits (entries : List (CommandInfo α)) : Nat := entries.countP CommandInfo.isCommit

@[simp] theorem commands_append (l l' : List (CommandInfo α)) :
    commands (l ++ l') = commands l ++ commands l' :=
  List.filterMap_append

@[simp] theorem commands_singleton (c : α) : commands [.command c] = [c] := rfl

@[simp] theorem commands_commit : commands [(.commit : CommandInfo α)] = [] := rfl

theorem cancelFrom_eq_commands (entries : List (CommandInfo α)) :
    AtomicCommandQueue.cancelFrom entries = commands entries := by
  induction entries with
  | nil => rfl
  | cons e entries ih =>
    cases e with
    | command c => exact congrArg (c :: ·) ih
    | commit => exact ih

theorem wholeCommits_concat_commit (entries : List (CommandInfo α)) :
    WholeCommits (entries ++ [.commit]) := by
  intro e he
  rw [List.getLast?_concat, Option.mem_some_iff] at he
  exact he ▸ rfl

/-- Entries behind the last commit are not committed. -/
theorem committed_append {groups rest : List (CommandInfo α)} (hgroups : WholeCommits groups)
    (hrest : commits rest = 0) : committed (groups ++ rest) = groups := by
  induction rest using List.reverseRecOn with
  | nil =>
    rw [List.append_nil]
    apply List.rdropWhile_eq_self_iff.mpr
    intro hne
    have hlast := hgroups _ (List.getLast?_eq_some_getLast hne)
    rw [hlast]
    exact nofun
  | append_singleton rest e ih =>
    rw [commits, List.countP_append, Nat.add_eq_zero_iff] at hrest
    have he : ¬ e.isCommit := List.countP_eq_zero.mp hrest.2 e (List.mem_singleton_self e)
    rw [← List.append_assoc, committed, List.rdropWhile_concat_pos _ _ _ (by simpa using he)]
    exact ih hrest.1

/-- Whole commits, and a prefix with a commit behind it, are committed. -/
theorem prefix_committed {front rest : List (CommandInfo α)}
    (h : WholeCommits front ∨ 0 < commits rest) : front <+: committed (front ++ rest) := by
  induction rest using List.reverseRecOn with
  | nil =>
    have hwhole := h.resolve_right (Nat.lt_irrefl 0)
    exact ⟨[], (List.append_nil _).trans (committed_append hwhole rfl).symm⟩
  | append_singleton rest e ih =>
    rw [← List.append_assoc, committed]
    cases e with
    | commit =>
      rw [List.rdropWhile_concat_neg _ _ _ (by simp [CommandInfo.isCommit]), List.append_assoc]
      exact List.prefix_append _ _
    | command c =>
      rw [List.rdropWhile_concat_pos _ _ _ (by simp [CommandInfo.isCommit])]
      apply ih
      simpa [commits, CommandInfo.isCommit] using h

theorem wholeCommits_committed (entries : List (CommandInfo α)) : WholeCommits (committed entries) := by
  induction entries using List.reverseRecOn with
  | nil => exact nofun
  | append_singleton entries e ih =>
    cases e with
    | commit =>
      rw [committed, List.rdropWhile_concat_neg _ _ _ (by simp [CommandInfo.isCommit])]
      exact wholeCommits_concat_commit entries
    | command c =>
      rw [committed, List.rdropWhile_concat_pos _ _ _ (by simp [CommandInfo.isCommit])]
      exact ih

@[simp] theorem commits_committed (entries : List (CommandInfo α)) :
    commits (committed entries) = commits entries := by
  induction entries using List.reverseRecOn with
  | nil => rfl
  | append_singleton entries e ih =>
    cases e with
    | commit => rw [committed, List.rdropWhile_concat_neg _ _ _ (by simp [CommandInfo.isCommit])]
    | command c =>
      rw [committed, List.rdropWhile_concat_pos _ _ _ (by simp [CommandInfo.isCommit])]
      have hlast : commits (entries ++ [.command c]) = commits entries := List.countP_append
      exact ih.trans hlast.symm

/-- Of two first parts of a list, the one with fewer commits is the shorter. -/
theorem prefix_of_commits_lt {l l' entries : List (CommandInfo α)} (hl : l <+: entries)
    (hl' : l' <+: entries) (h : commits l < commits l') : l <+: l' := by
  cases List.prefix_or_prefix_of_prefix hl hl' with
  | inl hpre => exact hpre
  | inr hpre => exact absurd (hpre.sublist.countP_le (p := CommandInfo.isCommit)) (Nat.not_le.mpr h)

/-- The same for no more commits, if the first is of whole commits. -/
theorem prefix_of_commits_le {l l' entries : List (CommandInfo α)} (hl : l <+: entries)
    (hl' : l' <+: entries) (hwhole : WholeCommits l) (h : commits l ≤ commits l') : l <+: l' := by
  cases List.prefix_or_prefix_of_prefix hl hl' with
  | inl hpre => exact hpre
  | inr hpre =>
    -- what `l` has more than `l'` has no commit, so `l` would not end with one
    obtain ⟨rest, rfl⟩ := hpre
    have hrest : commits rest = 0 := by
      rw [commits, List.countP_append] at h
      exact Nat.le_zero.mp (Nat.le_of_add_le_add_left (h.trans (Nat.le_refl _)))
    cases rest using List.reverseRecOn with
    | nil => exact ⟨[], by rw [List.append_nil, List.append_nil]⟩
    | append_singleton rest e =>
      rw [← List.append_assoc, WholeCommits, List.getLast?_concat] at hwhole
      rw [commits, List.countP_eq_zero] at hrest
      exact absurd (hwhole e rfl) (hrest e (List.mem_append_right _ (List.mem_singleton_self e)))

-- ---------------------------------------------------------------------------
-- The invariant
-- ---------------------------------------------------------------------------

/-- What the executor has done so far, by where it is. Between executors whole
commits have been popped. An executor past the check has a commit ahead of it. -/
def ExecutorInv (s : State α) : Option (Nat × ExecPc α) → Prop
  | none | some (_, .entered) => WholeCommits s.popped ∧ s.executed = commands s.popped
  | some (_, .atFront) => WholeCommits s.popped ∧ s.executed = commands s.popped ∧
    0 < commits s.queue.queue
  | some (_, .executing c) => s.executed = commands s.popped ++ [c] ∧
    ∃ rest, s.queue.queue = .command c :: rest ∧ 0 < commits rest
  | some (_, .crashed) => False

structure Inv (s : State α) : Prop where
  count : s.queue.commitCount = commits s.queue.queue
  split : s.popped ++ s.queue.queue = s.pushed
  executor : ExecutorInv s s.executor

variable {s s' : State α}

theorem inv_init : Inv (machine α).init := ⟨rfl, rfl, nofun, rfl⟩

/-- Whatever the executor is at, another entry at the back does not matter to it. -/
theorem Inv.emplaceBack (h : Inv s) (e : CommandInfo α) :
    Inv { s with
      queue := ⟨s.queue.queue ++ [e], s.queue.commitCount + commits [e]⟩
      pushed := s.pushed ++ [e] } := by
  have hcommits : ∀ l, commits (l ++ [e]) = commits l + commits [e] := fun l => List.countP_append
  refine ⟨?_, ?_, ?_⟩
  · rw [hcommits, h.count]
  · rw [← h.split, List.append_assoc]
  · have hexecutor := h.executor
    revert hexecutor
    show ExecutorInv s s.executor → ExecutorInv _ s.executor
    cases s.executor with
    | none => exact id
    | some e' =>
      obtain ⟨t, pc⟩ := e'
      cases pc with
      | entered => exact id
      | crashed => exact id
      | atFront =>
        rintro ⟨hwhole, hexecuted, hpos⟩
        exact ⟨hwhole, hexecuted, hcommits _ ▸ Nat.lt_add_right _ hpos⟩
      | executing c =>
        rintro ⟨hexecuted, rest, hqueue, hpos⟩
        refine ⟨hexecuted, rest ++ [e], ?_, hcommits _ ▸ Nat.lt_add_right _ hpos⟩
        show s.queue.queue ++ [e] = _
        rw [hqueue, List.cons_append]

/-- With a commit ahead, the executor pops the commit or begins the front command. -/
theorem inv_lookAtFront (hcount : s.queue.commitCount = commits s.queue.queue)
    (hsplit : s.popped ++ s.queue.queue = s.pushed) (hexecuted : s.executed = commands s.popped)
    (hpos : 0 < commits s.queue.queue) (t : Nat) : Inv (s.lookAtFront t) := by
  unfold State.lookAtFront
  split
  · rename_i hqueue
    rw [hqueue] at hpos
    exact absurd hpos (Nat.lt_irrefl 0)
  · rename_i rest hqueue
    rw [hqueue] at hcount hsplit
    refine ⟨?_, ?_, wholeCommits_concat_commit _, ?_⟩
    · rw [hcount, commits, List.countP_cons_of_pos rfl, Nat.add_sub_cancel]
    · rw [← hsplit, List.append_assoc]
      rfl
    · rw [commands_append, commands_commit, List.append_nil, hexecuted]
  · rename_i c rest hqueue
    refine ⟨hcount, hsplit, ?_, rest, hqueue, ?_⟩
    · rw [hexecuted]
    · rw [hqueue, commits, List.countP_cons_of_neg (by simp [CommandInfo.isCommit])] at hpos
      exact hpos

theorem Inv.step (h : Inv s) {l : Label α} (hstep : s.step l = some s') : Inv s' := by
  have hexecutor := h.executor
  cases step_cases hstep with
  | push c => exact h.emplaceBack (.command c)
  | commit => exact h.emplaceBack .commit
  | executeOnce _ hfree =>
    rw [hfree] at hexecutor
    exact ⟨h.count, h.split, hexecutor⟩
  | updateScene _ => exact ⟨h.count, h.split, h.executor⟩
  | nextIteration _ _ hfree =>
    rw [hfree] at hexecutor
    exact ⟨h.count, h.split, hexecutor⟩
  | leaveScene _ _ => exact ⟨h.count, h.split, h.executor⟩
  | noCommit hentered _ =>
    rw [hentered] at hexecutor
    exact ⟨h.count, h.split, hexecutor⟩
  | checkCount hentered hcount =>
    rw [hentered] at hexecutor
    exact ⟨h.count, h.split, hexecutor.1, hexecutor.2, h.count ▸ Nat.pos_of_ne_zero hcount⟩
  | lockFront hfront =>
    rw [hfront] at hexecutor
    exact inv_lookAtFront h.count h.split hexecutor.2.1 hexecutor.2.2 _
  | @commandDone t c hexecuting =>
    rw [hexecuting] at hexecutor
    obtain ⟨hexecuted, rest, hqueue, hpos⟩ := hexecutor
    have htail : s.queue.queue.tail = rest := by rw [hqueue, List.tail_cons]
    apply inv_lookAtFront
    · show s.queue.commitCount = commits s.queue.queue.tail
      rw [h.count, htail, hqueue, commits, List.countP_cons_of_neg (by simp [CommandInfo.isCommit])]
    · show s.popped ++ [.command c] ++ s.queue.queue.tail = s.pushed
      rw [← h.split, htail, hqueue, List.append_assoc]
      rfl
    · rw [commands_append, commands_singleton]
      exact hexecuted
    · rw [htail]
      exact hpos

theorem inv_run {ls : List (Label α)} (hrun : (machine α).run ls = some s) : Inv s :=
  Machine.run_invariant inv_init (fun _ _ _ h hstep => h.step hstep) hrun

/-- What holds in every state: the counter is right, the front is never read of
an empty list, the executed commands are the first of those pushed and all
committed, between executors they are those of whole commits, and the destructor
would cancel the others. -/
structure RunsCommits (s : State α) : Prop where
  count : s.queue.commitCount = commits s.queue.queue
  front : ∀ t, s.executor ≠ some (t, .crashed)
  inOrder : s.executed <+: commands s.pushed
  committed : s.executed <+: commands (committed s.pushed)
  whole : s.executor = none →
    ∃ groups, groups <+: s.pushed ∧ WholeCommits groups ∧ s.executed = commands groups
  destroy : s.executor = none → s.executed ++ s.queue.destroy = commands s.pushed

theorem Inv.runsCommits (h : Inv s) : RunsCommits s := by
  have hexecutor := h.executor
  have hwhole : s.executor = none → WholeCommits s.popped ∧ s.executed = commands s.popped := by
    intro hnone
    rwa [hnone] at hexecutor
  have hcommitted : s.executed <+: commands (committed s.pushed) := by
    have hpopped : WholeCommits s.popped → s.executed = commands s.popped →
        s.executed <+: commands (committed s.pushed) := by
      intro hwhole hexecuted
      rw [hexecuted, ← h.split]
      exact (prefix_committed (.inl hwhole)).filterMap _
    cases hpc : s.executor with
    | none => exact hpopped (hwhole hpc).1 (hwhole hpc).2
    | some e =>
      obtain ⟨t, pc⟩ := e
      rw [hpc] at hexecutor
      cases pc with
      | entered => exact hpopped hexecutor.1 hexecutor.2
      | atFront => exact hpopped hexecutor.1 hexecutor.2.1
      | executing c =>
        obtain ⟨hexecuted, rest, hqueue, hpos⟩ := hexecutor
        have hsplit : s.pushed = s.popped ++ [.command c] ++ rest := by
          rw [← h.split, hqueue, List.append_assoc]
          rfl
        rw [hexecuted, hsplit, ← commands_singleton, ← commands_append]
        exact (prefix_committed (.inr hpos)).filterMap _
      | crashed => exact hexecutor.elim
  refine ⟨h.count, fun t hcrashed => ?_, ?_, hcommitted, fun hnone => ?_, fun hnone => ?_⟩
  · rw [hcrashed] at hexecutor
    exact hexecutor
  · exact hcommitted.trans ((List.rdropWhile_prefix _ _).filterMap _)
  · exact ⟨s.popped, ⟨_, h.split⟩, (hwhole hnone).1, (hwhole hnone).2⟩
  · rw [(hwhole hnone).2, AtomicCommandQueue.destroy, cancelFrom_eq_commands, ← commands_append,
      h.split]

-- ---------------------------------------------------------------------------
-- The scene update
-- ---------------------------------------------------------------------------

/-- No thread but `t` executes. -/
def OnlyExecutor (t : Nat) : Label α → Prop
  | .executeOnce _ | .updateScene _ => False
  | .nextIteration t' => t' = t
  | .push _ | .commit | .checkCount | .lockFront | .commandDone => True

/-- An `UpdateScene` of thread `t`, with no other executor, that began when `n`
commits had been pushed. It has popped one commit in each iteration, and will
have popped the `n`-th when it returns. -/
structure Updating (t n : Nat) (s : State α) : Prop where
  pushed : n ≤ commits s.pushed
  thread : ∀ t' pc, s.executor = some (t', pc) → t' = t
  scene : (∃ scene, s.scenes t = some scene ∧ commits s.popped + scene.executeCount = n + scene.i ∧
      scene.i ≤ scene.executeCount ∧ scene.executeCount < 2 ^ 32 ∧
      (s.executor ≠ none → scene.i < scene.executeCount)) ∨
    (s.scenes t = none ∧ s.executor = none ∧ commits s.popped = n)

/-- A look at the front ends the iteration with a commit, or begins a command. -/
theorem updating_lookAtFront {t n : Nat} {scene : Scene} (hpushed : n ≤ commits s.pushed)
    (hscene : s.scenes t = some scene)
    (hpopped : commits s.popped + scene.executeCount = n + scene.i)
    (hfew : scene.executeCount < 2 ^ 32) (hlt : scene.i < scene.executeCount) :
    Updating t n (s.lookAtFront t) := by
  unfold State.lookAtFront
  split
  · refine ⟨hpushed, ?_, .inl ⟨scene, hscene, hpopped, hlt.le, hfew, fun _ => hlt⟩⟩
    rintro t' pc ⟨⟩
    rfl
  · refine ⟨hpushed, nofun, .inl ⟨{ scene with i := (scene.i + 1) % 2 ^ 32 }, ?_, ?_, ?_, hfew,
      fun hne => absurd rfl hne⟩⟩
    · show Function.update s.scenes t _ t = _
      rw [Function.update_self, hscene]
      rfl
    · show commits (s.popped ++ [.commit]) + scene.executeCount = n + (scene.i + 1) % 2 ^ 32
      rw [Nat.mod_eq_of_lt (by omega), commits, List.countP_append]
      show commits s.popped + 1 + scene.executeCount = _
      omega
    · show (scene.i + 1) % 2 ^ 32 ≤ scene.executeCount
      rw [Nat.mod_eq_of_lt (by omega)]
      exact hlt
  · refine ⟨hpushed, ?_, .inl ⟨scene, hscene, hpopped, hlt.le, hfew, fun _ => hlt⟩⟩
    rintro t' pc ⟨⟩
    rfl

theorem Updating.step {t n : Nat} (h : Updating t n s) (hinv : Inv s) {l : Label α}
    (hl : OnlyExecutor t l) (hstep : s.step l = some s') : Updating t n s' := by
  -- the scene, once there is an executor
  have hbusy : ∀ {t' pc}, s.executor = some (t', pc) → t' = t ∧ ∃ scene, s.scenes t = some scene ∧
      commits s.popped + scene.executeCount = n + scene.i ∧ scene.executeCount < 2 ^ 32 ∧
      scene.i < scene.executeCount := by
    intro t' pc hexecutor
    refine ⟨h.thread t' pc hexecutor, ?_⟩
    rcases h.scene with ⟨scene, hscene, hpopped, -, hfew, hlt⟩ | ⟨-, hnone, -⟩
    · exact ⟨scene, hscene, hpopped, hfew, hlt (by rw [hexecutor]; exact nofun)⟩
    · rw [hnone] at hexecutor
      cases hexecutor
  -- at the head of the loop
  have hhead : ∀ {scene}, s.scenes t = some scene → commits s.popped + scene.executeCount =
      n + scene.i ∧ scene.i ≤ scene.executeCount ∧ scene.executeCount < 2 ^ 32 ∧
      (s.executor ≠ none → scene.i < scene.executeCount) := by
    intro scene hscene
    rcases h.scene with ⟨scene', hscene', hbounds⟩ | ⟨hnone, -, -⟩
    · exact Option.some.inj (hscene'.symm.trans hscene) ▸ hbounds
    · rw [hnone] at hscene
      cases hscene
  cases step_cases hstep with
  | executeOnce _ _ => exact hl.elim
  | updateScene _ => exact hl.elim
  | push c =>
    refine ⟨h.pushed.trans ?_, h.thread, h.scene⟩
    exact (List.sublist_append_left _ _).countP_le
  | commit =>
    refine ⟨h.pushed.trans ?_, h.thread, h.scene⟩
    exact (List.sublist_append_left _ _).countP_le
  | nextIteration hscene hi _ =>
    cases hl
    obtain ⟨hpopped, hle, hfew, -⟩ := hhead hscene
    refine ⟨h.pushed, ?_, .inl ⟨_, hscene, hpopped, hle, hfew, fun _ => hi⟩⟩
    rintro t' pc ⟨⟩
    rfl
  | leaveScene hscene hi =>
    cases hl
    obtain ⟨hpopped, hle, -, hlt⟩ := hhead hscene
    have hfree : s.executor = none := by
      by_contra hne
      exact hi (hlt hne)
    refine ⟨h.pushed, h.thread, .inr ⟨Function.update_self .., hfree, ?_⟩⟩
    show commits s.popped = n
    omega
  | noCommit hexecutor hcount =>
    -- the commits that are still to be popped are in the list
    obtain ⟨-, scene, -, hpopped, -, hlt⟩ := hbusy hexecutor
    have hcommits : commits s.popped + commits s.queue.queue = commits s.pushed := by
      rw [← hinv.split, commits, commits, commits, List.countP_append]
    have hpushed := h.pushed
    rw [hinv.count] at hcount
    omega
  | checkCount hexecutor _ =>
    obtain ⟨rfl, scene, hscene, hpopped, hfew, hlt⟩ := hbusy hexecutor
    refine ⟨h.pushed, ?_, .inl ⟨scene, hscene, hpopped, hlt.le, hfew, fun _ => hlt⟩⟩
    rintro t' pc ⟨⟩
    rfl
  | lockFront hexecutor =>
    obtain ⟨rfl, scene, hscene, hpopped, hfew, hlt⟩ := hbusy hexecutor
    exact updating_lookAtFront h.pushed hscene hpopped hfew hlt
  | @commandDone t' c hexecutor =>
    obtain ⟨rfl, scene, hscene, hpopped, hfew, hlt⟩ := hbusy hexecutor
    have hpopped' : commits (s.popped ++ [.command c]) = commits s.popped := List.countP_append
    exact updating_lookAtFront (s := { s with
      queue := { s.queue with queue := s.queue.queue.tail }
      popped := s.popped ++ [.command c] }) h.pushed hscene (hpopped' ▸ hpopped) hfew hlt

theorem pushed_lookAtFront (t : Nat) : (s.lookAtFront t).pushed = s.pushed := by
  unfold State.lookAtFront
  split
  · rfl
  · rfl
  · rfl

/-- The list of pushed entries only grows. -/
theorem pushed_step {l : Label α} (hstep : s.step l = some s') : s.pushed <+: s'.pushed := by
  cases step_cases hstep with
  | push c => exact List.prefix_append _ _
  | commit => exact List.prefix_append _ _
  | executeOnce _ _ => exact List.prefix_rfl
  | updateScene _ => exact List.prefix_rfl
  | nextIteration _ _ _ => exact List.prefix_rfl
  | leaveScene _ _ => exact List.prefix_rfl
  | noCommit _ _ => exact List.prefix_rfl
  | checkCount _ _ => exact List.prefix_rfl
  | lockFront _ => exact ⟨[], (List.append_nil _).trans (pushed_lookAtFront _).symm⟩
  | @commandDone t c _ =>
    exact ⟨[], (List.append_nil _).trans (pushed_lookAtFront (s := { s with
      queue := { s.queue with queue := s.queue.queue.tail }
      popped := s.popped ++ [.command c] }) t).symm⟩

/-- Everything that `RunsCommits` does not say: an `UpdateScene` that is the only
executor executes what had been committed when it read `commit_count()` and no
more, and has executed all of that when it returns. -/
def UpdatesScene (ls : List (Label α)) (s : State α) : Prop :=
  ∀ before t during s₀, ls = before ++ .updateScene t :: during →
    (machine α).run before = some s₀ → s₀.executor = none → (∀ l ∈ during, OnlyExecutor t l) →
    s.executed <+: commands (committed s₀.pushed) ∧
    (s.scenes t = none → s.executed = commands (committed s₀.pushed))

/-- The variable `i` of an `UpdateScene` can reach its bound. -/
def FewPending (s : State α) : Label α → Prop
  | .updateScene _ => s.queue.commitCount < 2 ^ 32
  | _ => True

instance (s : State α) : ∀ l, Decidable (FewPending s l)
  | .updateScene _ => inferInstanceAs (Decidable (s.queue.commitCount < 2 ^ 32))
  | .push _ | .commit | .executeOnce _ | .nextIteration _ | .checkCount | .lockFront
  | .commandDone => inferInstanceAs (Decidable True)

theorem updating_init {t : Nat} (hinv : Inv s) (hfree : s.executor = none)
    (hfew : s.queue.commitCount < 2 ^ 32) (hstep : s.step (.updateScene t) = some s') :
    Updating t (commits s.pushed) s' := by
  cases step_cases hstep with
  | updateScene hscene =>
    refine ⟨Nat.le_refl _, ?_, .inl ⟨{ executeCount := s.queue.commitCount },
      Function.update_self .., ?_, Nat.zero_le _, hfew, fun hne => absurd hfree hne⟩⟩
    · intro t' pc hexecutor
      exact absurd (hexecutor.symm.trans hfree) nofun
    · show commits s.popped + s.queue.commitCount = _
      rw [hinv.count, ← hinv.split]
      exact List.countP_append.symm

/-- What an `UpdateScene` has executed, and what it has when it returns. -/
theorem Updating.executed {t : Nat} {entries : List (CommandInfo α)} (hinv : Inv s)
    (h : Updating t (commits entries) s) (hentries : entries <+: s.pushed) :
    s.executed <+: commands (committed entries) ∧
    (s.scenes t = none → s.executed = commands (committed entries)) := by
  have hcommitted : committed entries <+: s.pushed := (List.rdropWhile_prefix _ _).trans hentries
  have hexecutor := hinv.executor
  have hle : commits s.popped ≤ commits (committed entries) := by
    rw [commits_committed]
    rcases h.scene with ⟨scene, -, hpopped, hi, -, -⟩ | ⟨-, -, hpopped⟩
    · omega
    · exact hpopped.le
  have hpopped : WholeCommits s.popped → s.executed = commands s.popped →
      s.executed <+: commands (committed entries) := by
    intro hwhole hexecuted
    rw [hexecuted]
    exact (prefix_of_commits_le ⟨_, hinv.split⟩ hcommitted hwhole hle).filterMap _
  refine ⟨?_, fun hreturned => ?_⟩
  · cases hpc : s.executor with
    | none =>
      rw [hpc] at hexecutor
      exact hpopped hexecutor.1 hexecutor.2
    | some e =>
      obtain ⟨t', pc⟩ := e
      rw [hpc] at hexecutor
      cases pc with
      | entered => exact hpopped hexecutor.1 hexecutor.2
      | atFront => exact hpopped hexecutor.1 hexecutor.2.1
      | executing c =>
        -- the commit it is going to pop is one of those
        obtain ⟨hexecuted, rest, hqueue, -⟩ := hexecutor
        have hlt : commits (s.popped ++ [.command c]) < commits (committed entries) := by
          have hpopped : commits (s.popped ++ [.command c]) = commits s.popped := List.countP_append
          rw [hpopped, commits_committed]
          rcases h.scene with ⟨scene, -, hcount, -, -, hi⟩ | ⟨-, hnone, -⟩
          · have hbusy := hi (by rw [hpc]; exact nofun)
            omega
          · rw [hpc] at hnone
            cases hnone
        have hpre : s.popped ++ [.command c] <+: s.pushed := by
          refine ⟨rest, ?_⟩
          rw [← hinv.split, hqueue, List.append_assoc]
          rfl
        rw [hexecuted, ← commands_singleton, ← commands_append]
        exact (prefix_of_commits_lt hpre hcommitted hlt).filterMap _
      | crashed => exact hexecutor.elim
  · rcases h.scene with ⟨scene, hscene, -⟩ | ⟨-, hfree, hcount⟩
    · rw [hreturned] at hscene
      cases hscene
    · rw [hfree] at hexecutor
      obtain ⟨hwhole, hexecuted⟩ := hexecutor
      have hge : commits (committed entries) ≤ commits s.popped := by
        rw [commits_committed, hcount]
      have hto := prefix_of_commits_le ⟨_, hinv.split⟩ hcommitted hwhole hle
      have hfrom := prefix_of_commits_le hcommitted ⟨_, hinv.split⟩ (wholeCommits_committed _) hge
      rw [hexecuted, hto.eq_of_length_le hfrom.length_le]

/-- Whole commits run in order, in every run in which the count that an
`UpdateScene` reads fits its loop variable. -/
theorem runsCommits_run {ls : List (Label α)} (halong : (machine α).Along FewPending ls)
    (hrun : (machine α).run ls = some s) : RunsCommits s ∧ UpdatesScene ls s := by
  refine ⟨(inv_run hrun).runsCommits, ?_⟩
  rintro before t during s₀ rfl hbefore hfree honly
  have hfrom : (machine α).runFrom s₀ (.updateScene t :: during) = some s := by
    rwa [Machine.run_append, hbefore] at hrun
  obtain ⟨s₁, hs, hduring⟩ := Option.bind_eq_some_iff.mp hfrom
  have hs₁ : s₀.step (.updateScene t) = some s₁ := hs
  have hinv₀ := inv_run hbefore
  have hfew : FewPending s₀ (.updateScene t) := halong.at_step hbefore
  have hduringInv : Inv s ∧ Updating t (commits s₀.pushed) s ∧ s₀.pushed <+: s.pushed := by
    apply Machine.AlongFrom.invariant (C := fun _ l => OnlyExecutor t l)
      (I := fun s => Inv s ∧ Updating t (commits s₀.pushed) s ∧ s₀.pushed <+: s.pushed) ?_ ?_
      (Machine.alongFrom_of_mem fun l hl _ => honly l hl) hduring
    · rintro s l s' ⟨hinv, hupdating, hpushed⟩ hl hstep
      exact ⟨hinv.step hstep, hupdating.step hinv hl hstep, hpushed.trans (pushed_step hstep)⟩
    · exact ⟨hinv₀.step hs₁, updating_init hinv₀ hfree hfew hs₁, pushed_step hs₁⟩
  exact hduringInv.2.1.executed hduringInv.1 hduringInv.2.2

/-- A command that pushes and commits another one while it is executed, an executor
beside the `UpdateScene`, and a command that is not committed. -/
def commitWhileExecuting : List (Label Nat) :=
  [.push 1, .commit, .updateScene 0, .nextIteration 0, .checkCount, .lockFront, .push 2, .commit,
    .commandDone, .nextIteration 0, .executeOnce 1, .checkCount, .push 3, .lockFront, .commandDone]

theorem runsCommits_commitWhileExecuting :
    ∃ s, (machine Nat).run commitWhileExecuting = some s ∧ RunsCommits s ∧
      UpdatesScene commitWhileExecuting s := by
  have hdone : ((machine Nat).run commitWhileExecuting).isSome := by decide
  obtain ⟨s, hs⟩ := Option.isSome_iff_exists.mp hdone
  exact ⟨s, hs, runsCommits_run (by decide) hs⟩

-- ---------------------------------------------------------------------------
-- A loop variable that is too small
-- ---------------------------------------------------------------------------

def emptyGroup : List (Label Unit) := [.nextIteration 0, .checkCount, .lockFront]

/-- After `n` commits thread 0 calls `UpdateScene`, and a command is committed before
the first iteration. It does as many iterations as there were commits, and one more. -/
def pendingCommits (n : Nat) : List (Label Unit) :=
  List.replicate n .commit ++ .updateScene 0 :: .push () :: .commit ::
    ((List.replicate n emptyGroup).flatten ++ emptyGroup ++ [.commandDone])

def loopScenes (i : Nat) : Nat → Option Scene :=
  Function.update (fun _ => none) 0 (some { i := i % 2 ^ 32, executeCount := 2 ^ 32 })

/-- The state at the head of the loop, `n` empty commits before the last group. -/
def atHead (i n : Nat) (pushed popped : List (CommandInfo Unit)) : State Unit where
  queue := ⟨List.replicate n .commit ++ [.command (), .commit], n + 1⟩
  scenes := loopScenes i
  pushed := pushed
  popped := popped

theorem loopScenes_zero (i : Nat) :
    loopScenes i 0 = some { i := i % 2 ^ 32, executeCount := 2 ^ 32 } :=
  Function.update_self ..

theorem loopScenes_succ (i : Nat) :
    Function.update (loopScenes i) 0 ((loopScenes i 0).map fun scene =>
      { scene with i := (scene.i + 1) % 2 ^ 32 }) = loopScenes (i + 1) := by
  rw [loopScenes_zero, loopScenes, Function.update_idem, loopScenes, Option.map_some, Nat.mod_add_mod]

theorem run_commits (n : Nat) :
    (machine Unit).run (List.replicate n .commit) =
      some { queue := ⟨List.replicate n .commit, n⟩, pushed := List.replicate n .commit } := by
  induction n with
  | zero => rfl
  | succ n ih =>
    have hconcat : ∀ {γ : Type} (x : γ), List.replicate (n + 1) x = List.replicate n x ++ [x] :=
      fun _ => List.replicate_succ'
    rw [hconcat, hconcat]
    exact Machine.run_concat.mpr ⟨_, ih, rfl⟩

/-- The first part of an iteration. -/
theorem nextIteration_run (i n : Nat) (pushed popped : List (CommandInfo Unit)) (ls : List (Label Unit)) :
    (machine Unit).runFrom (atHead i n pushed popped) (.nextIteration 0 :: .checkCount :: ls) =
      (machine Unit).runFrom { atHead i n pushed popped with executor := some (0, .atFront) } ls := by
  have hnext : (atHead i n pushed popped).step (.nextIteration 0) =
      some { atHead i n pushed popped with executor := some (0, .entered) } := by
    have hscene : (atHead i n pushed popped).scenes 0 = _ := loopScenes_zero i
    rw [State.step, State.nextIteration, hscene]
    exact if_pos (Nat.mod_lt i (by decide))
  show ((atHead i n pushed popped).step (.nextIteration 0)).bind _ = _
  rw [hnext]
  rfl

theorem emptyGroup_run (i n : Nat) (pushed popped : List (CommandInfo Unit)) :
    (machine Unit).runFrom (atHead i (n + 1) pushed popped) emptyGroup =
      some (atHead (i + 1) n pushed (popped ++ [.commit])) := by
  rw [emptyGroup, nextIteration_run]
  exact congrArg (fun scenes => some { atHead i n pushed (popped ++ [.commit]) with scenes := scenes })
    (loopScenes_succ i)

theorem emptyGroups_run (i n : Nat) (pushed popped : List (CommandInfo Unit)) :
    (machine Unit).runFrom (atHead i n pushed popped) (List.replicate n emptyGroup).flatten =
      some (atHead (i + n) 0 pushed (popped ++ List.replicate n .commit)) := by
  induction n generalizing i popped with
  | zero =>
    rw [List.replicate_zero, List.replicate_zero, List.append_nil]
    rfl
  | succ n ih =>
    rw [List.replicate_succ, List.flatten_cons, Machine.runFrom_append, emptyGroup_run,
      Option.bind_some, ih, List.append_assoc, Nat.add_right_comm, Nat.add_assoc]
    rfl

/-- The group that was committed too late is executed nevertheless: `i` is zero again. -/
theorem pendingCommits_run {n : Nat} (hn : n = 2 ^ 32) :
    ∃ s, (machine Unit).run (pendingCommits n) = some s ∧ s.executed = [()] := by
  have hupdate : ∀ ls, (machine Unit).runFrom
      { queue := ⟨List.replicate n .commit, n⟩, pushed := List.replicate n .commit }
      (.updateScene 0 :: .push () :: .commit :: ls) = (machine Unit).runFrom
        (atHead 0 n (List.replicate n .commit ++ [.command (), .commit]) []) ls := by
    intro ls
    have hscene : ({ executeCount := n } : Scene) = { i := 0 % 2 ^ 32, executeCount := 2 ^ 32 } := by
      rw [hn, Nat.zero_mod]
    rw [atHead, loopScenes, ← hscene, List.append_cons]
    rfl
  rw [pendingCommits, Machine.run_append, run_commits, Option.bind_some, hupdate, List.append_assoc,
    Machine.runFrom_append, emptyGroups_run, Option.bind_some, emptyGroup, List.cons_append,
    List.cons_append, nextIteration_run]
  exact ⟨_, rfl, rfl⟩

theorem onlyExecutor_emptyGroup : ∀ l ∈ emptyGroup, OnlyExecutor 0 l := by
  intro l hl
  rcases hl with _ | ⟨_, _ | ⟨_, _ | ⟨_, ⟨⟩⟩⟩⟩
  · exact rfl
  · trivial
  · trivial

theorem not_updatesScene_pendingCommits :
    ∃ s, (machine Unit).run (pendingCommits (2 ^ 32)) = some s ∧
      ¬ (RunsCommits s ∧ UpdatesScene (pendingCommits (2 ^ 32)) s) := by
  obtain ⟨s, hrun, hexecuted⟩ := pendingCommits_run rfl
  refine ⟨s, hrun, fun ⟨_, hupdates⟩ => ?_⟩
  have honly : ∀ l ∈ .push () :: .commit :: ((List.replicate (2 ^ 32) emptyGroup).flatten ++
      emptyGroup ++ [.commandDone]), OnlyExecutor 0 l := by
    intro l hl
    cases hl with
    | head => trivial
    | tail _ hl =>
      cases hl with
      | head => trivial
      | tail _ hl =>
        rcases List.mem_append.mp hl with hgroups | hdone
        · rcases List.mem_append.mp hgroups with hflatten | hlast
          · obtain ⟨group, hgroup, hmem⟩ := List.mem_flatten.mp hflatten
            obtain rfl := List.eq_of_mem_replicate hgroup
            exact onlyExecutor_emptyGroup l hmem
          · exact onlyExecutor_emptyGroup l hlast
        · obtain rfl := List.mem_singleton.mp hdone
          trivial
  have hnone : ∀ n, commands (List.replicate n (.commit : CommandInfo Unit)) = [] := fun n =>
    List.filterMap_replicate_of_none rfl
  have hcommitted := (hupdates _ 0 _ _ rfl (run_commits _) rfl honly).1
  have hcut : commands (committed (List.replicate (2 ^ 32) .commit)) <+:
      commands (List.replicate (2 ^ 32) (.commit : CommandInfo Unit)) :=
    (List.rdropWhile_prefix _ _).filterMap _
  rw [hnone, List.prefix_nil] at hcut
  rw [hexecuted, hcut] at hcommitted
  cases List.prefix_nil.mp hcommitted

end UpdateQueue

end ZenRemote.Client
