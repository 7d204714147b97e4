-- SUMMARY: Resources with a pending and a rendering side, the commands between them, and what an executed commit leaves.
import Mathlib.Tactic.TypeStar
import ZenRemote.Lib.Machine

/-!
# Pipelines

One thread updates a pending state and commits it now and then; a commit hands over
commands. Another thread executes the commands later, in the same order, on a state
of its own. Any number of commits may be on the way, and what both threads depend on
may change at any time.
-/

/-- `ε` is what both threads depend on, `σ` the pending state, `ω` its updates, `γ` the
commands, `ρ` the rendering state and `ψ` what rendering depends on. -/
structure Pipeline (ε σ ω γ ρ ψ : Type*) where
  env : ε
  pending : σ
  rendering : ρ
  /-- `none` when the update is not possible. -/
  update : ε → σ → ω → Option (ε × σ)
  /-- What a commit hands over. -/
  commands : ε → σ → List γ
  /-- The pending state after a commit. -/
  committed : ε → σ → σ
  execute : ε → ρ → γ → ρ
  render : ε → ρ → ψ → ρ

namespace Pipeline

variable {ε σ ω γ ρ ψ : Type*}

/-- The last two fields record the commands executed, and each commit with what it
has handed over. -/
structure State (ε σ γ ρ : Type*) where
  env : ε
  pending : σ
  rendering : ρ
  queue : List γ := []
  done : List γ := []
  commits : List (σ × List γ) := []

inductive Label (ω ψ : Type*) where
  | update (o : ω)
  | commit
  /-- The next command is executed. -/
  | execute
  | render (x : ψ)
  deriving DecidableEq

variable (P : Pipeline ε σ ω γ ρ ψ)

def step (s : State ε σ γ ρ) : Label ω ψ → Option (State ε σ γ ρ)
  | .update o => (P.update s.env s.pending o).map fun e => { s with env := e.1, pending := e.2 }
  | .commit =>
    let cs := P.commands s.env s.pending
    some { s with
      pending := P.committed s.env s.pending
      queue := s.queue ++ cs
      commits := s.commits ++ [(s.pending, cs)] }
  | .execute =>
    match s.queue with
    | [] => none
    | c :: queue => some { s with
        rendering := P.execute s.env s.rendering c
        queue := queue
        done := s.done ++ [c] }
  | .render x => some { s with rendering := P.render s.env s.rendering x }

def machine : Machine (State ε σ γ ρ) (Label ω ψ) where
  init := { env := P.env, pending := P.pending, rendering := P.rendering }
  step := P.step

/-- All that a step can do. -/
inductive Stepped (s : State ε σ γ ρ) : Label ω ψ → State ε σ γ ρ → Prop
  | update {o : ω} {e : ε} {p : σ} (hupdate : P.update s.env s.pending o = some (e, p)) :
      Stepped s (.update o) { s with env := e, pending := p }
  | commit : Stepped s .commit { s with
      pending := P.committed s.env s.pending
      queue := s.queue ++ P.commands s.env s.pending
      commits := s.commits ++ [(s.pending, P.commands s.env s.pending)] }
  | execute {c : γ} {queue : List γ} (hqueue : s.queue = c :: queue) : Stepped s .execute { s with
      rendering := P.execute s.env s.rendering c
      queue := queue
      done := s.done ++ [c] }
  | render (x : ψ) : Stepped s (.render x) { s with rendering := P.render s.env s.rendering x }

variable {P}

theorem step_cases {s s' : State ε σ γ ρ} {l : Label ω ψ} (hstep : P.step s l = some s') :
    P.Stepped s l s' := by
  cases l with
  | update o =>
    obtain ⟨⟨e, p⟩, hupdate, rfl⟩ := Option.map_eq_some_iff.mp hstep
    exact .update hupdate
  | commit =>
    cases hstep
    exact .commit
  | execute =>
    rw [step] at hstep
    split at hstep
    · contradiction
    · rename_i c queue hqueue
      cases hstep
      exact .execute hqueue
  | render x =>
    cases hstep
    exact .render x

-- ---------------------------------------------------------------------------
-- Commits that have been executed
-- ---------------------------------------------------------------------------

variable (P) in
/-- The pending state at the last of some commits. -/
def snapshot (commits : List (σ × List γ)) : σ := (commits.getLast?.map Prod.fst).getD P.pending

@[simp] theorem snapshot_concat (commits : List (σ × List γ)) (c : σ × List γ) :
    P.snapshot (commits ++ [c]) = c.1 := by
  simp [snapshot]

namespace State

/-- The commands of the first `k` commits have been executed, and no others. -/
def HasExecuted (s : State ε σ γ ρ) (k : Nat) : Prop :=
  k ≤ s.commits.length ∧ s.done = (s.commits.take k).flatMap Prod.snd

end State

/-- How the rendering state comes to agree with what was committed. `Leads e r cs p`:
the commands `cs` lead from `r` to a state that agrees with `p`. `Tracks e p p'`: the
pending state `p` stands in order to the one `p'` at the last commit. -/
structure Tracking (P : Pipeline ε σ ω γ ρ ψ) (mayUpdate : ε → σ → ω → Prop)
    (mayCommit : ε → σ → Prop) where
  Leads : ε → ρ → List γ → σ → Prop
  Tracks : ε → σ → σ → Prop
  leads_init : Leads P.env P.rendering [] P.pending
  tracks_init : Tracks P.env P.pending P.pending
  leads_update : ∀ {e e' r cs p p' q o}, P.update e p o = some (e', p') → mayUpdate e p o →
    Leads e r cs q → Leads e' r cs q
  tracks_update : ∀ {e e' p p' q o}, P.update e p o = some (e', p') → mayUpdate e p o →
    Tracks e p q → Tracks e' p' q
  leads_commit : ∀ {e r cs p q}, mayCommit e p → Tracks e p q → Leads e r cs q →
    Leads e r (cs ++ P.commands e p) p
  tracks_commit : ∀ {e p q}, mayCommit e p → Tracks e p q → Tracks e (P.committed e p) p
  leads_execute : ∀ {e r c cs p}, Leads e r (c :: cs) p → Leads e (P.execute e r c) cs p
  leads_render : ∀ {e r cs p x}, Leads e r cs p → Leads e (P.render e r x) cs p

namespace Tracking

variable {mayUpdate : ε → σ → ω → Prop} {mayCommit : ε → σ → Prop}

/-- The condition on a step. -/
def Meets (_ : Tracking P mayUpdate mayCommit) (s : State ε σ γ ρ) : Label ω ψ → Prop
  | .update o => mayUpdate s.env s.pending o
  | .commit => mayCommit s.env s.pending
  | .execute => True
  | .render _ => True

structure Inv (T : Tracking P mayUpdate mayCommit) (s : State ε σ γ ρ) : Prop where
  split : s.done ++ s.queue = s.commits.flatMap Prod.snd
  leads : ∀ commits cs, commits <+: s.commits → s.done ++ cs = commits.flatMap Prod.snd →
    T.Leads s.env s.rendering cs (P.snapshot commits)
  tracks : T.Tracks s.env s.pending (P.snapshot s.commits)

variable {T : Tracking P mayUpdate mayCommit} {s s' : State ε σ γ ρ}

theorem inv_init : T.Inv P.machine.init := by
  refine ⟨rfl, fun commits cs hcommits hcs => ?_, T.tracks_init⟩
  obtain rfl := List.prefix_nil.mp hcommits
  obtain rfl : cs = [] := hcs
  exact T.leads_init

theorem Inv.step {l : Label ω ψ} (hinv : T.Inv s) (hl : T.Meets s l)
    (hstep : P.step s l = some s') : T.Inv s' := by
  obtain ⟨hsplit, hleads, htracks⟩ := hinv
  cases step_cases hstep with
  | update hupdate =>
    exact ⟨hsplit, fun commits cs hcommits hcs => T.leads_update hupdate hl (hleads _ _ hcommits hcs),
      T.tracks_update hupdate hl htracks⟩
  | commit =>
    refine ⟨?_, ?_, ?_⟩
    · simp [← hsplit]
    · intro commits cs hcommits hcs
      rcases List.prefix_concat_iff.mp hcommits with rfl | hcommits
      · -- all commands on the way belong to the commits before this one
        have hcs' : cs = s.queue ++ P.commands s.env s.pending := by
          rw [List.flatMap_append, ← hsplit, List.append_assoc] at hcs
          simpa using List.append_cancel_left hcs
        rw [hcs', snapshot_concat]
        exact T.leads_commit hl htracks (hleads _ _ (List.prefix_refl _) hsplit)
      · exact hleads _ _ hcommits hcs
    · rw [snapshot_concat]
      exact T.tracks_commit hl htracks
  | @execute c queue hqueue =>
    refine ⟨?_, ?_, htracks⟩
    · rw [← hsplit, hqueue, List.append_assoc]
      rfl
    · intro commits cs hcommits hcs
      rw [List.append_assoc] at hcs
      exact T.leads_execute (hleads _ _ hcommits hcs)
  | render x =>
    exact ⟨hsplit, fun commits cs hcommits hcs => T.leads_render (hleads _ _ hcommits hcs), htracks⟩

/-- After the commands of the first `k` commits, the rendering state agrees with the
pending state at the last of these. -/
theorem leads_run (T : Tracking P mayUpdate mayCommit) {ls : List (Label ω ψ)} {k : Nat}
    (halong : P.machine.Along T.Meets ls) (hrun : P.machine.run ls = some s) (hk : s.HasExecuted k) :
    T.Leads s.env s.rendering [] (P.snapshot (s.commits.take k)) := by
  have hinv : T.Inv s := halong.invariant inv_init (fun _ _ _ hinv hl hstep => hinv.step hl hstep) hrun
  have hpre : s.commits.take k <+: s.commits := List.take_prefix _ _
  apply hinv.leads _ _ hpre
  rw [List.append_nil]
  exact hk.2

end Tracking

end Pipeline
