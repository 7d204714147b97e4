-- SUMMARY: Labelled machines with partial steps, their runs, and the rules for invariants over all runs.
import Mathlib.Data.List.Induction
import Mathlib.Tactic.Push
import Mathlib.Tactic.TypeStar

/-!
# Labelled machines

A machine has one initial state and a step function that may refuse a label.
All nondeterminism of a system, such as the interleaving of its threads, lies in
the choice of the labels, so that a run is a list of labels and can be evaluated.
-/

universe u v

structure Machine (σ : Type u) (ℓ : Type v) where
  init : σ
  /-- `none` when the label is not enabled in the state. -/
  step : σ → ℓ → Option σ

namespace Machine

variable {σ : Type u} {ℓ : Type v}

def runFrom (M : Machine σ ℓ) (s : σ) : List ℓ → Option σ
  | [] => some s
  | l :: ls => (M.step s l).bind fun t => M.runFrom t ls

def run (M : Machine σ ℓ) (ls : List ℓ) : Option σ := M.runFrom M.init ls

/-- Every step of the run `ls` from `s` meets the condition `C` on its state and label. -/
def AlongFrom (M : Machine σ ℓ) (C : σ → ℓ → Prop) (s : σ) : List ℓ → Prop
  | [] => True
  | l :: ls => C s l ∧ match M.step s l with
    | some t => M.AlongFrom C t ls
    | none => True

def Along (M : Machine σ ℓ) (C : σ → ℓ → Prop) (ls : List ℓ) : Prop := M.AlongFrom C M.init ls

instance decidableAlongFrom (M : Machine σ ℓ) (C : σ → ℓ → Prop) [∀ s l, Decidable (C s l)] (s : σ) :
    ∀ ls, Decidable (M.AlongFrom C s ls)
  | [] => isTrue trivial
  | l :: ls =>
    have : Decidable (match M.step s l with
        | some t => M.AlongFrom C t ls
        | none => True) :=
      match M.step s l with
      | some t => decidableAlongFrom M C t ls
      | none => isTrue trivial
    inferInstanceAs (Decidable (C s l ∧ _))

instance (M : Machine σ ℓ) (C : σ → ℓ → Prop) [∀ s l, Decidable (C s l)] (ls : List ℓ) :
    Decidable (M.Along C ls) :=
  inferInstanceAs (Decidable (M.AlongFrom C M.init ls))

/-- `I` holds in every state that the run passes. -/
def AlwaysFrom (M : Machine σ ℓ) (I : σ → Prop) (s : σ) (ls : List ℓ) : Prop :=
  ∀ before t, before <+: ls → M.runFrom s before = some t → I t

def Always (M : Machine σ ℓ) (I : σ → Prop) (ls : List ℓ) : Prop := M.AlwaysFrom I M.init ls

variable {M : Machine σ ℓ}

@[simp] theorem runFrom_nil (s : σ) : M.runFrom s [] = some s := rfl

@[simp] theorem run_nil : M.run [] = some M.init := rfl

theorem runFrom_append (s : σ) (ls ls' : List ℓ) :
    M.runFrom s (ls ++ ls') = (M.runFrom s ls).bind fun t => M.runFrom t ls' := by
  induction ls generalizing s with
  | nil => rfl
  | cons l ls ih =>
    simp only [List.cons_append, runFrom]
    cases M.step s l with
    | none => rfl
    | some t => exact ih t

theorem run_append (ls ls' : List ℓ) :
    M.run (ls ++ ls') = (M.run ls).bind fun t => M.runFrom t ls' :=
  runFrom_append M.init ls ls'

/-- The last step of a run. -/
theorem run_concat {ls : List ℓ} {l : ℓ} {s' : σ} :
    M.run (ls ++ [l]) = some s' ↔ ∃ s, M.run ls = some s ∧ M.step s l = some s' := by
  rw [run_append]
  cases M.run ls with
  | none => simp
  | some s =>
    cases hstep : M.step s l with
    | none => simp [runFrom, hstep]
    | some t => simp [runFrom, hstep]

/-- What holds in a state and is preserved by every step holds after every run from there. -/
theorem runFrom_invariant {I : σ → Prop}
    (hstep : ∀ s l s', I s → M.step s l = some s' → I s') {s t : σ} {ls : List ℓ}
    (hs : I s) (hrun : M.runFrom s ls = some t) : I t := by
  induction ls generalizing s with
  | nil =>
    rw [runFrom_nil, Option.some.injEq] at hrun
    exact hrun ▸ hs
  | cons l ls ih =>
    obtain ⟨s', hs', hrest⟩ := Option.bind_eq_some_iff.mp hrun
    exact ih (hstep s l s' hs hs') hrest

theorem run_invariant {I : σ → Prop} (hinit : I M.init)
    (hstep : ∀ s l s', I s → M.step s l = some s' → I s') {s : σ} {ls : List ℓ}
    (hrun : M.run ls = some s) : I s :=
  runFrom_invariant hstep hinit hrun

theorem AlongFrom.invariant {I : σ → Prop} {C : σ → ℓ → Prop}
    (hstep : ∀ s l s', I s → C s l → M.step s l = some s' → I s') {ls : List ℓ} {s t : σ}
    (hs : I s) (halong : M.AlongFrom C s ls) (hrun : M.runFrom s ls = some t) : I t := by
  induction ls generalizing s with
  | nil =>
    rw [runFrom_nil, Option.some.injEq] at hrun
    exact hrun ▸ hs
  | cons l ls ih =>
    obtain ⟨s', hs', hrest⟩ := Option.bind_eq_some_iff.mp hrun
    obtain ⟨hC, halong⟩ := halong
    rw [hs'] at halong
    exact ih (hstep s l s' hs hC hs') halong hrest

/-- Machines that take the same steps where an invariant holds have the same runs. -/
theorem AlongFrom.runFrom_congr {N : Machine σ ℓ} {I : σ → Prop} {C : σ → ℓ → Prop}
    (hstep : ∀ s l s', I s → C s l → M.step s l = some s' → I s')
    (heq : ∀ s l, I s → N.step s l = M.step s l) {ls : List ℓ} {s : σ}
    (hs : I s) (halong : M.AlongFrom C s ls) : N.runFrom s ls = M.runFrom s ls := by
  induction ls generalizing s with
  | nil => rfl
  | cons l ls ih =>
    obtain ⟨hC, halong⟩ := halong
    rw [runFrom, runFrom, heq s l hs]
    cases hs' : M.step s l with
    | none => rfl
    | some s' =>
      rw [hs'] at halong
      exact ih (hstep s l s' hs hC hs') halong

theorem AlongFrom.mono {C C' : σ → ℓ → Prop} (hC : ∀ s l, C s l → C' s l) {ls : List ℓ} {s : σ}
    (h : M.AlongFrom C s ls) : M.AlongFrom C' s ls := by
  induction ls generalizing s with
  | nil => trivial
  | cons l ls ih =>
    refine ⟨hC s l h.1, ?_⟩
    have hrest := h.2
    cases hstep : M.step s l with
    | none => trivial
    | some t =>
      rw [hstep] at hrest
      exact ih hrest

/-- A condition on the labels alone. -/
theorem alongFrom_of_mem {C : σ → ℓ → Prop} {ls : List ℓ} {s : σ} (h : ∀ l ∈ ls, ∀ t, C t l) :
    M.AlongFrom C s ls := by
  induction ls generalizing s with
  | nil => trivial
  | cons l ls ih =>
    refine ⟨h l List.mem_cons_self s, ?_⟩
    cases M.step s l with
    | none => trivial
    | some t => exact ih fun l hl => h l (List.mem_cons_of_mem _ hl)

/-- A run that meets a condition meets it at each of its steps. -/
theorem Along.at_step {C : σ → ℓ → Prop} {before after : List ℓ} {l : ℓ} {s : σ}
    (halong : M.Along C (before ++ l :: after)) (hrun : M.run before = some s) : C s l := by
  have hfrom : ∀ {t}, M.AlongFrom C t (before ++ l :: after) → M.runFrom t before = some s → C s l := by
    clear halong hrun
    induction before with
    | nil =>
      intro t halong hrun
      exact Option.some.inj hrun ▸ halong.1
    | cons l' before ih =>
      intro t halong hrun
      obtain ⟨t', ht', hrest⟩ := Option.bind_eq_some_iff.mp hrun
      have hnext := halong.2
      rw [ht'] at hnext
      exact ih hnext hrest
  exact hfrom halong hrun

/-- The invariant rule for runs whose steps all meet a condition. -/
theorem Along.invariant {I : σ → Prop} {C : σ → ℓ → Prop} (hinit : I M.init)
    (hstep : ∀ s l s', I s → C s l → M.step s l = some s' → I s') {ls : List ℓ} {s : σ}
    (halong : M.Along C ls) (hrun : M.run ls = some s) : I s :=
  AlongFrom.invariant hstep hinit halong hrun

theorem alwaysFrom_cons {I : σ → Prop} {s s' : σ} {l : ℓ} {ls : List ℓ} (hstep : M.step s l = some s') :
    M.AlwaysFrom I s (l :: ls) ↔ I s ∧ M.AlwaysFrom I s' ls := by
  constructor
  · intro h
    refine ⟨h [] s List.nil_prefix rfl, fun before t hbefore hrun => ?_⟩
    have hrun' : M.runFrom s (l :: before) = some t := by rw [runFrom, hstep, Option.bind_some, hrun]
    exact h (l :: before) t ((List.prefix_cons_inj l).mpr hbefore) hrun'
  · rintro ⟨hs, h⟩ before t hbefore hrun
    cases before with
    | nil => exact Option.some.inj hrun ▸ hs
    | cons l' before =>
      obtain ⟨rfl, hrest⟩ := List.cons_prefix_cons.mp hbefore
      rw [runFrom, hstep, Option.bind_some] at hrun
      exact h before t hrest hrun

/-- Where a condition on a step decides whether it keeps `I`, the condition on the steps of
a run decides whether `I` always holds. `J` need only be kept as long as `I` is. -/
theorem alwaysFrom_iff_alongFrom {J I : σ → Prop} {C : σ → ℓ → Prop}
    (hJ : ∀ s l s', J s → I s → M.step s l = some s' → I s' → J s')
    (hstep : ∀ s l s', J s → I s → M.step s l = some s' → (I s' ↔ C s l)) {ls : List ℓ} {s t : σ}
    (hs : J s) (hI : I s) (hrun : M.runFrom s ls = some t) :
    M.AlwaysFrom I s ls ↔ M.AlongFrom C s ls := by
  induction ls generalizing s with
  | nil =>
    refine iff_of_true (fun before t hbefore hrun => ?_) trivial
    rw [List.prefix_nil.mp hbefore] at hrun
    exact Option.some.inj hrun ▸ hI
  | cons l ls ih =>
    obtain ⟨s', hs', hrest⟩ := Option.bind_eq_some_iff.mp hrun
    have hkeeps := hstep s l s' hs hI hs'
    rw [alwaysFrom_cons hs', AlongFrom, hs']
    constructor
    · rintro ⟨-, h⟩
      have hI' : I s' := h [] s' List.nil_prefix rfl
      exact ⟨hkeeps.mp hI', (ih (hJ s l s' hs hI hs' hI') hI' hrest).mp h⟩
    · rintro ⟨hC, h⟩
      have hI' : I s' := hkeeps.mpr hC
      exact ⟨hI, (ih (hJ s l s' hs hI hs' hI') hI' hrest).mpr h⟩

theorem always_iff_along {J I : σ → Prop} {C : σ → ℓ → Prop} (hinit : J M.init) (hI : I M.init)
    (hJ : ∀ s l s', J s → I s → M.step s l = some s' → I s' → J s')
    (hstep : ∀ s l s', J s → I s → M.step s l = some s' → (I s' ↔ C s l)) {ls : List ℓ} {s : σ}
    (hrun : M.run ls = some s) : M.Always I ls ↔ M.Along C ls :=
  alwaysFrom_iff_alongFrom hJ hstep hinit hI hrun

-- ---------------------------------------------------------------------------
-- Settling
-- ---------------------------------------------------------------------------

/-- When the steps of one kind lower a measure, a run of them is no longer than that. -/
theorem length_le_of_measure {I : σ → Prop} {P : ℓ → Prop} {m : σ → Nat}
    (hstep : ∀ s l s', I s → P l → M.step s l = some s' → I s' ∧ m s' < m s) {ls : List ℓ} {s t : σ}
    (hs : I s) (hP : ∀ l ∈ ls, P l) (hrun : M.runFrom s ls = some t) : ls.length ≤ m s := by
  induction ls generalizing s with
  | nil => exact Nat.zero_le _
  | cons l ls ih =>
    obtain ⟨s', hs', hrest⟩ := Option.bind_eq_some_iff.mp hrun
    obtain ⟨hI, hlt⟩ := hstep s l s' hs (hP l List.mem_cons_self) hs'
    have hle := ih hI (fun l hl => hP l (List.mem_cons_of_mem _ hl)) hrest
    rw [List.length_cons]
    omega

/-- The same when other steps come in between that do not raise the measure. -/
theorem AlongFrom.countP_le_of_measure {I : σ → Prop} {P : ℓ → Bool} {C : σ → ℓ → Prop} {m : σ → Nat}
    (hstep : ∀ s l s', I s → C s l → M.step s l = some s' → I s' ∧ m s' + (P l).toNat ≤ m s)
    {ls : List ℓ} {s t : σ} (hs : I s) (halong : M.AlongFrom C s ls) (hrun : M.runFrom s ls = some t) :
    I t ∧ m t + ls.countP P ≤ m s := by
  induction ls generalizing s with
  | nil =>
    rw [runFrom_nil, Option.some.injEq] at hrun
    subst hrun
    exact ⟨hs, Nat.le_refl _⟩
  | cons l ls ih =>
    obtain ⟨s', hs', hrest⟩ := Option.bind_eq_some_iff.mp hrun
    obtain ⟨hC, halong⟩ := halong
    rw [hs'] at halong
    obtain ⟨hI, hle⟩ := hstep s l s' hs hC hs'
    obtain ⟨ht, hlast⟩ := ih hI halong hrest
    refine ⟨ht, ?_⟩
    have hcount : (l :: ls).countP P = ls.countP P + (P l).toNat := by
      rw [List.countP_cons]
      cases P l with
      | true => rfl
      | false => rfl
    omega

theorem countP_le_of_measure {I : σ → Prop} {P : ℓ → Bool} {Q : ℓ → Prop} {m : σ → Nat}
    (hstep : ∀ s l s', I s → Q l → M.step s l = some s' → I s' ∧ m s' + (P l).toNat ≤ m s)
    {ls : List ℓ} {s t : σ} (hs : I s) (hQ : ∀ l ∈ ls, Q l) (hrun : M.runFrom s ls = some t) :
    I t ∧ m t + ls.countP P ≤ m s :=
  AlongFrom.countP_le_of_measure (C := fun _ => Q) hstep hs (alongFrom_of_mem fun l hl _ => hQ l hl) hrun

/-- Such steps lead to a state in which none of them is enabled. -/
theorem exists_settled {I : σ → Prop} {P : ℓ → Prop} {m : σ → Nat}
    (hstep : ∀ s l s', I s → P l → M.step s l = some s' → I s' ∧ m s' < m s) {s : σ} (hs : I s) :
    ∃ ls t, (∀ l ∈ ls, P l) ∧ M.runFrom s ls = some t ∧ ∀ l, P l → M.step t l = none := by
  induction hn : m s using Nat.strongRecOn generalizing s with
  | ind n ih =>
    by_cases hsettled : ∀ l, P l → M.step s l = none
    · exact ⟨[], s, nofun, rfl, hsettled⟩
    · push Not at hsettled
      obtain ⟨l, hl, henabled⟩ := hsettled
      obtain ⟨s', hs'⟩ := Option.ne_none_iff_exists'.mp henabled
      obtain ⟨hI, hlt⟩ := hstep s l s' hs hl hs'
      obtain ⟨ls, t, hls, hrun, ht⟩ := ih (m s') (hn ▸ hlt) hI rfl
      refine ⟨l :: ls, t, ?_, ?_, ht⟩
      · intro l' hl'
        rcases List.mem_cons.mp hl' with rfl | hl'
        · exact hl
        · exact hls l' hl'
      · rw [runFrom, hs', Option.bind_some, hrun]

/-- The same for steps that are given by a condition on state and label. -/
theorem exists_settledAlong {I : σ → Prop} {C : σ → ℓ → Prop} {m : σ → Nat}
    (hstep : ∀ s l s', I s → C s l → M.step s l = some s' → I s' ∧ m s' < m s) {s : σ} (hs : I s) :
    ∃ ls t, M.AlongFrom C s ls ∧ M.runFrom s ls = some t ∧ I t ∧ ∀ l, C t l → M.step t l = none := by
  induction hn : m s using Nat.strongRecOn generalizing s with
  | ind n ih =>
    by_cases hsettled : ∀ l, C s l → M.step s l = none
    · exact ⟨[], s, trivial, rfl, hs, hsettled⟩
    · push Not at hsettled
      obtain ⟨l, hl, henabled⟩ := hsettled
      obtain ⟨s', hs'⟩ := Option.ne_none_iff_exists'.mp henabled
      obtain ⟨hI, hlt⟩ := hstep s l s' hs hl hs'
      obtain ⟨ls, t, hls, hrun, ht⟩ := ih (m s') (hn ▸ hlt) hI rfl
      refine ⟨l :: ls, t, ⟨hl, ?_⟩, ?_, ht⟩
      · rw [hs']
        exact hls
      · rw [runFrom, hs', Option.bind_some, hrun]

-- ---------------------------------------------------------------------------
-- Simulation
-- ---------------------------------------------------------------------------

variable {σ' : Type*} {κ : Type*}

/-- What a run shows of itself, where `f` tells what a step shows. -/
def observedFrom (M : Machine σ ℓ) (f : σ → ℓ → List κ) (s : σ) : List ℓ → List κ
  | [] => []
  | l :: ls => f s l ++ match M.step s l with
    | some t => M.observedFrom f t ls
    | none => []

def observed (M : Machine σ ℓ) (f : σ → ℓ → List κ) (ls : List ℓ) : List κ :=
  M.observedFrom f M.init ls

/-- When another machine can follow each step by what the step shows, it can follow every run. -/
theorem runFrom_simulated {N : Machine σ' κ} {R : σ → σ' → Prop} {f : σ → ℓ → List κ}
    (hstep : ∀ s l s' a, R s a → M.step s l = some s' → ∃ a', N.runFrom a (f s l) = some a' ∧ R s' a')
    {ls : List ℓ} {s t : σ} {a : σ'} (hs : R s a) (hrun : M.runFrom s ls = some t) :
    ∃ b, N.runFrom a (M.observedFrom f s ls) = some b ∧ R t b := by
  induction ls generalizing s a with
  | nil =>
    rw [runFrom_nil, Option.some.injEq] at hrun
    exact ⟨a, rfl, hrun ▸ hs⟩
  | cons l ls ih =>
    obtain ⟨s', hs', hrest⟩ := Option.bind_eq_some_iff.mp hrun
    obtain ⟨a', ha', hR⟩ := hstep s l s' a hs hs'
    obtain ⟨b, hb, hRb⟩ := ih hR hrest
    refine ⟨b, ?_, hRb⟩
    rw [observedFrom, hs', runFrom_append, ha']
    exact hb

theorem run_simulated {N : Machine σ' κ} {R : σ → σ' → Prop} {f : σ → ℓ → List κ}
    (hinit : R M.init N.init)
    (hstep : ∀ s l s' a, R s a → M.step s l = some s' → ∃ a', N.runFrom a (f s l) = some a' ∧ R s' a')
    {ls : List ℓ} {s : σ} (hrun : M.run ls = some s) :
    ∃ a, N.run (M.observed f ls) = some a ∧ R s a :=
  runFrom_simulated hstep hinit hrun

/-- The rule for an observer, who takes in what the steps show. -/
theorem runFrom_observed {α : Type*} {R : σ → α → Prop} {f : σ → ℓ → List κ} {g : α → κ → α}
    (hstep : ∀ s l s' a, R s a → M.step s l = some s' → R s' ((f s l).foldl g a))
    {ls : List ℓ} {s t : σ} {a : α} (hs : R s a) (hrun : M.runFrom s ls = some t) :
    R t ((M.observedFrom f s ls).foldl g a) := by
  induction ls generalizing s a with
  | nil =>
    rw [runFrom_nil, Option.some.injEq] at hrun
    exact hrun ▸ hs
  | cons l ls ih =>
    obtain ⟨s', hs', hrest⟩ := Option.bind_eq_some_iff.mp hrun
    rw [observedFrom, hs', List.foldl_append]
    exact ih (hstep s l s' a hs hs') hrest

theorem run_observed {α : Type*} {R : σ → α → Prop} {f : σ → ℓ → List κ} {g : α → κ → α} {a : α}
    (hinit : R M.init a)
    (hstep : ∀ s l s' a, R s a → M.step s l = some s' → R s' ((f s l).foldl g a))
    {ls : List ℓ} {s : σ} (hrun : M.run ls = some s) : R s ((M.observed f ls).foldl g a) :=
  runFrom_observed hstep hinit hrun

-- ---------------------------------------------------------------------------
-- Unwinding
-- ---------------------------------------------------------------------------

/-- When the steps outside of `P` change nothing that another state is compared by, and the
other state can take each step in `P` as well, a run compares as its steps in `P` alone do.
`R` may speak of the steps that are left. -/
theorem runFrom_filter {R : List ℓ → σ → σ → Prop} {P : ℓ → Bool}
    (houtside : ∀ l ls s s' t, R (l :: ls) s t → P l = false → M.step s l = some s' → R ls s' t)
    (hinside : ∀ l ls s s' t, R (l :: ls) s t → P l → M.step s l = some s' →
      ∃ t', M.step t l = some t' ∧ R ls s' t')
    {ls : List ℓ} {s s' t : σ} (hs : R ls s t) (hrun : M.runFrom s ls = some s') :
    ∃ t', M.runFrom t (ls.filter P) = some t' ∧ R [] s' t' := by
  induction ls generalizing s t with
  | nil =>
    cases hrun
    exact ⟨t, rfl, hs⟩
  | cons l ls ih =>
    obtain ⟨s₁, hs₁, hrest⟩ := Option.bind_eq_some_iff.mp hrun
    cases hP : P l with
    | false =>
      rw [List.filter_cons_of_neg (by simp [hP])]
      exact ih (houtside l ls s s₁ t hs hP hs₁) hrest
    | true =>
      obtain ⟨t₁, ht₁, hR⟩ := hinside l ls s s₁ t hs hP hs₁
      obtain ⟨t', hrun', hR'⟩ := ih hR hrest
      refine ⟨t', ?_, hR'⟩
      rw [List.filter_cons_of_pos hP, runFrom, ht₁, Option.bind_some, hrun']

end Machine
