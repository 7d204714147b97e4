-- SUMMARY: The container for traversals with its threads: each locked section of its methods is a step.
import Mathlib.Logic.Function.Basic
import ZenRemote.Client.ResourceContainer
import ZenRemote.Lib.Machine

/-!
# Runs of a container

`ForEach` takes the write lock for two sections, each under a mutex of its own, and then
the read lock for the traversal. `Get` searches the new resources under their mutex, and
the others under the read lock. Any number of threads are in these methods, and
additions and removals come in between any two sections.
-/

namespace ZenRemote.Client.LoopContainer

universe u

/-- What had been added, and what had been scheduled for removal. -/
structure Mark where
  added : List (UInt64 × Nat)
  scheduled : List UInt64
  deriving DecidableEq, Repr

/-- Where a thread is, with the mark of the start of the call it is in. -/
inductive Place where
  | outside
  /-- In `ForEach`, with the write lock, between the two sections under it. -/
  | merged (start : Mark)
  /-- In `ForEach`, between the locks. -/
  | applied (start : Mark)
  /-- In `ForEach`, with the read lock, after so many calls of the function. -/
  | traversing (start : Mark) (visited : List (UInt64 × Nat))
  /-- In `Get`, which has not found the id among the new resources. -/
  | searchedNew (start : Mark) (id : UInt64)
  deriving DecidableEq, Repr

/-- A `ForEach` that has returned, with the resources that the function was called on. -/
structure Traversal where
  start : Mark
  finish : Mark
  visited : List (UInt64 × Nat)
  deriving DecidableEq, Repr

/-- A `Get` that has returned. -/
structure Lookup where
  start : Mark
  finish : Mark
  id : UInt64
  result : Except Fault (Option Nat)

/-- The container with the holders of `resources_lock_`, and its threads. The last
fields record the calls. -/
structure State (τ : Type u) where
  container : LoopContainer := {}
  writer : Option τ := none
  readers : List τ := []
  places : τ → Place := fun _ => .outside
  added : List (UInt64 × Nat) := []
  scheduled : List UInt64 := []
  traversals : List Traversal := []
  lookups : List Lookup := []

inductive Label (τ : Type u) where
  | add (id : UInt64) (a : Nat)
  | scheduleRemove (id : UInt64)
  /-- `ForEach` locks for writing, and does its first section. -/
  | merge (t : τ)
  /-- `ForEach` does its second section, and unlocks. -/
  | applyRemovals (t : τ)
  /-- `ForEach` locks for reading. -/
  | traverse (t : τ)
  /-- `ForEach` calls the function, or is at the end and unlocks. -/
  | visit (t : τ)
  | searchNew (t : τ) (id : UInt64)
  | searchResources (t : τ)
  deriving DecidableEq

/-- The second search of `Get`. -/
def searchResources (c : LoopContainer) (id : UInt64) : Except Fault (Option Nat) :=
  match c.resources.find? fun e => e.1 = id with
  | some e => .ok (some e.2)
  | none => if c.resourcesAllocated || c.newResourcesAllocated then .error .endIterator else .ok none

theorem get_eq_searchResources {c : LoopContainer} {id : UInt64}
    (h : (c.newResources.find? fun e => e.1 = id) = none) : c.get id = c.searchResources id := by
  rw [get, h]
  rfl

namespace State

variable {τ : Type u} [DecidableEq τ]

def mark (s : State τ) : Mark := ⟨s.added, s.scheduled⟩

def move (s : State τ) (t : τ) (place : Place) : State τ :=
  { s with places := Function.update s.places t place }

def merge (s : State τ) (t : τ) : Option (State τ) :=
  match s.places t with
  | .outside =>
    if s.writer = none ∧ s.readers = [] then
      some { s.move t (.merged s.mark) with container := s.container.mergeNew, writer := some t }
    else none
  | _ => none

def applyRemovals (s : State τ) (t : τ) : Option (State τ) :=
  match s.places t with
  | .merged start =>
    some { s.move t (.applied start) with container := s.container.applyRemovals, writer := none }
  | _ => none

def traverse (s : State τ) (t : τ) : Option (State τ) :=
  match s.places t with
  | .applied start =>
    if s.writer = none then some { s.move t (.traversing start []) with readers := t :: s.readers }
    else none
  | _ => none

def visit (s : State τ) (t : τ) : Option (State τ) :=
  match s.places t with
  | .traversing start visited =>
    match s.container.resources[visited.length]? with
    | some e => some (s.move t (.traversing start (visited ++ [e])))
    | none => some { s.move t .outside with
        readers := s.readers.erase t
        traversals := s.traversals ++ [⟨start, s.mark, visited⟩] }
  | _ => none

def searchNew (s : State τ) (t : τ) (id : UInt64) : Option (State τ) :=
  match s.places t with
  | .outside =>
    match s.container.newResources.find? fun e => e.1 = id with
    | some e => some { s with lookups := s.lookups ++ [⟨s.mark, s.mark, id, .ok (some e.2)⟩] }
    | none => some (s.move t (.searchedNew s.mark id))
  | _ => none

def searchResources (s : State τ) (t : τ) : Option (State τ) :=
  match s.places t with
  | .searchedNew start id =>
    if s.writer = none then
      some { s.move t .outside with
        lookups := s.lookups ++ [⟨start, s.mark, id, s.container.searchResources id⟩] }
    else none
  | _ => none

def step (s : State τ) : Label τ → Option (State τ)
  | .add id a => some { s with container := s.container.add id a, added := s.added ++ [(id, a)] }
  | .scheduleRemove id => some { s with
      container := s.container.scheduleRemove id
      scheduled := s.scheduled ++ [id] }
  | .merge t => s.merge t
  | .applyRemovals t => s.applyRemovals t
  | .traverse t => s.traverse t
  | .visit t => s.visit t
  | .searchNew t id => s.searchNew t id
  | .searchResources t => s.searchResources t

end State

def machine (τ : Type u) [DecidableEq τ] : Machine (State τ) (Label τ) where
  init := {}
  step := State.step

variable {τ : Type u} [DecidableEq τ]

/-- All that a step can do, with what it has checked. -/
inductive Stepped (s : State τ) : Label τ → State τ → Prop
  | add (id : UInt64) (a : Nat) : Stepped s (.add id a)
      { s with container := s.container.add id a, added := s.added ++ [(id, a)] }
  | scheduleRemove (id : UInt64) : Stepped s (.scheduleRemove id)
      { s with container := s.container.scheduleRemove id, scheduled := s.scheduled ++ [id] }
  | merge {t : τ} (hplace : s.places t = .outside) (hwriter : s.writer = none)
      (hreaders : s.readers = []) : Stepped s (.merge t)
      { s.move t (.merged s.mark) with container := s.container.mergeNew, writer := some t }
  | applyRemovals {t : τ} {start : Mark} (hplace : s.places t = .merged start) :
      Stepped s (.applyRemovals t)
      { s.move t (.applied start) with container := s.container.applyRemovals, writer := none }
  | traverse {t : τ} {start : Mark} (hplace : s.places t = .applied start)
      (hwriter : s.writer = none) : Stepped s (.traverse t)
      { s.move t (.traversing start []) with readers := t :: s.readers }
  | visit {t : τ} {start : Mark} {visited : List (UInt64 × Nat)} {e : UInt64 × Nat}
      (hplace : s.places t = .traversing start visited)
      (hnext : s.container.resources[visited.length]? = some e) :
      Stepped s (.visit t) (s.move t (.traversing start (visited ++ [e])))
  | finish {t : τ} {start : Mark} {visited : List (UInt64 × Nat)}
      (hplace : s.places t = .traversing start visited)
      (hend : s.container.resources[visited.length]? = none) : Stepped s (.visit t)
      { s.move t .outside with
        readers := s.readers.erase t
        traversals := s.traversals ++ [⟨start, s.mark, visited⟩] }
  | foundNew {t : τ} {id : UInt64} {e : UInt64 × Nat} (hplace : s.places t = .outside)
      (hfind : (s.container.newResources.find? fun e => e.1 = id) = some e) :
      Stepped s (.searchNew t id)
      { s with lookups := s.lookups ++ [⟨s.mark, s.mark, id, .ok (some e.2)⟩] }
  | searchNew {t : τ} {id : UInt64} (hplace : s.places t = .outside)
      (hfind : (s.container.newResources.find? fun e => e.1 = id) = none) :
      Stepped s (.searchNew t id) (s.move t (.searchedNew s.mark id))
  | searchResources {t : τ} {start : Mark} {id : UInt64} (hplace : s.places t = .searchedNew start id)
      (hwriter : s.writer = none) : Stepped s (.searchResources t)
      { s.move t .outside with
        lookups := s.lookups ++ [⟨start, s.mark, id, s.container.searchResources id⟩] }

theorem step_cases {s s' : State τ} {l : Label τ} (hstep : s.step l = some s') : Stepped s l s' := by
  cases l with
  | add id a =>
    cases hstep
    exact .add id a
  | scheduleRemove id =>
    cases hstep
    exact .scheduleRemove id
  | merge t =>
    rw [State.step, State.merge] at hstep
    split at hstep
    · rename_i hplace
      split at hstep
      · rename_i hfree
        cases hstep
        exact .merge hplace hfree.1 hfree.2
      · contradiction
    · contradiction
  | applyRemovals t =>
    rw [State.step, State.applyRemovals] at hstep
    split at hstep
    · rename_i hplace
      cases hstep
      exact .applyRemovals hplace
    · contradiction
  | traverse t =>
    rw [State.step, State.traverse] at hstep
    split at hstep
    · rename_i hplace
      split at hstep
      · rename_i hwriter
        cases hstep
        exact .traverse hplace hwriter
      · contradiction
    · contradiction
  | visit t =>
    rw [State.step, State.visit] at hstep
    split at hstep
    · rename_i hplace
      split at hstep
      · rename_i hnext
        cases hstep
        exact .visit hplace hnext
      · rename_i hend
        cases hstep
        exact .finish hplace hend
    · contradiction
  | searchNew t id =>
    rw [State.step, State.searchNew] at hstep
    split at hstep
    · rename_i hplace
      split at hstep
      · rename_i hfind
        cases hstep
        exact .foundNew hplace hfind
      · rename_i hfind
        cases hstep
        exact .searchNew hplace hfind
    · contradiction
  | searchResources t =>
    rw [State.step, State.searchResources] at hstep
    split at hstep
    · rename_i hplace
      split at hstep
      · rename_i hwriter
        cases hstep
        exact .searchResources hplace hwriter
      · contradiction
    · contradiction

/-- A `Get` that no other thread comes in between returns what `LoopContainer.get` does. -/
theorem exists_get {s : State τ} {t : τ} (id : UInt64) (hplace : s.places t = .outside)
    (hwriter : s.writer = none) :
    ∃ ls s', (ls = [.searchNew t id] ∨ ls = [.searchNew t id, .searchResources t]) ∧
      (machine τ).runFrom s ls = some s' ∧ s'.container = s.container ∧ s'.places t = .outside ∧
      s'.lookups = s.lookups ++ [⟨s.mark, s.mark, id, s.container.get id⟩] := by
  cases hfind : s.container.newResources.find? fun e => e.1 = id with
  | some e =>
    refine ⟨_, { s with lookups := s.lookups ++ [⟨s.mark, s.mark, id, .ok (some e.2)⟩] }, .inl rfl, ?_, rfl,
      hplace, ?_⟩
    · simp only [Machine.runFrom, machine, State.step, State.searchNew, hplace, hfind, Option.bind_some]
    · rw [LoopContainer.get, hfind]
  | none =>
    refine ⟨_, { (s.move t (.searchedNew s.mark id)).move t .outside with
      lookups := s.lookups ++ [⟨s.mark, s.mark, id, s.container.searchResources id⟩] }, .inr rfl, ?_, rfl,
      Function.update_self .., ?_⟩
    · simp only [Machine.runFrom, machine, State.step, State.searchNew, hplace, hfind, Option.bind_some,
        State.searchResources, State.move, Function.update_self, hwriter, if_true]
      rfl
    · rw [get_eq_searchResources hfind]

/-- An added resource has an id of its own. -/
def FreshId (s : State τ) : Label τ → Prop
  | .add id _ => id ∉ s.added.map Prod.fst
  | .scheduleRemove _ => True
  | .merge _ => True
  | .applyRemovals _ => True
  | .traverse _ => True
  | .visit _ => True
  | .searchNew _ _ => True
  | .searchResources _ => True

instance (s : State τ) : ∀ l, Decidable (FreshId s l)
  | .add id _ => inferInstanceAs (Decidable (id ∉ s.added.map Prod.fst))
  | .scheduleRemove _ => inferInstanceAs (Decidable True)
  | .merge _ => inferInstanceAs (Decidable True)
  | .applyRemovals _ => inferInstanceAs (Decidable True)
  | .traverse _ => inferInstanceAs (Decidable True)
  | .visit _ => inferInstanceAs (Decidable True)
  | .searchNew _ _ => inferInstanceAs (Decidable True)
  | .searchResources _ => inferInstanceAs (Decidable True)

theorem nodup_ids_add {added : List (UInt64 × Nat)} (hids : (added.map Prod.fst).Nodup) {id : UInt64}
    (hfresh : id ∉ added.map Prod.fst) (a : Nat) : ((added ++ [(id, a)]).map Prod.fst).Nodup := by
  rw [List.map_append]
  exact hids.append (List.nodup_singleton id) (List.disjoint_singleton.mpr hfresh)

-- ---------------------------------------------------------------------------
-- Lookups in between
-- ---------------------------------------------------------------------------

/-- The new resources have a storage as soon as something was added. -/
structure Allocated (s : State τ) : Prop where
  newResources : s.container.newResourcesAllocated = true ↔ s.added ≠ []
  resources : s.container.resourcesAllocated = true → s.added ≠ []
  owned : s.container.owned ≠ [] → s.added ≠ []

theorem Allocated.step {s s' : State τ} {l : Label τ} (h : Allocated s) (hstep : s.step l = some s') :
    Allocated s' := by
  obtain ⟨hnew, hresources, howned⟩ := h
  cases step_cases hstep with
  | add id a => exact ⟨by simp [LoopContainer.add], by simp, by simp⟩
  | merge hplace hwriter hreaders =>
    refine ⟨hnew, fun hallocated => ?_, ?_⟩
    · rcases Bool.or_eq_true_iff.mp hallocated with hold | hmoved
      · exact hresources hold
      · exact howned (of_decide_eq_true hmoved)
    · show s.container.owned ++ [] ≠ [] → _
      rwa [List.append_nil]
  | applyRemovals hplace =>
    refine ⟨hnew, hresources, fun hrest => howned fun hnone => hrest ?_⟩
    obtain ⟨hold, hnew⟩ := List.append_eq_nil_iff.mp hnone
    show s.container.resources.filter _ ++ s.container.newResources = []
    rw [hold, hnew]
    rfl
  | scheduleRemove id => exact ⟨hnew, hresources, howned⟩
  | traverse hplace hwriter => exact ⟨hnew, hresources, howned⟩
  | visit hplace hnext => exact ⟨hnew, hresources, howned⟩
  | finish hplace hend => exact ⟨hnew, hresources, howned⟩
  | foundNew hplace hfind => exact ⟨hnew, hresources, howned⟩
  | searchNew hplace hfind => exact ⟨hnew, hresources, howned⟩
  | searchResources hplace hwriter => exact ⟨hnew, hresources, howned⟩

/-- `Get` answers as it has to in exactly the states in which there is a resource with
the id, or in which nothing was ever added. -/
theorem answers_iff_run {ls : List (Label τ)} {s : State τ} (hrun : (machine τ).run ls = some s)
    (id : UInt64) :
    s.container.Answers id ↔ (∃ e ∈ s.container.owned, e.1 = id) ∨ s.added = [] := by
  have hallocated : Allocated s :=
    Machine.run_invariant ⟨by simp [machine], by simp [machine], by simp [machine, owned]⟩
      (fun _ _ _ h hstep => h.step hstep) hrun
  have hunallocated : (s.container.resourcesAllocated || s.container.newResourcesAllocated) = false ↔
      s.added = [] := by
    rw [Bool.or_eq_false_iff]
    constructor
    · intro hnone
      by_contra hadded
      have hnew := hallocated.newResources.mpr hadded
      rw [hnone.2] at hnew
      cases hnew
    · intro hadded
      refine ⟨Bool.eq_false_iff.mpr fun h => ?_, Bool.eq_false_iff.mpr fun h => ?_⟩
      · exact hallocated.resources h hadded
      · exact hallocated.newResources.mp h hadded
  rw [answers_iff, hunallocated]

/-- A resource is added, and traversed once. -/
def traversedOnce : List (Label Unit) :=
  [.add 7 0, .merge (), .applyRemovals (), .traverse (), .visit (), .visit ()]

theorem answers_iff_traversedOnce : ∃ s, (machine Unit).run traversedOnce = some s ∧
    (s.container.Answers 7 ↔ (∃ e ∈ s.container.owned, e.1 = 7) ∨ s.added = []) := by
  obtain ⟨s, hs⟩ : ∃ s, (machine Unit).run traversedOnce = some s := ⟨_, rfl⟩
  exact ⟨s, hs, answers_iff_run hs 7⟩

/-- For an id that it does not hold, the container dereferences an end. -/
theorem not_answers_traversedOnce : ¬ ∀ (ls : List (Label Unit)) (s : State Unit) (id : UInt64),
    (machine Unit).run ls = some s → s.container.Answers id := by
  intro h
  exact h traversedOnce _ 8 rfl

end ZenRemote.Client.LoopContainer
