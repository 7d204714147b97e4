-- SUMMARY: The containers of the resource pool, with the pointers that a lookup gives.
import ZenRemote.Lib.AssocList
import ZenRemote.Lib.Heap

/-!
# Resource containers

A container owns resources, here by their addresses. One type of container is a
map. The other is made for traversal: additions and removals wait in buffers of
their own until the next traversal.
-/

namespace ZenRemote.Client

/-- Undefined behaviour. -/
inductive Fault where
  /-- An empty `std::shared_ptr` is dereferenced. -/
  | nullPointer
  /-- The end of a vector is dereferenced. -/
  | endIterator
  /-- A dangling pointer is dereferenced. -/
  | useAfterFree
  /-- More bytes are read than a request field holds. -/
  | overread
  deriving DecidableEq, Repr

/-- `ResourceContainer` for `kLoopIntensive`. A vector has a storage, and its end
is not null, once it has had to hold an element. -/
structure LoopContainer where
  resources : List (UInt64 × Nat) := []
  resourcesAllocated : Bool := false
  newResources : List (UInt64 × Nat) := []
  newResourcesAllocated : Bool := false
  removeSet : List UInt64 := []
  deriving DecidableEq, Repr

namespace LoopContainer

def add (c : LoopContainer) (id : UInt64) (a : Nat) : LoopContainer :=
  { c with newResources := c.newResources ++ [(id, a)], newResourcesAllocated := true }

def get (c : LoopContainer) (id : UInt64) : Except Fault (Option Nat) :=
  match c.newResources.find? fun e => e.1 = id with
  | some e => .ok (some e.2)
  | none =>
    match c.resources.find? fun e => e.1 = id with
    | some e => .ok (some e.2)
    | none =>
      -- the end of `resources_` is compared with the end of `new_resources_`
      if c.resourcesAllocated || c.newResourcesAllocated then .error .endIterator else .ok none

def scheduleRemove (c : LoopContainer) (id : UInt64) : LoopContainer :=
  { c with removeSet := c.removeSet.insert id }

/-- All that it owns. -/
def owned (c : LoopContainer) : List (UInt64 × Nat) := c.resources ++ c.newResources

/-- What `ForEach` does before it calls its argument, if nothing gets between its two
sections. -/
def applyChanges (c : LoopContainer) : LoopContainer where
  resources := c.owned.filter fun e => e.1 ∉ c.removeSet
  resourcesAllocated := c.resourcesAllocated || c.owned ≠ []
  newResourcesAllocated := c.newResourcesAllocated

/-- The section of `ForEach` under `new_resources_mtx_`. -/
def mergeNew (c : LoopContainer) : LoopContainer :=
  { c with
    resources := c.owned
    resourcesAllocated := c.resourcesAllocated || c.owned ≠ []
    newResources := [] }

/-- The section of `ForEach` under `remove_set_mtx_`. -/
def applyRemovals (c : LoopContainer) : LoopContainer :=
  { c with resources := c.resources.filter fun e => e.1 ∉ c.removeSet, removeSet := [] }

theorem applyChanges_eq (c : LoopContainer) : c.applyChanges = c.mergeNew.applyRemovals := rfl

/-- What the section under `remove_set_mtx_` removes. -/
def removed (c : LoopContainer) : List (UInt64 × Nat) := c.resources.filter fun e => e.1 ∈ c.removeSet

theorem get_eq_ok_some {c : LoopContainer} {id : UInt64} {a : Nat} (h : c.get id = .ok (some a)) :
    (id, a) ∈ c.owned := by
  unfold get at h
  split at h
  · rename_i e he
    cases h
    have hid := List.find?_some he
    have hmem := List.mem_of_find?_eq_some he
    rw [decide_eq_true_eq] at hid
    exact List.mem_append_right _ (hid ▸ hmem)
  · split at h
    · rename_i e he
      cases h
      have hid := List.find?_some he
      have hmem := List.mem_of_find?_eq_some he
      rw [decide_eq_true_eq] at hid
      exact List.mem_append_left _ (hid ▸ hmem)
    · split at h
      · cases h
      · cases h

theorem exists_get_of_mem {c : LoopContainer} {id : UInt64} (h : ∃ e ∈ c.owned, e.1 = id) :
    ∃ a, c.get id = .ok (some a) := by
  unfold get
  split
  · exact ⟨_, rfl⟩
  · rename_i hnew
    split
    · exact ⟨_, rfl⟩
    · rename_i hold
      obtain ⟨e, hmem, hid⟩ := h
      cases List.mem_append.mp hmem with
      | inl hmem => exact absurd (decide_eq_true hid) (List.find?_eq_none.mp hold e hmem)
      | inr hmem => exact absurd (decide_eq_true hid) (List.find?_eq_none.mp hnew e hmem)

/-- What `Get` has to give: a resource with the id, or an empty pointer if there is none. -/
def Answers (c : LoopContainer) (id : UInt64) : Prop :=
  match c.get id with
  | .ok (some a) => (id, a) ∈ c.owned
  | .ok none => ∀ e ∈ c.owned, e.1 ≠ id
  | .error _ => False

/-- Where no resource has the id, `Get` does well to find no storage either. -/
theorem answers_iff (c : LoopContainer) (id : UInt64) : c.Answers id ↔
    (∃ e ∈ c.owned, e.1 = id) ∨ (c.resourcesAllocated || c.newResourcesAllocated) = false := by
  unfold Answers
  cases hget : c.get id with
  | ok found =>
    cases found with
    | some a =>
      have hmem := get_eq_ok_some hget
      exact iff_of_true hmem (.inl ⟨_, hmem, rfl⟩)
    | none =>
      have hnone : ∀ e ∈ c.owned, e.1 ≠ id := by
        intro e he hid
        obtain ⟨a, ha⟩ := exists_get_of_mem ⟨e, he, hid⟩
        rw [hget] at ha
        cases ha
      refine iff_of_true hnone (.inr ?_)
      unfold get at hget
      split at hget
      · cases hget
      · split at hget
        · cases hget
        · split at hget
          · cases hget
          · rename_i hunallocated
            exact Bool.eq_false_iff.mpr hunallocated
  | error f =>
    refine iff_of_false not_false ?_
    rintro (⟨e, he, hid⟩ | hunallocated)
    · obtain ⟨a, ha⟩ := exists_get_of_mem ⟨e, he, hid⟩
      rw [hget] at ha
      cases ha
    · unfold get at hget
      rw [hunallocated] at hget
      split at hget
      · cases hget
      · split at hget
        · cases hget
        · cases hget

end LoopContainer

end ZenRemote.Client
