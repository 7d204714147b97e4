-- SUMMARY: Lookups in a container while others traverse it: a resource that is there is found.
import ZenRemote.Client.ContainerRun

/-!
# Concurrent lookups

A lookup searches the new resources first and the others later, with no lock in
between. A resource is only ever moved from the first to the second, and the write lock
keeps a lookup out while it is on the move. So what the first search has not found
although it was there is where the second one searches.
-/

namespace ZenRemote.Client.LoopContainer

universe u

variable {τ : Type u}

/-- The lookup has found each resource that was there when it started, and that was not
scheduled for removal before it returned. -/
def Lookup.FindsLive (l : Lookup) : Prop :=
  ∀ a, (l.id, a) ∈ l.start.added → l.id ∉ l.finish.scheduled → l.result = .ok (some a)

structure FindInv (s : State τ) : Prop where
  ids : (s.added.map Prod.fst).Nodup
  owned : ∀ e ∈ s.container.owned, e ∈ s.added
  kept : ∀ e ∈ s.added, e.1 ∉ s.scheduled → e ∈ s.container.owned
  removeSet : ∀ id ∈ s.container.removeSet, id ∈ s.scheduled
  /-- What is not among the new resources any more is among the others. -/
  searched : ∀ t start id, s.places t = .searchedNew start id → start.added ⊆ s.added ∧
    ∀ a, (id, a) ∈ start.added → id ∉ s.scheduled → (id, a) ∈ s.container.resources
  lookups : ∀ l ∈ s.lookups, l.FindsLive

/-- A search that meets a resource with an id of its own finds it. -/
theorem find_eq_of_mem {es : List (UInt64 × Nat)} {added : List (UInt64 × Nat)}
    (hids : (added.map Prod.fst).Nodup) (hsub : ∀ e ∈ es, e ∈ added) {id : UInt64} {a : Nat}
    (hmem : (id, a) ∈ es) : (es.find? fun e => e.1 = id) = some (id, a) := by
  cases hfind : es.find? fun e => e.1 = id with
  | none => exact absurd (decide_eq_true rfl) (List.find?_eq_none.mp hfind _ hmem)
  | some e =>
    have hid : e.1 = id := by simpa using List.find?_some hfind
    have he := hsub e (List.mem_of_find?_eq_some hfind)
    rw [List.inj_on_of_nodup_map hids he (hsub _ hmem) hid]

section Steps

variable {s : State τ}

/-- What was added and not found stays among the other resources, until it is scheduled
for removal. -/
theorem FindInv.searched_of_kept (h : FindInv s) {added resources : List (UInt64 × Nat)}
    {scheduled : List UInt64} (hadded : s.added ⊆ added) (hscheduled : s.scheduled ⊆ scheduled)
    (hkept : ∀ e ∈ s.container.resources, e.1 ∉ scheduled → e ∈ resources)
    {t : τ} {start : Mark} {id : UInt64} (hplace : s.places t = .searchedNew start id) :
    start.added ⊆ added ∧ ∀ a, (id, a) ∈ start.added → id ∉ scheduled → (id, a) ∈ resources := by
  obtain ⟨hsub, hmoved⟩ := h.searched t start id hplace
  refine ⟨List.Subset.trans hsub hadded, fun a hmem hid => ?_⟩
  exact hkept _ (hmoved a hmem fun hold => hid (hscheduled hold)) hid

theorem FindInv.add (h : FindInv s) {id : UInt64} (hid : id ∉ s.added.map Prod.fst) (a : Nat) :
    FindInv { s with container := s.container.add id a, added := s.added ++ [(id, a)] } := by
  have howned : (s.container.add id a).owned = s.container.owned ++ [(id, a)] :=
    (List.append_assoc ..).symm
  refine ⟨nodup_ids_add h.ids hid a, ?_, ?_, h.removeSet, ?_, h.lookups⟩
  · intro e he
    rw [howned] at he
    rcases List.mem_append.mp he with he | he
    · exact List.mem_append_left _ (h.owned e he)
    · exact List.mem_append_right _ he
  · intro e he hlive
    rw [howned]
    rcases List.mem_append.mp he with he | he
    · exact List.mem_append_left _ (h.kept e he hlive)
    · exact List.mem_append_right _ he
  · intro t start id hplace
    exact h.searched_of_kept (List.subset_append_left _ _) (List.Subset.refl _) (fun _ he _ => he) hplace

theorem FindInv.scheduleRemove (h : FindInv s) (id : UInt64) : FindInv { s with
    container := s.container.scheduleRemove id
    scheduled := s.scheduled ++ [id] } := by
  refine ⟨h.ids, h.owned, ?_, ?_, ?_, h.lookups⟩
  · intro e he hlive
    exact h.kept e he fun hold => hlive (List.mem_append_left _ hold)
  · intro id' hid'
    rcases List.mem_insert_iff.mp hid' with rfl | hid'
    · exact List.mem_append_right _ (List.mem_singleton_self _)
    · exact List.mem_append_left _ (h.removeSet id' hid')
  · intro t start id hplace
    exact h.searched_of_kept (List.Subset.refl _) (List.subset_append_left _ _) (fun _ he _ => he) hplace

theorem FindInv.mergeNew (h : FindInv s) : FindInv { s with container := s.container.mergeNew } := by
  have howned : s.container.mergeNew.owned = s.container.owned := List.append_nil _
  refine ⟨h.ids, howned ▸ h.owned, howned ▸ h.kept, h.removeSet, ?_, h.lookups⟩
  intro t start id hplace
  exact h.searched_of_kept (List.Subset.refl _) (List.Subset.refl _)
    (fun e he _ => List.mem_append_left _ he) hplace

theorem FindInv.applyRemovals (h : FindInv s) :
    FindInv { s with container := s.container.applyRemovals } := by
  have hrest : ∀ e ∈ s.container.resources, e.1 ∉ s.scheduled →
      e ∈ s.container.applyRemovals.resources := by
    intro e he hid
    exact List.mem_filter.mpr ⟨he, decide_eq_true fun hremove => hid (h.removeSet _ hremove)⟩
  refine ⟨h.ids, ?_, ?_, nofun, ?_, h.lookups⟩
  · intro e he
    rcases List.mem_append.mp he with he | he
    · exact h.owned e (List.mem_append_left _ (List.mem_filter.mp he).1)
    · exact h.owned e (List.mem_append_right _ he)
  · intro e he hid
    rcases List.mem_append.mp (h.kept e he hid) with hold | hnew
    · exact List.mem_append_left _ (hrest e hold hid)
    · exact List.mem_append_right _ hnew
  · intro t start id hplace
    exact h.searched_of_kept (List.Subset.refl _) (List.Subset.refl _) hrest hplace

theorem FindInv.returned (h : FindInv s) {l : Lookup} (hl : l.FindsLive) :
    FindInv { s with lookups := s.lookups ++ [l] } := by
  refine ⟨h.ids, h.owned, h.kept, h.removeSet, h.searched, ?_⟩
  intro l' hl'
  rcases List.mem_append.mp hl' with hl' | hl'
  · exact h.lookups l' hl'
  · exact List.mem_singleton.mp hl' ▸ hl

theorem FindInv.findsLive_new (h : FindInv s) {id : UInt64} {e : UInt64 × Nat}
    (hfind : (s.container.newResources.find? fun e => e.1 = id) = some e) :
    Lookup.FindsLive ⟨s.mark, s.mark, id, .ok (some e.2)⟩ := by
  intro a hadded hid
  have hmem := h.owned e (List.mem_append_right _ (List.mem_of_find?_eq_some hfind))
  have he : e.1 = id := by simpa using List.find?_some hfind
  rw [List.inj_on_of_nodup_map h.ids hmem hadded he]

theorem FindInv.findsLive_resources (h : FindInv s) {t : τ} {start : Mark} {id : UInt64}
    (hplace : s.places t = .searchedNew start id) :
    Lookup.FindsLive ⟨start, s.mark, id, s.container.searchResources id⟩ := by
  intro a hadded hid
  have hmem := (h.searched t start id hplace).2 a hadded hid
  have hfind := find_eq_of_mem h.ids (fun e he => h.owned e (List.mem_append_left _ he)) hmem
  show s.container.searchResources id = _
  rw [LoopContainer.searchResources, hfind]

variable [DecidableEq τ]

/-- A thread goes to a place outside `Get`. -/
theorem FindInv.moved (h : FindInv s) (t : τ) {place : Place}
    (hplace : ∀ start id, place ≠ .searchedNew start id) (writer : Option τ) (readers : List τ)
    (traversals : List Traversal) : FindInv { s.move t place with
      writer := writer, readers := readers, traversals := traversals } := by
  refine ⟨h.ids, h.owned, h.kept, h.removeSet, ?_, h.lookups⟩
  intro t' start id hsearched
  dsimp only [State.move] at hsearched
  rw [Function.update_apply] at hsearched
  split at hsearched
  · exact absurd hsearched (hplace start id)
  · exact h.searched t' start id hsearched

/-- What the first search does not find is among the other resources. -/
theorem FindInv.searchNew (h : FindInv s) (t : τ) {id : UInt64}
    (hfind : (s.container.newResources.find? fun e => e.1 = id) = none) :
    FindInv (s.move t (.searchedNew s.mark id)) := by
  refine ⟨h.ids, h.owned, h.kept, h.removeSet, ?_, h.lookups⟩
  intro t' start id' hsearched
  dsimp only [State.move] at hsearched
  rw [Function.update_apply] at hsearched
  split at hsearched
  · cases hsearched
    refine ⟨List.Subset.refl _, fun a hadded hid => ?_⟩
    rcases List.mem_append.mp (h.kept _ hadded hid) with hold | hnew
    · exact hold
    · exact absurd (decide_eq_true rfl) (List.find?_eq_none.mp hfind _ hnew)
  · exact h.searched t' start id' hsearched

end Steps

variable [DecidableEq τ]

theorem findInv_init : FindInv (machine τ).init :=
  ⟨List.nodup_nil, by simp [machine, owned], by simp [machine], by simp [machine], by simp [machine],
    by simp [machine]⟩

theorem FindInv.step {s s' : State τ} {l : Label τ} (h : FindInv s) (hfresh : FreshId s l)
    (hstep : s.step l = some s') : FindInv s' := by
  cases step_cases hstep with
  | add id a => exact h.add hfresh a
  | scheduleRemove id => exact h.scheduleRemove id
  | @merge t hplace hwriter hreaders => exact h.mergeNew.moved t (by nofun) (some t) s.readers s.traversals
  | @applyRemovals t start hplace => exact h.applyRemovals.moved t (by nofun) none s.readers s.traversals
  | @traverse t start hplace hwriter => exact h.moved t (by nofun) s.writer (t :: s.readers) s.traversals
  | @visit t start visited e hplace hnext => exact h.moved t (by nofun) s.writer s.readers s.traversals
  | @finish t start visited hplace hend => exact h.moved t (by nofun) s.writer (s.readers.erase t) _
  | foundNew hplace hfind => exact h.returned (h.findsLive_new hfind)
  | @searchNew t id hplace hfind => exact h.searchNew t hfind
  | @searchResources t start id hplace hwriter =>
    exact (h.moved t (by nofun) s.writer s.readers s.traversals).returned (h.findsLive_resources hplace)

/-- Whatever comes in between its two searches, a lookup finds each live resource. -/
theorem findsLive_run {ls : List (Label τ)} {s : State τ} (hfresh : (machine τ).Along FreshId ls)
    (hrun : (machine τ).run ls = some s) : ∀ l ∈ s.lookups, l.FindsLive :=
  (hfresh.invariant findInv_init (fun _ _ _ h hl hstep => h.step hl hstep) hrun).lookups

/-- Between the two searches for a resource, a traversal moves it. -/
def movedInBetween : List (Label Bool) :=
  [.add 5 0, .merge true, .applyRemovals true, .add 7 1, .searchNew false 5, .traverse true, .visit true,
    .visit true, .merge true, .applyRemovals true, .searchResources false]

theorem findsLive_movedInBetween : ∃ s, (machine Bool).run movedInBetween = some s ∧
    s.lookups ≠ [] ∧ ∀ l ∈ s.lookups, l.FindsLive := by
  obtain ⟨s, hs⟩ : ∃ s, (machine Bool).run movedInBetween = some s := ⟨_, rfl⟩
  refine ⟨s, hs, ?_, findsLive_run (by decide) hs⟩
  cases hs
  simp

end ZenRemote.Client.LoopContainer
