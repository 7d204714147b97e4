-- SUMMARY: Traversals of a container while others add and remove: each is one at some moment of its own.
import Mathlib.Data.List.Forall2
import Mathlib.Data.List.Infix
import ZenRemote.Client.ContainerRun

/-!
# Traversals in between

A traversal first merges the new resources and then applies the removals, in two
sections. What it visits are the resources as they are after an addition and a removal
that both lie between its start and its end, and a later traversal is never behind an
earlier one. A removal that comes between the two sections, of a resource that is new,
is forgotten by the second.
-/

namespace ZenRemote.Client.LoopContainer

universe u

variable {τ : Type u} [DecidableEq τ]

structure Mark.Before (m m' : Mark) : Prop where
  added : m.added <+: m'.added
  scheduled : m.scheduled <+: m'.scheduled

theorem Mark.Before.refl (m : Mark) : m.Before m := ⟨List.prefix_refl _, List.prefix_refl _⟩

theorem Mark.Before.trans {m m' m'' : Mark} (h : m.Before m') (h' : m'.Before m'') : m.Before m'' :=
  ⟨h.added.trans h'.added, h.scheduled.trans h'.scheduled⟩

/-- The resources that were added and not scheduled for removal, in the order of addition. -/
def Mark.live (m : Mark) : List (UInt64 × Nat) := m.added.filter fun e => e.1 ∉ m.scheduled

/-- The traversal may be taken for one at the mark `m`. -/
structure Traversal.At (t : Traversal) (m : Mark) : Prop where
  start : t.start.Before m
  finish : m.Before t.finish
  visited : t.visited = m.live
  once : (t.visited.map Prod.fst).Nodup

/-- The traversals may be taken for ones at marks in order. -/
def State.Linearizable (s : State τ) : Prop :=
  ∃ ms : List Mark, List.Forall₂ Traversal.At s.traversals ms ∧ ms.Pairwise Mark.Before

/-- An added resource has an id of its own, and only what was added is scheduled for removal. -/
def Orderly (s : State τ) : Label τ → Prop
  | .add id _ => id ∉ s.added.map Prod.fst
  | .scheduleRemove id => id ∈ s.added.map Prod.fst
  | .merge _ => True
  | .applyRemovals _ => True
  | .traverse _ => True
  | .visit _ => True
  | .searchNew _ _ => True
  | .searchResources _ => True

instance (s : State τ) : ∀ l, Decidable (Orderly s l)
  | .add id _ => inferInstanceAs (Decidable (id ∉ s.added.map Prod.fst))
  | .scheduleRemove id => inferInstanceAs (Decidable (id ∈ s.added.map Prod.fst))
  | .merge _ => inferInstanceAs (Decidable True)
  | .applyRemovals _ => inferInstanceAs (Decidable True)
  | .traverse _ => inferInstanceAs (Decidable True)
  | .visit _ => inferInstanceAs (Decidable True)
  | .searchNew _ _ => inferInstanceAs (Decidable True)
  | .searchResources _ => inferInstanceAs (Decidable True)

/-- No resource that is new is scheduled for removal while a `ForEach` is between its two
sections. -/
def KeepsRemoval (s : State τ) : Label τ → Prop
  | .add _ _ => True
  | .scheduleRemove id => s.writer = none ∨ id ∉ s.container.newResources.map Prod.fst
  | .merge _ => True
  | .applyRemovals _ => True
  | .traverse _ => True
  | .visit _ => True
  | .searchNew _ _ => True
  | .searchResources _ => True

instance (s : State τ) : ∀ l, Decidable (KeepsRemoval s l)
  | .add _ _ => inferInstanceAs (Decidable True)
  | .scheduleRemove id =>
    inferInstanceAs (Decidable (s.writer = none ∨ id ∉ s.container.newResources.map Prod.fst))
  | .merge _ => inferInstanceAs (Decidable True)
  | .applyRemovals _ => inferInstanceAs (Decidable True)
  | .traverse _ => inferInstanceAs (Decidable True)
  | .visit _ => inferInstanceAs (Decidable True)
  | .searchNew _ _ => inferInstanceAs (Decidable True)
  | .searchResources _ => inferInstanceAs (Decidable True)

-- ---------------------------------------------------------------------------
-- What the threads know
-- ---------------------------------------------------------------------------

/-- How the place of the thread `t` stands to the mark `m` of the other resources. -/
def Place.Agrees (writer : Option τ) (readers : List τ) (scheduled : List UInt64) (m : Mark) (t : τ) :
    Place → Prop
  | .outside => True
  | .merged start =>
    writer = some t ∧ start.added <+: m.added ∧ start.scheduled <+: scheduled
  | .applied start => start.Before m
  | .traversing start visited => t ∈ readers ∧ start.Before m ∧ visited <+: m.live
  | .searchedNew _ _ => True

omit [DecidableEq τ] in
theorem Place.Agrees.mono {writer : Option τ} {readers readers' : List τ}
    {scheduled scheduled' : List UInt64} {m : Mark} {t : τ} {place : Place}
    (h : place.Agrees writer readers scheduled m t) (hreaders : t ∈ readers → t ∈ readers')
    (hscheduled : scheduled <+: scheduled') : place.Agrees writer readers' scheduled' m t := by
  cases place with
  | outside => trivial
  | merged start => exact ⟨h.1, h.2.1, h.2.2.trans hscheduled⟩
  | applied start => exact h
  | traversing start visited => exact ⟨hreaders h.1, h.2⟩
  | searchedNew start id => trivial

omit [DecidableEq τ] in
/-- The mark moves on under the write lock, which another thread has. -/
theorem Place.Agrees.advance {writer writer' : Option τ} {readers readers' : List τ}
    {scheduled scheduled' : List UInt64} {m m' : Mark} {t : τ} {place : Place}
    (h : place.Agrees writer readers scheduled m t) (hwriter : writer ≠ some t) (hreaders : readers = [])
    (hm : m.Before m') : place.Agrees writer' readers' scheduled' m' t := by
  cases place with
  | outside => trivial
  | merged start => exact absurd h.1 hwriter
  | applied start => exact Mark.Before.trans h hm
  | traversing start visited =>
    rw [hreaders] at h
    exact absurd h.1 List.not_mem_nil
  | searchedNew start id => trivial

/-- `m` is the mark of the other resources, and `rest` is what was scheduled for removal
since. -/
structure EachInv (s : State τ) (m : Mark) (rest : List UInt64) : Prop where
  ids : (s.added.map Prod.fst).Nodup
  merged : s.added = m.added ++ s.container.newResources
  applied : s.scheduled = m.scheduled ++ rest
  removeSet : ∀ id, id ∈ s.container.removeSet ↔ id ∈ rest
  resources : s.container.resources = m.live
  scheduled : ∀ id ∈ s.scheduled, id ∈ s.added.map Prod.fst
  removed : ∀ id ∈ m.scheduled, id ∈ m.added.map Prod.fst
  /-- Between the two sections, what is scheduled for removal has been merged. -/
  between : s.writer ≠ none → ∀ id ∈ s.scheduled, id ∈ m.added.map Prod.fst
  exclusive : s.writer ≠ none → s.readers = []
  places : ∀ t, (s.places t).Agrees s.writer s.readers s.scheduled m t
  linearized : ∃ ms, List.Forall₂ Traversal.At s.traversals ms ∧ (ms ++ [m]).Pairwise Mark.Before

theorem eachInv_init : EachInv (machine τ).init ⟨[], []⟩ [] :=
  ⟨List.nodup_nil, rfl, rfl, fun _ => Iff.rfl, rfl, nofun, nofun, nofun, fun _ => rfl, fun _ => trivial,
    [], .nil, List.pairwise_singleton _ _⟩

/-- The marks stay in order when the last moves on. -/
theorem linearized_advance {ts : List Traversal} {m m' : Mark}
    (h : ∃ ms, List.Forall₂ Traversal.At ts ms ∧ (ms ++ [m]).Pairwise Mark.Before) (hm : m.Before m') :
    ∃ ms, List.Forall₂ Traversal.At ts ms ∧ (ms ++ [m']).Pairwise Mark.Before := by
  obtain ⟨ms, hms, hordered⟩ := h
  refine ⟨ms, hms, ?_⟩
  rw [List.pairwise_append] at hordered ⊢
  refine ⟨hordered.1, List.pairwise_singleton _ _, ?_⟩
  intro m₁ hm₁ m₂ hm₂
  obtain rfl := List.mem_singleton.mp hm₂
  exact (hordered.2.2 m₁ hm₁ m (List.mem_singleton_self m)).trans hm

/-- A step of the thread `t` that moves it to `place` and leaves the mark alone. -/
theorem Place.Agrees.update {s : State τ} {m : Mark} {rest : List UInt64} (h : EachInv s m rest)
    {readers : List τ} {t : τ} (hreaders : ∀ t', t' ≠ t → t' ∈ s.readers → t' ∈ readers) {place : Place}
    (hplace : place.Agrees s.writer readers s.scheduled m t) (t' : τ) :
    (Function.update s.places t place t').Agrees s.writer readers s.scheduled m t' := by
  rw [Function.update_apply]
  split
  · rename_i heq
    exact heq ▸ hplace
  · rename_i hne
    exact (h.places t').mono (hreaders t' hne) (List.prefix_refl _)

omit [DecidableEq τ] in
theorem EachInv.add {s : State τ} {m : Mark} {rest : List UInt64} (h : EachInv s m rest) {id : UInt64}
    (a : Nat) (hfresh : id ∉ s.added.map Prod.fst) :
    EachInv { s with container := s.container.add id a, added := s.added ++ [(id, a)] } m rest := by
  refine ⟨nodup_ids_add h.ids hfresh a, ?_, h.applied, h.removeSet, h.resources, ?_, h.removed, h.between,
    h.exclusive, h.places, h.linearized⟩
  · show s.added ++ [(id, a)] = m.added ++ (s.container.newResources ++ [(id, a)])
    rw [h.merged, List.append_assoc]
  · intro id' hid'
    show id' ∈ (s.added ++ [(id, a)]).map Prod.fst
    rw [List.map_append]
    exact List.mem_append_left _ (h.scheduled id' hid')

omit [DecidableEq τ] in
theorem EachInv.scheduleRemove {s : State τ} {m : Mark} {rest : List UInt64} (h : EachInv s m rest)
    {id : UInt64} (hadded : id ∈ s.added.map Prod.fst)
    (hkeeps : s.writer = none ∨ id ∉ s.container.newResources.map Prod.fst) :
    EachInv { s with container := s.container.scheduleRemove id, scheduled := s.scheduled ++ [id] } m
      (rest ++ [id]) := by
  refine ⟨h.ids, h.merged, ?_, ?_, h.resources, ?_, h.removed, ?_, h.exclusive, ?_, h.linearized⟩
  · show s.scheduled ++ [id] = m.scheduled ++ (rest ++ [id])
    rw [h.applied, List.append_assoc]
  · intro id'
    show id' ∈ s.container.removeSet.insert id ↔ _
    rw [List.mem_insert_iff, h.removeSet, List.mem_append, List.mem_singleton, or_comm]
  · intro id' hid'
    rcases List.mem_append.mp hid' with hid' | hid'
    · exact h.scheduled id' hid'
    · exact List.mem_singleton.mp hid' ▸ hadded
  · intro hwriter id' hid'
    rcases List.mem_append.mp hid' with hid' | hid'
    · exact h.between hwriter id' hid'
    · obtain rfl := List.mem_singleton.mp hid'
      rw [h.merged, List.map_append] at hadded
      rcases List.mem_append.mp hadded with hold | hnew
      · exact hold
      · exact absurd hnew (hkeeps.resolve_left hwriter)
  · exact fun t => (h.places t).mono (fun ht => ht) (List.prefix_append _ _)

theorem EachInv.merge {s : State τ} {m : Mark} {rest : List UInt64} (h : EachInv s m rest) {t : τ}
    (hwriter : s.writer = none) (hreaders : s.readers = []) :
    EachInv { s.move t (.merged s.mark) with container := s.container.mergeNew, writer := some t }
      ⟨s.added, m.scheduled⟩ rest := by
  have hadded : m.added <+: s.added := by
    rw [h.merged]
    exact List.prefix_append _ _
  have hm : m.Before ⟨s.added, m.scheduled⟩ := ⟨hadded, List.prefix_refl _⟩
  refine ⟨h.ids, (List.append_nil _).symm, h.applied, h.removeSet, ?_, h.scheduled, ?_,
    fun _ => h.scheduled, fun _ => hreaders, ?_, ?_⟩
  · -- what is new has not been removed yet, for its ids are its own
    have hnew : ∀ e ∈ s.container.newResources, e.1 ∉ m.scheduled := by
      intro e he hid
      have hids := h.ids
      rw [h.merged, List.map_append] at hids
      exact (List.nodup_append.mp hids).2.2 _ (h.removed _ hid) _ (List.mem_map_of_mem he) rfl
    have hkept : (s.container.newResources.filter fun e => e.1 ∉ m.scheduled) = s.container.newResources :=
      List.filter_eq_self.mpr fun e he => decide_eq_true (hnew e he)
    show s.container.resources ++ s.container.newResources = s.added.filter fun e => e.1 ∉ m.scheduled
    rw [h.resources, h.merged, List.filter_append, hkept]
    rfl
  · exact fun id hid => (hadded.map Prod.fst).subset (h.removed id hid)
  · intro t'
    show (Function.update s.places t _ t').Agrees _ _ _ _ _
    rw [Function.update_apply]
    split
    · rename_i heq
      exact ⟨heq ▸ rfl, List.prefix_refl _, List.prefix_refl _⟩
    · exact (h.places t').advance (by simp [hwriter]) hreaders hm
  · exact linearized_advance h.linearized hm

theorem EachInv.applyRemovals {s : State τ} {m : Mark} {rest : List UInt64} (h : EachInv s m rest) {t : τ}
    {start : Mark} (hplace : s.places t = .merged start) :
    EachInv { s.move t (.applied start) with container := s.container.applyRemovals, writer := none }
      ⟨m.added, s.scheduled⟩ [] := by
  obtain ⟨hwriter, hstart⟩ : s.writer = some t ∧ start.added <+: m.added ∧ start.scheduled <+: s.scheduled := by
    have hagrees := h.places t
    rwa [hplace] at hagrees
  have hlocked : s.writer ≠ none := by simp [hwriter]
  have hm : m.Before ⟨m.added, s.scheduled⟩ := by
    refine ⟨List.prefix_refl _, ?_⟩
    rw [h.applied]
    exact List.prefix_append _ _
  refine ⟨h.ids, h.merged, (List.append_nil _).symm, fun _ => Iff.rfl, ?_, h.scheduled, h.between hlocked,
    nofun, nofun, ?_, linearized_advance h.linearized hm⟩
  · show s.container.resources.filter _ = m.added.filter _
    rw [h.resources, Mark.live, List.filter_filter]
    apply List.filter_congr
    intro e he
    rw [h.applied, ← Bool.decide_and, decide_eq_decide, List.mem_append, h.removeSet, not_or, and_comm]
  · intro t'
    show (Function.update s.places t _ t').Agrees _ _ _ _ _
    rw [Function.update_apply]
    split
    · exact ⟨hstart.1, hstart.2⟩
    · rename_i hne
      apply (h.places t').advance ?_ (h.exclusive hlocked) hm
      rw [hwriter]
      exact fun heq => hne (Option.some.inj heq).symm

theorem EachInv.traverse {s : State τ} {m : Mark} {rest : List UInt64} (h : EachInv s m rest) {t : τ}
    {start : Mark} (hplace : s.places t = .applied start) (hwriter : s.writer = none) :
    EachInv { s.move t (.traversing start []) with readers := t :: s.readers } m rest := by
  have hstart : start.Before m := by
    have hagrees := h.places t
    rwa [hplace] at hagrees
  refine ⟨h.ids, h.merged, h.applied, h.removeSet, h.resources, h.scheduled, h.removed, h.between,
    fun hlocked => absurd hwriter hlocked, ?_, h.linearized⟩
  exact Place.Agrees.update h (fun _ _ ht => List.mem_cons_of_mem _ ht)
    ⟨List.mem_cons_self, hstart, List.nil_prefix⟩

omit [DecidableEq τ] in
/-- Where a traversal is. -/
theorem EachInv.traversing {s : State τ} {m : Mark} {rest : List UInt64} (h : EachInv s m rest) {t : τ}
    {start : Mark} {visited : List (UInt64 × Nat)} (hplace : s.places t = .traversing start visited) :
    t ∈ s.readers ∧ start.Before m ∧ visited <+: s.container.resources := by
  have hagrees := h.places t
  rw [hplace] at hagrees
  rw [h.resources]
  exact hagrees

theorem EachInv.visit {s : State τ} {m : Mark} {rest : List UInt64} (h : EachInv s m rest) {t : τ}
    {start : Mark} {visited : List (UInt64 × Nat)} {e : UInt64 × Nat}
    (hplace : s.places t = .traversing start visited)
    (hnext : s.container.resources[visited.length]? = some e) :
    EachInv (s.move t (.traversing start (visited ++ [e]))) m rest := by
  obtain ⟨hreader, hstart, hvisited⟩ := h.traversing hplace
  refine ⟨h.ids, h.merged, h.applied, h.removeSet, h.resources, h.scheduled, h.removed, h.between,
    h.exclusive, ?_, h.linearized⟩
  have hnext' : visited ++ [e] <+: m.live := by
    obtain ⟨hlt, rfl⟩ := List.getElem?_eq_some_iff.mp hnext
    rw [← h.resources]
    exact List.concat_get_prefix hvisited hlt
  exact Place.Agrees.update h (fun _ _ ht => ht) ⟨hreader, hstart, hnext'⟩

theorem EachInv.finish {s : State τ} {m : Mark} {rest : List UInt64} (h : EachInv s m rest) {t : τ}
    {start : Mark} {visited : List (UInt64 × Nat)} (hplace : s.places t = .traversing start visited)
    (hend : s.container.resources[visited.length]? = none) :
    EachInv { s.move t .outside with
      readers := s.readers.erase t
      traversals := s.traversals ++ [⟨start, s.mark, visited⟩] } m rest := by
  obtain ⟨hreader, hstart, hvisited⟩ := h.traversing hplace
  have hall : visited = m.live := by
    rw [← h.resources]
    exact hvisited.eq_of_length_le (List.getElem?_eq_none_iff.mp hend)
  have hmark : m.Before s.mark := by
    refine ⟨?_, ?_⟩
    · show m.added <+: s.added
      rw [h.merged]
      exact List.prefix_append _ _
    · show m.scheduled <+: s.scheduled
      rw [h.applied]
      exact List.prefix_append _ _
  refine ⟨h.ids, h.merged, h.applied, h.removeSet, h.resources, h.scheduled, h.removed, h.between, ?_, ?_, ?_⟩
  · intro hlocked
    rw [h.exclusive hlocked]
    rfl
  · exact Place.Agrees.update h (fun _ hne ht => (List.mem_erase_of_ne hne).mpr ht) trivial
  · obtain ⟨ms, hms, hordered⟩ := h.linearized
    refine ⟨ms ++ [m], ?_, ?_⟩
    · refine List.rel_append hms (.cons ⟨hstart, hmark, hall, ?_⟩ .nil)
      rw [hall]
      have hsub : m.live.Sublist s.added := List.filter_sublist.trans hmark.added.sublist
      exact h.ids.sublist (hsub.map Prod.fst)
    · refine List.pairwise_append.mpr ⟨hordered, List.pairwise_singleton _ _, ?_⟩
      intro m₁ hm₁ m₂ hm₂
      obtain rfl := List.mem_singleton.mp hm₂
      rcases List.mem_append.mp hm₁ with hm₁ | hm₁
      · exact (List.pairwise_append.mp hordered).2.2 m₁ hm₁ m₂ (List.mem_singleton_self _)
      · exact List.mem_singleton.mp hm₁ ▸ Mark.Before.refl _

theorem EachInv.step {s s' : State τ} {l : Label τ} {m : Mark} {rest : List UInt64} (h : EachInv s m rest)
    (horderly : Orderly s l) (hkeeps : KeepsRemoval s l) (hstep : s.step l = some s') :
    ∃ m rest, EachInv s' m rest := by
  cases step_cases hstep with
  | add id a => exact ⟨m, rest, h.add a horderly⟩
  | scheduleRemove id => exact ⟨m, _, h.scheduleRemove horderly hkeeps⟩
  | merge hplace hwriter hreaders => exact ⟨_, rest, h.merge hwriter hreaders⟩
  | applyRemovals hplace => exact ⟨_, _, h.applyRemovals hplace⟩
  | traverse hplace hwriter => exact ⟨m, rest, h.traverse hplace hwriter⟩
  | visit hplace hnext => exact ⟨m, rest, h.visit hplace hnext⟩
  | finish hplace hend => exact ⟨m, rest, h.finish hplace hend⟩
  | foundNew hplace hfind =>
    exact ⟨m, rest, h.ids, h.merged, h.applied, h.removeSet, h.resources, h.scheduled, h.removed, h.between,
      h.exclusive, h.places, h.linearized⟩
  | searchNew hplace hfind =>
    exact ⟨m, rest, h.ids, h.merged, h.applied, h.removeSet, h.resources, h.scheduled, h.removed, h.between,
      h.exclusive, Place.Agrees.update h (fun _ _ ht => ht) trivial, h.linearized⟩
  | searchResources hplace hwriter =>
    exact ⟨m, rest, h.ids, h.merged, h.applied, h.removeSet, h.resources, h.scheduled, h.removed, h.between,
      h.exclusive, Place.Agrees.update h (fun _ _ ht => ht) trivial, h.linearized⟩

/-- Where each removal is kept, each `ForEach` calls the function once on each resource
that was added and not scheduled for removal, in order, and no `ForEach` falls behind an
earlier one. -/
theorem linearizable_run {ls : List (Label τ)} {s : State τ}
    (halong : (machine τ).Along (fun s l => Orderly s l ∧ KeepsRemoval s l) ls)
    (hrun : (machine τ).run ls = some s) : s.Linearizable := by
  obtain ⟨m, rest, h⟩ : ∃ m rest, EachInv s m rest := by
    apply halong.invariant (I := fun s => ∃ m rest, EachInv s m rest) ⟨_, _, eachInv_init⟩ ?_ hrun
    rintro s l s' ⟨m, rest, h⟩ hl hstep
    exact h.step hl.1 hl.2 hstep
  obtain ⟨ms, hms, hordered⟩ := h.linearized
  exact ⟨ms, hms, (List.pairwise_append.mp hordered).1⟩

/-- One resource is removed while another traversal is between its two sections. -/
def removedInBetween : List (Label Unit) :=
  [.add 5 0, .add 7 1, .merge (), .scheduleRemove 5, .add 9 2, .applyRemovals (), .traverse (), .visit (),
    .visit ()]

theorem linearizable_removedInBetween : ∃ s, (machine Unit).run removedInBetween = some s ∧
    s.Linearizable := by
  obtain ⟨s, hs⟩ : ∃ s, (machine Unit).run removedInBetween = some s := ⟨_, rfl⟩
  exact ⟨s, hs, linearizable_run (by decide) hs⟩

/-- The removal of a new resource comes between the two sections of a traversal, and
another traversal follows. -/
def removalForgotten : List (Label Unit) :=
  [.merge (), .add 7 0, .scheduleRemove 7, .applyRemovals (), .traverse (), .visit (), .merge (),
    .applyRemovals (), .traverse (), .visit (), .visit ()]

theorem not_linearizable_removalForgotten : ¬ ∀ (ls : List (Label Unit)) (s : State Unit),
    (machine Unit).Along Orderly ls → (machine Unit).run ls = some s → s.Linearizable := by
  intro h
  obtain ⟨s, hs, htraversals⟩ : ∃ s, (machine Unit).run removalForgotten = some s ∧ s.traversals =
      [⟨⟨[], []⟩, ⟨[(7, 0)], [7]⟩, []⟩, ⟨⟨[(7, 0)], [7]⟩, ⟨[(7, 0)], [7]⟩, [(7, 0)]⟩] := ⟨_, rfl, rfl⟩
  obtain ⟨ms, hms, -⟩ := h removalForgotten s (by decide) hs
  rw [htraversals] at hms
  obtain ⟨m₁, ms', h₁, hrest, heq⟩ := List.forall₂_cons_left_iff.mp hms
  obtain ⟨m₂, ms'', h₂, hend, heq'⟩ := List.forall₂_cons_left_iff.mp hrest
  have hscheduled : (7 : UInt64) ∈ m₂.scheduled := h₂.start.scheduled.subset (by decide)
  have hlive : ((7 : UInt64), 0) ∈ m₂.live := by
    rw [← h₂.visited]
    exact List.mem_cons_self
  exact of_decide_eq_true (List.mem_filter.mp hlive).2 hscheduled

end ZenRemote.Client.LoopContainer
