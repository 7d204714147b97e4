-- SUMMARY: What a request adds to the pool and removes from it, and what the pool keeps past the next traversal.
import ZenRemote.Client.RequestSafety

/-!
# The contents of the pool

A request creates a resource, removes one or calls a method of one. A virtual object
that is to be removed stays in its container until the rendering thread traverses it.
-/

namespace ZenRemote.Client

namespace Request

/-- The resource that the handler makes. -/
def creates : Request → Option (Kind × UInt64)
  | .virtualObjectNew id => some (.virtualObjects, id)
  | .renderingUnitNew id _ => some (.renderingUnits, id)
  | .glBaseTechniqueNew id _ => some (.glBaseTechniques, id)
  | .glVertexArrayNew id => some (.glVertexArrays, id)
  | .glBufferNew id => some (.glBuffers, id)
  | .glShaderNew id _ _ => some (.glShaders, id)
  | .glProgramNew id => some (.glPrograms, id)
  | .glTextureNew id => some (.glTextures, id)
  | .glSamplerNew id => some (.glSamplers, id)
  | _ => none

/-- The resource that the handler schedules for removal. -/
def deletes : Request → Option (Kind × UInt64)
  | .virtualObjectDelete id => some (.virtualObjects, id)
  | .renderingUnitDelete id => some (.renderingUnits, id)
  | .glBaseTechniqueDelete id => some (.glBaseTechniques, id)
  | .glVertexArrayDelete id => some (.glVertexArrays, id)
  | .glBufferDelete id => some (.glBuffers, id)
  | .glShaderDelete id => some (.glShaders, id)
  | .glProgramDelete id => some (.glPrograms, id)
  | .glTextureDelete id => some (.glTextures, id)
  | .glSamplerDelete id => some (.glSamplers, id)
  | _ => none

theorem deletes_of_creates (r : Request) {p : Kind × UInt64} (h : r.creates = some p) : r.deletes = none := by
  cases r with
  | virtualObjectDelete _ | renderingUnitDelete _ | glBaseTechniqueDelete _ | glVertexArrayDelete _
  | glBufferDelete _ | glShaderDelete _ | glProgramDelete _ | glTextureDelete _ | glSamplerDelete _ =>
    cases h
  | _ => rfl

end Request

namespace PoolState

/-- The resource is to be removed by the next traversal. -/
def Leaving (s : PoolState) (k : Kind) (id : UInt64) : Prop :=
  k = .virtualObjects ∧ id ∈ s.virtualObjects.removeSet

/-- The pool has the resource, also after the next traversal. -/
def Keeps (s : PoolState) (k : Kind) (id : UInt64) : Prop := s.Holds k id ∧ ¬ s.Leaving k id

variable {s s' : PoolState} {k k' : Kind} {id id' : UInt64}

theorem holds_virtualObjects :
    s.Holds .virtualObjects id ↔ ∃ e ∈ s.virtualObjects.owned, e.1 = id := Iff.rfl

-- ---------------------------------------------------------------------------
-- The containers
-- ---------------------------------------------------------------------------

theorem holds_addNew (hk : k ≠ .virtualObjects) (x : Object k) :
    (s.addNew k x).Holds k' id' ↔ (k' = k ∧ id' = x.id) ∨ s.Holds k' id' := by
  cases Decidable.em (k' = .virtualObjects) with
  | inl hk' =>
    subst hk'
    rw [or_iff_right (fun h => hk h.1.symm), holds_virtualObjects, holds_virtualObjects]
    unfold addNew
    dsimp only
    split
    · rfl
    · rw [virtualObjects_destroy]
  | inr hk' =>
    rw [holds_iff hk', holds_iff hk']
    unfold addNew
    dsimp only
    split
    · simp only [get, containers_setContainer]
      cases Decidable.em (k' = k) with
      | inr hne => simp [hne]
      | inl heq =>
        subst heq
        rw [Function.update_self]
        cases Decidable.em (id' = x.id) with
        | inr hne => simp [AList.lookup_insert_ne hne, hne]
        | inl heq =>
          subst heq
          simp [AList.lookup_insert]
    · rename_i a ha
      simp only [get, containers_destroy]
      refine ⟨.inr, ?_⟩
      rintro (⟨rfl, rfl⟩ | h)
      · exact ⟨a, ha⟩
      · exact h

theorem holds_scheduleRemove (hk : k ≠ .virtualObjects) (id : UInt64) :
    (s.scheduleRemove k id).Holds k' id' ↔ s.Holds k' id' ∧ ¬ (k' = k ∧ id' = id) := by
  cases Decidable.em (k' = .virtualObjects) with
  | inl hk' =>
    subst hk'
    rw [and_iff_left (fun h => hk h.1.symm), holds_virtualObjects, holds_virtualObjects]
    unfold scheduleRemove
    split
    · rfl
    · rw [virtualObjects_destroy]
      rfl
  | inr hk' =>
    rw [holds_iff hk', holds_iff hk']
    unfold scheduleRemove
    split
    · rename_i hnone
      refine ⟨fun h => ⟨h, ?_⟩, And.left⟩
      rintro ⟨rfl, rfl⟩
      obtain ⟨a, ha⟩ := h
      exact Option.some_ne_none a (ha.symm.trans hnone)
    · simp only [get, containers_destroy, containers_setContainer]
      cases Decidable.em (k' = k) with
      | inr hne => simp [hne]
      | inl heq =>
        subst heq
        rw [Function.update_self]
        cases Decidable.em (id' = id) with
        | inr hne => simp [AList.lookup_erase_ne hne, hne]
        | inl heq =>
          subst heq
          simp [AList.lookup_erase]

theorem virtualObjects_addNew (x : Object k) : (s.addNew k x).virtualObjects = s.virtualObjects := by
  unfold addNew
  dsimp only
  split
  · rfl
  · exact virtualObjects_destroy

theorem virtualObjects_scheduleRemove (id : UInt64) :
    (s.scheduleRemove k id).virtualObjects = s.virtualObjects := by
  unfold scheduleRemove
  split
  · rfl
  · exact virtualObjects_destroy

-- ---------------------------------------------------------------------------
-- Requests
-- ---------------------------------------------------------------------------

/-- What a request does to what the pool holds and to what is to be removed. -/
structure Effect (r : Request) (s s' : PoolState) : Prop where
  holds : ∀ k id, s'.Holds k id ↔
    (r.creates = some (k, id) ∨ s.Holds k id) ∧ (k ≠ .virtualObjects → r.deletes ≠ some (k, id))
  leaving : ∀ id, id ∈ s'.virtualObjects.removeSet ↔
    id ∈ s.virtualObjects.removeSet ∨ r.deletes = some (.virtualObjects, id)
  added : ∀ e ∈ s'.virtualObjects.newResources,
    e ∈ s.virtualObjects.newResources ∨ r.creates = some (.virtualObjects, e.1)

theorem effect_of_same {r : Request} (hcreates : r.creates = none) (hdeletes : r.deletes = none)
    (hcontainers : s'.containers = s.containers) (hobjects : s'.virtualObjects = s.virtualObjects) :
    Effect r s s' := by
  constructor
  · intro k id
    cases k with
    | virtualObjects => simp [holds_virtualObjects, hcreates, hobjects]
    | _ => simp [Holds, get, hcreates, hdeletes, hcontainers]
  · simp [hobjects, hdeletes]
  · exact fun e he => .inl (hobjects ▸ he)

theorem effect_callMethod {r : Request} {f : Object k → Object k} (hcreates : r.creates = none)
    (hdeletes : r.deletes = none) (h : s.callMethod k id f = .ok s') : Effect r s s' := by
  obtain ⟨a, -, hs'⟩ := bind_eq_ok h
  cases hs'
  exact effect_of_same hcreates hdeletes rfl rfl

theorem effect_addNew {r : Request} (hk : k ≠ .virtualObjects) {x : Object k}
    (hcreates : r.creates = some (k, x.id)) (hdeletes : r.deletes = none) :
    Effect r s (s.addNew k x) := by
  constructor
  · intro k' id'
    rw [holds_addNew hk, hcreates, hdeletes, Option.some.injEq, Prod.mk.injEq, @eq_comm _ k,
      @eq_comm _ x.id, and_iff_left (fun _ => (Option.some_ne_none _).symm)]
  · simp [virtualObjects_addNew, hdeletes]
  · exact fun e he => .inl (virtualObjects_addNew x ▸ he)

theorem effect_scheduleRemove {r : Request} (hk : k ≠ .virtualObjects) {id : UInt64}
    (hcreates : r.creates = none) (hdeletes : r.deletes = some (k, id)) :
    Effect r s (s.scheduleRemove k id) := by
  constructor
  · intro k' id'
    rw [holds_scheduleRemove hk, hcreates, hdeletes, or_iff_right (Option.some_ne_none _).symm]
    refine and_congr_right fun _ => ⟨fun h _ heq => ?_, fun h heq => h (heq.1 ▸ hk) (by simp [heq])⟩
    obtain ⟨rfl, rfl⟩ := Prod.mk.inj (Option.some.inj heq)
    exact h ⟨rfl, rfl⟩
  · intro id'
    rw [virtualObjects_scheduleRemove, hdeletes, Option.some.injEq, Prod.mk.injEq,
      or_iff_left fun h => hk h.1]
  · exact fun e he => .inl (virtualObjects_scheduleRemove id ▸ he)

/-- The handler has given the new resource to another one, and then it adds it. -/
theorem Effect.of_update {r : Request} {f : Object k' → Object k'} {a : Nat}
    (h : Effect r (s.update k' f a) s') : Effect r s s' := by
  refine ⟨fun k id => ?_, h.leaving, h.added⟩
  rw [h.holds]
  cases k with
  | virtualObjects => rfl
  | _ => rfl

theorem effect_handle {r : Request} (h : s.handle r = .ok s') : Effect r s s' := by
  cases r with
  | virtualObjectNew id =>
    cases h
    constructor
    · intro k' id'
      cases k' with
      | virtualObjects =>
        simp only [holds_virtualObjects, LoopContainer.add, LoopContainer.owned, Request.creates]
        simp [or_comm, or_left_comm, or_and_right, exists_or, eq_comm]
      | _ => simp [Holds, get, Request.creates, Request.deletes]
    · simp [LoopContainer.add, Request.deletes]
    · intro e he
      refine (List.mem_append.mp he).imp_right fun hnew => ?_
      rw [List.mem_singleton.mp hnew]
      rfl
  | virtualObjectDelete id =>
    cases h
    constructor
    · intro k' id'
      cases k' with
      | virtualObjects => simp [holds_virtualObjects, LoopContainer.scheduleRemove, LoopContainer.owned,
          Request.creates]
      | _ => simp [Holds, get, Request.creates, Request.deletes]
    · intro id'
      simp [LoopContainer.scheduleRemove, Request.deletes, or_comm, eq_comm]
    · exact fun e he => .inl he
  | virtualObjectCommit id =>
    obtain ⟨p, -, h⟩ := bind_eq_ok h
    obtain ⟨a, -, h⟩ := bind_eq_ok h
    cases h
    rcases walk_commitVirtualObject s a with heq | ⟨s', hwalk, heq⟩
    · rw [heq]
      exact effect_of_same rfl rfl rfl rfl
    · rw [heq]
      obtain ⟨hcontainers, hobjects, -⟩ := hwalk.frame
      exact effect_of_same rfl rfl hcontainers hobjects
  | virtualObjectMove id position quaternion =>
    obtain ⟨p, -, h⟩ := bind_eq_ok h
    obtain ⟨position, -, h⟩ := bind_eq_ok h
    obtain ⟨quaternion, -, h⟩ := bind_eq_ok h
    obtain ⟨a, -, h⟩ := bind_eq_ok h
    cases h
    exact effect_of_same rfl rfl rfl rfl
  | renderingUnitNew id virtualObjectId =>
    obtain ⟨p, -, h⟩ := bind_eq_ok h
    obtain ⟨a, -, h⟩ := bind_eq_ok h
    cases h
    exact (effect_addNew (k := .renderingUnits) (by decide) rfl rfl).of_update
  | glBaseTechniqueNew id renderingUnitId =>
    obtain ⟨a, -, h⟩ := bind_eq_ok h
    cases h
    exact (effect_addNew (by decide) rfl rfl).of_update
  | renderingUnitDelete id | glBaseTechniqueDelete id | glVertexArrayDelete id | glBufferDelete id
  | glShaderDelete id | glProgramDelete id | glTextureDelete id | glSamplerDelete id =>
    cases h
    exact effect_scheduleRemove (by decide) rfl rfl
  | glVertexArrayNew id | glBufferNew id | glShaderNew id source type | glProgramNew id
  | glTextureNew id | glSamplerNew id =>
    cases h
    exact effect_addNew (by decide) rfl rfl
  | bindProgram _ _ | bindVertexArray _ _ | glUniform _ _ | bindTexture _ _ _ _ _ _
  | glDrawArrays _ _ _ _ | glDrawElements _ _ _ _ _ _ | glEnableVertexAttribArray _ _
  | glDisableVertexAttribArray _ _ | glVertexAttribPointer _ _ _ _ _ _ _ _ | glBufferData _ _ _ _
  | glAttachShader _ _ | glLinkProgram _ | glTexImage2D _ _ _ | glTexSubImage2D _ _ _
  | glGenerateMipmap _ _ | glSamplerParameterf _ _ _ | glSamplerParameteri _ _ _
  | glSamplerParameterfv _ _ _ | glSamplerParameteriv _ _ _ | glSamplerParameterIiv _ _ _
  | glSamplerParameterIuiv _ _ _ =>
    exact effect_callMethod rfl rfl h

/-- A resource with a fresh id is kept from its creation to its removal. -/
theorem Effect.keeps {r : Request} (h : Effect r s s')
    (hfresh : ∀ k id, r.creates = some (k, id) → ¬ s.Leaving k id) (k : Kind) (id : UInt64) :
    s'.Keeps k id ↔ (r.creates = some (k, id) ∨ s.Keeps k id) ∧ r.deletes ≠ some (k, id) := by
  have hleaving : s'.Leaving k id ↔ s.Leaving k id ∨ (k = .virtualObjects ∧ r.deletes = some (k, id)) := by
    unfold Leaving
    rw [h.leaving]
    constructor
    · rintro ⟨rfl, hleaving | hdeletes⟩
      · exact .inl ⟨rfl, hleaving⟩
      · exact .inr ⟨rfl, hdeletes⟩
    · rintro (⟨rfl, hleaving⟩ | ⟨rfl, hdeletes⟩)
      · exact ⟨rfl, .inl hleaving⟩
      · exact ⟨rfl, .inr hdeletes⟩
  unfold Keeps
  rw [h.holds, hleaving]
  have := hfresh k id
  tauto

-- ---------------------------------------------------------------------------
-- The rendering thread
-- ---------------------------------------------------------------------------

theorem merging_destroy {a : Nat} : (s.destroy a).merging = s.merging := by
  unfold destroy
  split
  · rfl
  · rfl

theorem merging_addNew (x : Object k) : (s.addNew k x).merging = s.merging := by
  unfold addNew
  dsimp only
  split
  · rfl
  · exact merging_destroy

/-- No request has to do with the sections of `ForEach`. -/
theorem merging_handle {r : Request} (h : s.handle r = .ok s') : s'.merging = s.merging := by
  cases handle_cases h with
  | newVirtualObject id | deleteVirtualObject id | method _ a | move _ position quaternion => rfl
  | new _ _ => exact merging_addNew _
  | newInto _ a _ _ => exact merging_addNew _
  | delete _ id =>
    unfold scheduleRemove
    split
    · rfl
    · exact merging_destroy
  | commit a =>
    rcases walk_commitVirtualObject s a with heq | ⟨s', hwalk, heq⟩
    · rw [heq]
    · rw [heq]
      apply hwalk.invariant (I := fun t => t.merging = s.merging) _ rfl
      intro t k b ht
      rcases commitOne_cases t k b with heq | ⟨x, -, heq⟩
      · rw [heq]
        exact ht
      · rw [heq]
        exact ht

/-- What is new has not been removed yet. -/
def NewKept (s : PoolState) : Prop :=
  ∀ e ∈ s.virtualObjects.newResources, e.1 ∉ s.virtualObjects.removeSet

/-- The request removes a virtual object between the two sections of a traversal, and the
first of them has not found it. -/
def RemovesNew (s : PoolState) (r : Request) : Prop :=
  s.merging = true ∧ ∃ e ∈ s.virtualObjects.newResources, r.deletes = some (.virtualObjects, e.1)

instance (s : PoolState) (r : Request) : Decidable (s.RemovesNew r) := inferInstanceAs (Decidable (_ ∧ _))

theorem NewKept.handle {r : Request} (h : s.NewKept) (heffect : Effect r s s')
    (hfresh : ∀ k id, r.creates = some (k, id) → ¬ s.Leaving k id)
    (hkeeps : ∀ e ∈ s.virtualObjects.newResources, r.deletes ≠ some (.virtualObjects, e.1)) : s'.NewKept := by
  intro e he hremoved
  rcases heffect.added e he, (heffect.leaving e.1).mp hremoved with ⟨hold | hcreates, hleaving | hdeletes⟩
  · exact h e hold hleaving
  · exact hkeeps e hold hdeletes
  · exact hfresh _ _ hcreates ⟨rfl, hleaving⟩
  · rw [r.deletes_of_creates hcreates] at hdeletes
    cases hdeletes

theorem keeps_mergeNew : s.mergeNew.Keeps k id ↔ s.Keeps k id := by
  have howned : s.mergeNew.virtualObjects.owned = s.virtualObjects.owned := List.append_nil _
  unfold Keeps
  refine and_congr ?_ Iff.rfl
  cases k with
  | virtualObjects => rw [holds_virtualObjects, holds_virtualObjects, howned]
  | _ => exact Iff.rfl

theorem holds_applyRemovals (hnew : s.NewKept) : s.applyRemovals.Holds k id ↔ s.Keeps k id := by
  have hcontainers : s.applyRemovals.containers = s.containers := containers_foldl_destroy _
  cases k with
  | virtualObjects =>
    have howned : s.applyRemovals.virtualObjects.owned =
        (s.virtualObjects.resources.filter fun e => e.1 ∉ s.virtualObjects.removeSet) ++
          s.virtualObjects.newResources := rfl
    rw [Keeps, Leaving, holds_virtualObjects, holds_virtualObjects, howned]
    constructor
    · rintro ⟨e, he, rfl⟩
      rcases List.mem_append.mp he with hold | hadded
      · obtain ⟨hmem, hkept⟩ := List.mem_filter.mp hold
        exact ⟨⟨e, List.mem_append_left _ hmem, rfl⟩, fun h => of_decide_eq_true hkept h.2⟩
      · exact ⟨⟨e, List.mem_append_right _ hadded, rfl⟩, fun h => hnew e hadded h.2⟩
    · rintro ⟨⟨e, he, rfl⟩, hkept⟩
      refine ⟨e, List.mem_append.mpr ?_, rfl⟩
      rcases List.mem_append.mp he with hold | hadded
      · exact .inl (List.mem_filter.mpr ⟨hold, decide_eq_true fun h => hkept ⟨rfl, h⟩⟩)
      · exact .inr hadded
  | _ => simp [Keeps, Leaving, Holds, get, hcontainers]

theorem keeps_applyRemovals (hnew : s.NewKept) : s.applyRemovals.Keeps k id ↔ s.Keeps k id := by
  rw [Keeps, holds_applyRemovals hnew, and_iff_left]
  rintro ⟨-, hmem⟩
  exact List.not_mem_nil hmem

/-- The pool once the removals of the traversal under way, or of the next one, have been
applied. -/
def traversed (s : PoolState) : PoolState :=
  if s.merging then s.applyRemovals else s.forEachVirtualObject

theorem holds_traversed (hnew : s.merging = true → s.NewKept) :
    s.traversed.Holds k id ↔ s.Keeps k id := by
  unfold traversed
  split
  · rename_i hmerging
    exact holds_applyRemovals (hnew hmerging)
  · have hnew : s.mergeNew.NewKept := fun e he => absurd he List.not_mem_nil
    exact (holds_applyRemovals hnew).trans keeps_mergeNew

theorem keeps_of_same (hcontainers : s'.containers = s.containers)
    (hobjects : s'.virtualObjects = s.virtualObjects) : s'.Keeps k id ↔ s.Keeps k id := by
  unfold Keeps Leaving
  cases k with
  | virtualObjects => rw [holds_virtualObjects, holds_virtualObjects, hobjects]
  | _ => simp only [Holds, get, hcontainers, hobjects]

end PoolState

end ZenRemote.Client
