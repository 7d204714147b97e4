-- SUMMARY: Which requests can crash the client: containers own live resources, and every fault is a missing id or a short field.
import ZenRemote.Client.Services

/-!
# Request safety

In every reachable state the containers own what is alive under the ids they
hold, so no handler meets a dangling pointer. What remains are the pointers that
`Get` leaves empty and the fields that are copied without a look at their length.
-/

namespace ZenRemote.Client

namespace PoolState

variable {s s' : PoolState} {k : Kind} {a : Nat}

-- ---------------------------------------------------------------------------
-- Ownership
-- ---------------------------------------------------------------------------

structure Owned (s : PoolState) : Prop where
  noVirtualObjects : s.containers .virtualObjects = ∅
  containers : ∀ {k id a}, s.get k id = some a → ∃ x, s.heap.get k a = some x ∧ x.id = id
  virtualObjects : ∀ e ∈ s.virtualObjects.owned, ∃ o, s.heap.get .virtualObjects e.2 = some o
  nodup : (s.virtualObjects.owned.map Prod.snd).Nodup

/-- The same resources are alive, with the same ids. -/
abbrev SameIds : Heap Object → Heap Object → Prop := Heap.Related fun _ x y => y.id = x.id

theorem sameIds_refl (h : Heap Object) : SameIds h h :=
  Heap.Related.refl (r := fun _ x y => y.id = x.id) (fun _ _ => rfl) h

theorem Owned.of_sameIds (h : Owned s) (hheap : SameIds s.heap s'.heap)
    (hcontainers : s'.containers = s.containers) (hobjects : s'.virtualObjects = s.virtualObjects) :
    Owned s' := by
  refine ⟨hcontainers ▸ h.noVirtualObjects, ?_, ?_, hobjects ▸ h.nodup⟩
  · intro k id a ha
    rw [PoolState.get, hcontainers] at ha
    obtain ⟨x, hx, hid⟩ := h.containers ha
    obtain ⟨y, hy, heq⟩ := hheap.exists_get hx
    exact ⟨y, hy, heq.trans hid⟩
  · intro e he
    rw [hobjects] at he
    obtain ⟨o, ho⟩ := h.virtualObjects e he
    obtain ⟨o', ho', -⟩ := hheap.exists_get ho
    exact ⟨o', ho'⟩

theorem id_committed (h : Heap Object) (x : Object k) : (x.committed h).id = x.id := by
  cases k with
  | virtualObjects | renderingUnits | glShaders | glSamplers | glBaseTechniques => rfl
  | glBuffers =>
    show (GlBuffer.committed x).id = GlBuffer.id x
    unfold GlBuffer.committed
    split
    · rfl
    · rfl
  | glPrograms =>
    show (GlProgram.committed x).id = GlProgram.id x
    unfold GlProgram.committed
    split
    · rfl
    · rfl
  | glTextures =>
    show (GlTexture.committed x).id = GlTexture.id x
    unfold GlTexture.committed
    split
    · rfl
    · rfl
  | glVertexArrays =>
    show (GlVertexArray.committed x).id = GlVertexArray.id x
    unfold GlVertexArray.committed
    split
    · rfl
    · rfl

theorem sameIds_modify {f : Object k → Object k} (hf : ∀ x, (f x).id = x.id) (h : Heap Object) :
    SameIds h (h.modify k f a) :=
  Heap.related_modify (r := fun _ x y => y.id = x.id) (fun _ _ => rfl) f fun x _ => hf x

theorem Walk.sameIds {K : Kind → Prop} (h : Walk K s s') : SameIds s.heap s'.heap := by
  apply h.invariant (I := fun t => SameIds s.heap t.heap) _ (sameIds_refl s.heap)
  intro t k a ht
  rw [heap_commitOne]
  exact ht.trans (fun _ _ _ _ hxy hyz => hyz.trans hxy) (sameIds_modify (id_committed t.heap) t.heap)

theorem Owned.commitVirtualObject (h : Owned s) (a : Nat) : Owned (s.commitVirtualObject a) := by
  rcases walk_commitVirtualObject s a with heq | ⟨s', hwalk, heq⟩
  · rw [heq]
    exact h
  · rw [heq]
    obtain ⟨hcontainers, hobjects, -⟩ := hwalk.frame
    exact h.of_sameIds hwalk.sameIds hcontainers hobjects

theorem Owned.update (h : Owned s) {f : Object k → Object k} (hf : ∀ x, (f x).id = x.id) (a : Nat) :
    Owned (s.update k f a) :=
  h.of_sameIds (sameIds_modify hf s.heap) rfl rfl

/-- What is alive has an address below `next`. -/
theorem Owned.lt_next (h : Owned s) {id : UInt64} (ha : s.get k id = some a) : a < s.heap.next := by
  obtain ⟨x, hx, -⟩ := h.containers ha
  exact Heap.lt_next_of_get hx

theorem Owned.virtualObject_lt_next (h : Owned s) {e : UInt64 × Nat}
    (he : e ∈ s.virtualObjects.owned) : e.2 < s.heap.next := by
  obtain ⟨o, ho⟩ := h.virtualObjects e he
  exact Heap.lt_next_of_get ho

theorem Owned.newVirtualObject (h : Owned s) (id : UInt64) : Owned { s with
    heap := s.heap.alloc .virtualObjects ({ id := id } : VirtualObject)
    virtualObjects := s.virtualObjects.add id s.heap.next } := by
  have howned : (s.virtualObjects.add id s.heap.next).owned =
      s.virtualObjects.owned ++ [(id, s.heap.next)] := (List.append_assoc ..).symm
  refine ⟨h.noVirtualObjects, fun ha => ?_, fun e he => ?_, ?_⟩
  · obtain ⟨x, hx, hid⟩ := h.containers ha
    exact ⟨x, (Heap.get_alloc_of_ne _ (Nat.ne_of_lt (h.lt_next ha))).trans hx, hid⟩
  · rw [howned] at he
    cases List.mem_append.mp he with
    | inl hold =>
      obtain ⟨o, ho⟩ := h.virtualObjects e hold
      exact ⟨o, (Heap.get_alloc_of_ne _ (Nat.ne_of_lt (h.virtualObject_lt_next hold))).trans ho⟩
    | inr hnew =>
      rw [List.mem_singleton.mp hnew]
      exact ⟨_, Heap.get_alloc_self _⟩
  · rw [howned, List.map_append, List.nodup_append]
    refine ⟨h.nodup, List.nodup_singleton _, ?_⟩
    intro b hb c hc
    obtain ⟨e, he, rfl⟩ := List.mem_map.mp hb
    obtain rfl := List.mem_singleton.mp hc
    exact Nat.ne_of_lt (h.virtualObject_lt_next he)

/-- The entries of the containers are of different resources. -/
theorem Owned.eq_of_get (h : Owned s) {k' : Kind} {id id' : UInt64} (ha : s.get k id = some a)
    (ha' : s.get k' id' = some a) : k = k' ∧ id = id' := by
  obtain ⟨x, hx, hid⟩ := h.containers ha
  obtain ⟨y, hy, hid'⟩ := h.containers ha'
  obtain rfl := Heap.kind_eq_of_get hx hy
  obtain rfl := Option.some.inj (hx.symm.trans hy)
  exact ⟨rfl, hid.symm.trans hid'⟩

theorem Owned.ne_virtualObject (h : Owned s) (hk : k ≠ .virtualObjects) {id : UInt64}
    (ha : s.get k id = some a) {e : UInt64 × Nat} (he : e ∈ s.virtualObjects.owned) : e.2 ≠ a := by
  rintro rfl
  obtain ⟨x, hx, -⟩ := h.containers ha
  obtain ⟨o, ho⟩ := h.virtualObjects e he
  exact hk (Heap.kind_eq_of_get hx ho)

/-- A resource goes together with its entry. -/
theorem Owned.scheduleRemove (h : Owned s) (hk : k ≠ .virtualObjects) (id : UInt64) :
    Owned (s.scheduleRemove k id) := by
  unfold PoolState.scheduleRemove
  split
  · exact h
  · rename_i a ha
    refine ⟨?_, ?_, ?_, ?_⟩
    · rw [containers_destroy, containers_setContainer, Function.update_of_ne (Ne.symm hk)]
      exact h.noVirtualObjects
    · intro k' id' a' ha'
      rw [PoolState.get, containers_destroy, containers_setContainer] at ha'
      have hold : s.get k' id' = some a' ∧ ¬ (k' = k ∧ id' = id) := by
        cases Decidable.em (k' = k) with
        | inr hk' =>
          rw [Function.update_of_ne hk'] at ha'
          exact ⟨ha', fun heq => hk' heq.1⟩
        | inl hk' =>
          subst hk'
          rw [Function.update_self] at ha'
          have hid' : id' ≠ id := by
            rintro rfl
            rw [AList.lookup_erase] at ha'
            cases ha'
          rw [AList.lookup_erase_ne hid'] at ha'
          exact ⟨ha', fun heq => hid' heq.2⟩
      have hne : a' ≠ a := fun heq => hold.2 (h.eq_of_get (heq ▸ hold.1) ha)
      obtain ⟨x, hx, hid⟩ := h.containers hold.1
      exact ⟨x, (get_destroy_of_ne hne).trans hx, hid⟩
    · rw [virtualObjects_destroy]
      intro e he
      obtain ⟨o, ho⟩ := h.virtualObjects e he
      exact ⟨o, (get_destroy_of_ne (h.ne_virtualObject hk ha he)).trans ho⟩
    · rw [virtualObjects_destroy]
      exact h.nodup

theorem Owned.addNew (h : Owned s) (hk : k ≠ .virtualObjects) (x : Object k) : Owned (s.addNew k x) := by
  have hobjects : ∀ e ∈ s.virtualObjects.owned, ∃ o,
      (s.heap.alloc k x).get .virtualObjects e.2 = some o := by
    intro e he
    obtain ⟨o, ho⟩ := h.virtualObjects e he
    exact ⟨o, (Heap.get_alloc_of_ne x (Nat.ne_of_lt (h.virtualObject_lt_next he))).trans ho⟩
  unfold PoolState.addNew
  simp only
  split
  · rename_i hfree
    refine ⟨?_, ?_, hobjects, h.nodup⟩
    · rw [containers_setContainer, Function.update_of_ne (Ne.symm hk)]
      exact h.noVirtualObjects
    · intro k' id' a' ha'
      have hcases : (k' = k ∧ id' = x.id ∧ a' = s.heap.next) ∨ s.get k' id' = some a' := by
        rw [PoolState.get, containers_setContainer] at ha'
        cases Decidable.em (k' = k) with
        | inr hk' =>
          rw [Function.update_of_ne hk'] at ha'
          exact .inr ha'
        | inl hk' =>
          subst hk'
          rw [Function.update_self] at ha'
          cases Decidable.em (id' = x.id) with
          | inr hid' =>
            rw [AList.lookup_insert_ne hid'] at ha'
            exact .inr ha'
          | inl hid' =>
            rw [hid', AList.lookup_insert] at ha'
            exact .inl ⟨rfl, hid', (Option.some.inj ha').symm⟩
      rcases hcases with ⟨rfl, rfl, rfl⟩ | hold
      · exact ⟨x, Heap.get_alloc_self x, rfl⟩
      · obtain ⟨y, hy, hid⟩ := h.containers hold
        exact ⟨y, (Heap.get_alloc_of_ne x (Nat.ne_of_lt (h.lt_next hold))).trans hy, hid⟩
  · -- the new resource has gone again
    have hget : ∀ {k' b}, b < s.heap.next →
        (destroy { s with heap := s.heap.alloc k x } s.heap.next).heap.get k' b = s.heap.get k' b :=
      fun hb => (get_destroy_of_ne (Nat.ne_of_lt hb)).trans (Heap.get_alloc_of_ne x (Nat.ne_of_lt hb))
    refine ⟨?_, ?_, ?_, ?_⟩
    · rw [containers_destroy]
      exact h.noVirtualObjects
    · intro k' id' a' ha'
      rw [PoolState.get, containers_destroy] at ha'
      obtain ⟨y, hy, hid⟩ := h.containers ha'
      exact ⟨y, (hget (h.lt_next ha')).trans hy, hid⟩
    · rw [virtualObjects_destroy]
      intro e he
      obtain ⟨o, ho⟩ := h.virtualObjects e he
      exact ⟨o, (hget (h.virtualObject_lt_next he)).trans ho⟩
    · rw [virtualObjects_destroy]
      exact h.nodup

theorem Owned.mergeNew (h : Owned s) : Owned s.mergeNew := by
  have howned : s.mergeNew.virtualObjects.owned = s.virtualObjects.owned := List.append_nil _
  refine ⟨h.noVirtualObjects, h.containers, ?_, ?_⟩
  · rw [howned]
    exact h.virtualObjects
  · rw [howned]
    exact h.nodup

/-- What `ForEach` keeps is not among what it destroys. -/
theorem Owned.applyRemovals (h : Owned s) : Owned s.applyRemovals := by
  have hsub : List.Sublist s.applyRemovals.virtualObjects.owned s.virtualObjects.owned :=
    List.filter_sublist.append (List.Sublist.refl _)
  have hget : ∀ {k b}, b ∉ s.virtualObjects.removed.map Prod.snd →
      s.applyRemovals.heap.get k b = s.heap.get k b := by
    intro k b hb
    apply Heap.get_congr
    exact (objects_foldl_destroy _).trans (if_neg hb)
  have hcontainers : s.applyRemovals.containers = s.containers := containers_foldl_destroy _
  refine ⟨?_, ?_, ?_, ?_⟩
  · rw [hcontainers]
    exact h.noVirtualObjects
  · intro k id a ha
    rw [PoolState.get, hcontainers] at ha
    obtain ⟨x, hx, hid⟩ := h.containers ha
    refine ⟨x, (hget fun hmem => ?_).trans hx, hid⟩
    obtain ⟨e, he, rfl⟩ := List.mem_map.mp hmem
    have hk : k ≠ .virtualObjects := by
      rintro rfl
      rw [h.noVirtualObjects] at ha
      cases ha
    exact h.ne_virtualObject hk ha (List.mem_append_left _ (List.mem_of_mem_filter he)) rfl
  · intro e he
    obtain ⟨o, ho⟩ := h.virtualObjects e (hsub.subset he)
    refine ⟨o, (hget fun hremoved => ?_).trans ho⟩
    obtain ⟨e', he', haddress⟩ := List.mem_map.mp hremoved
    obtain ⟨hmem', hgone⟩ := List.mem_filter.mp he'
    obtain rfl := List.inj_on_of_nodup_map h.nodup (List.mem_append_left _ hmem') (hsub.subset he)
      haddress
    -- an address is not both among the resources and among the new ones
    rcases List.mem_append.mp he with hkept | hnew
    · exact of_decide_eq_true (List.mem_filter.mp hkept).2 (of_decide_eq_true hgone)
    · have hnodup := h.nodup
      rw [LoopContainer.owned, List.map_append, List.nodup_append] at hnodup
      exact hnodup.2.2 _ (List.mem_map_of_mem hmem') _ (List.mem_map_of_mem hnew) rfl
  · exact h.nodup.sublist (hsub.map _)

theorem Owned.forEachVirtualObject (h : Owned s) : Owned s.forEachVirtualObject :=
  h.mergeNew.applyRemovals

theorem owned_destroyPool (s : PoolState) : Owned s.destroyPool :=
  ⟨rfl, (nomatch ·), nofun, List.nodup_nil⟩

theorem Owned.handled (h : Owned s) (hs' : Handled s s') : Owned s' := by
  cases hs' with
  | newVirtualObject id => exact h.newVirtualObject id
  | deleteVirtualObject id => exact ⟨h.noVirtualObjects, h.containers, h.virtualObjects, h.nodup⟩
  | new hk _ => exact h.addNew hk _
  | delete hk id => exact h.scheduleRemove hk id
  | method hf a => exact h.update hf.id a
  | newInto hf a hk _ => exact (h.update hf.id a).addNew hk _
  | commit a => exact h.commitVirtualObject a
  | move _ position quaternion => exact ⟨h.noVirtualObjects, h.containers, h.virtualObjects, h.nodup⟩

theorem Owned.step {gl : Driver} {l : PoolLabel} (h : Owned s)
    (hstep : (poolMachine gl).step s l = some s') : Owned s' := by
  cases l with
  | request r => exact h.handled (handle_cases (handle_of_step hstep))
  | newSession => exact newSession_of_step hstep ▸ owned_destroyPool s
  | mergeNew => exact mergeNew_of_step hstep ▸ h.mergeNew
  | applyRemovals => exact applyRemovals_of_step hstep ▸ h.applyRemovals
  | executeNext =>
    rcases executeNext_cases hstep with ⟨rest, -, rfl⟩ | ⟨c, rest, -, rfl⟩
    · exact ⟨h.noVirtualObjects, h.containers, h.virtualObjects, h.nodup⟩
    · exact ⟨h.noVirtualObjects, h.containers, h.virtualObjects, h.nodup⟩

theorem owned_run {gl : Driver} {ls : List PoolLabel} (hrun : (poolMachine gl).run ls = some s) :
    Owned s := by
  apply Machine.run_invariant _ _ hrun
  · exact ⟨rfl, (nomatch ·), nofun, List.nodup_nil⟩
  · exact fun _ _ _ h hstep => h.step hstep

-- ---------------------------------------------------------------------------
-- Faults
-- ---------------------------------------------------------------------------

end PoolState

namespace Request

/-- The resource whose method the handler calls. -/
def target : Request → Option (Kind × UInt64)
  | .virtualObjectCommit id | .virtualObjectMove id _ _ => some (.virtualObjects, id)
  | .renderingUnitNew _ virtualObjectId => some (.virtualObjects, virtualObjectId)
  | .glBaseTechniqueNew _ renderingUnitId => some (.renderingUnits, renderingUnitId)
  | .bindProgram id _ | .bindVertexArray id _ | .glUniform id _ | .bindTexture id _ _ _ _ _
  | .glDrawArrays id _ _ _ | .glDrawElements id _ _ _ _ _ => some (.glBaseTechniques, id)
  | .glEnableVertexAttribArray id _ | .glDisableVertexAttribArray id _
  | .glVertexAttribPointer id _ _ _ _ _ _ _ => some (.glVertexArrays, id)
  | .glBufferData id _ _ _ => some (.glBuffers, id)
  | .glAttachShader id _ | .glLinkProgram id => some (.glPrograms, id)
  | .glTexImage2D id _ _ | .glTexSubImage2D id _ _ | .glGenerateMipmap id _ =>
    some (.glTextures, id)
  | .glSamplerParameterf id _ _ | .glSamplerParameteri id _ _ | .glSamplerParameterfv id _ _
  | .glSamplerParameteriv id _ _ | .glSamplerParameterIiv id _ _ | .glSamplerParameterIuiv id _ _ =>
    some (.glSamplers, id)
  | _ => none

/-- The fields that are copied to a fixed number of bytes have as many. -/
def FieldsFit : Request → Prop
  | .virtualObjectMove _ position quaternion =>
    PoolState.sizeofVec3 ≤ position.length ∧ PoolState.sizeofQuat ≤ quaternion.length
  | _ => True

end Request

namespace PoolState

variable {s s' : PoolState} {k : Kind} {a : Nat}

/-- The pool has a resource of the kind with the id. -/
def Holds (s : PoolState) (k : Kind) (id : UInt64) : Prop :=
  match k with
  | .virtualObjects => ∃ e ∈ s.virtualObjects.owned, e.1 = id
  | k => ∃ a, s.get k id = some a

/-- The request names a resource that is in the pool, and its fields are long enough. -/
def Serves (s : PoolState) (r : Request) : Prop :=
  (∀ k id, r.target = some (k, id) → s.Holds k id) ∧ r.FieldsFit

theorem Owned.deref_of_get (h : Owned s) {id : UInt64} (ha : s.get k id = some a) :
    s.deref k (s.get k id) = .ok a := by
  obtain ⟨x, hx, -⟩ := h.containers ha
  rw [ha, deref, hx]
  rfl

theorem Owned.callMethod_ok_iff (h : Owned s) {id : UInt64} {f : Object k → Object k} :
    (∃ s', s.callMethod k id f = .ok s') ↔ ∃ a, s.get k id = some a := by
  constructor
  · rintro ⟨s', hs'⟩
    obtain ⟨a, ha, -⟩ := bind_eq_ok hs'
    cases hget : s.get k id with
    | none =>
      rw [hget] at ha
      cases ha
    | some b => exact ⟨b, rfl⟩
  · rintro ⟨a, ha⟩
    refine ⟨s.update k f a, ?_⟩
    rw [callMethod, h.deref_of_get ha]
    rfl

/-- The lookup of a virtual object, and the method call on what it gives. -/
theorem Owned.exists_virtualObject_iff (h : Owned s) {id : UInt64} :
    (∃ p a, s.virtualObjects.get id = .ok p ∧ s.deref .virtualObjects p = .ok a) ↔
      s.Holds .virtualObjects id := by
  constructor
  · rintro ⟨p, a, hp, ha⟩
    cases p with
    | none => cases ha
    | some b => exact ⟨_, LoopContainer.get_eq_ok_some hp, rfl⟩
  · intro hmem
    obtain ⟨a, ha⟩ := LoopContainer.exists_get_of_mem hmem
    obtain ⟨o, ho⟩ := h.virtualObjects _ (LoopContainer.get_eq_ok_some ha)
    refine ⟨some a, a, ha, ?_⟩
    rw [deref, ho]
    rfl

theorem holds_iff (hk : k ≠ .virtualObjects) {id : UInt64} :
    s.Holds k id ↔ ∃ a, s.get k id = some a := by
  cases k with
  | virtualObjects => contradiction
  | _ => rfl

theorem copyField_ok_iff {field : Bytes} {size : Nat} :
    (∃ b, copyField field size = .ok b) ↔ size ≤ field.length := by
  unfold copyField
  split
  · rename_i hle
    exact ⟨fun _ => hle, fun _ => ⟨_, rfl⟩⟩
  · rename_i hgt
    exact ⟨nofun, fun hle => absurd hle hgt⟩

theorem serves_of_target {r : Request} {id : UInt64} (htarget : r.target = some (k, id)) :
    s.Serves r ↔ s.Holds k id ∧ r.FieldsFit := by
  rw [Serves, htarget]
  constructor
  · rintro ⟨hholds, hfit⟩
    exact ⟨hholds k id rfl, hfit⟩
  · rintro ⟨hholds, hfit⟩
    refine ⟨?_, hfit⟩
    rintro k' id' ⟨⟩
    exact hholds

theorem Owned.callMethod_serves (h : Owned s) {r : Request} {id : UInt64} {f : Object k → Object k}
    (htarget : r.target = some (k, id)) (hk : k ≠ .virtualObjects) (hfit : r.FieldsFit)
    (hr : s.handle r = s.callMethod k id f) : (∃ s', s.handle r = .ok s') ↔ s.Serves r := by
  rw [serves_of_target htarget, holds_iff hk, and_iff_left hfit, hr]
  exact h.callMethod_ok_iff

theorem serves_of_ok {r : Request} (htarget : r.target = none) (hfit : r.FieldsFit)
    (hr : s.handle r = .ok s') : (∃ s', s.handle r = .ok s') ↔ s.Serves r := by
  refine ⟨fun _ => ⟨?_, hfit⟩, fun _ => ⟨s', hr⟩⟩
  rw [htarget]
  exact nofun

/-- The handlers that call a method of a virtual object first. -/
theorem Owned.virtualObject_serves (h : Owned s) {r : Request} {id : UInt64}
    {g : Nat → Except Fault PoolState} (htarget : r.target = some (.virtualObjects, id))
    (hfit : r.FieldsFit) (hr : s.handle r = s.virtualObjects.get id >>= fun p =>
      s.deref .virtualObjects p >>= g) (hg : ∀ a, ∃ s', g a = .ok s') :
    (∃ s', s.handle r = .ok s') ↔ s.Serves r := by
  rw [serves_of_target htarget, and_iff_left hfit, hr, ← h.exists_virtualObject_iff]
  constructor
  · rintro ⟨s', hs'⟩
    obtain ⟨p, hp, hs'⟩ := bind_eq_ok hs'
    obtain ⟨a, ha, -⟩ := bind_eq_ok hs'
    exact ⟨p, a, hp, ha⟩
  · rintro ⟨p, a, hp, ha⟩
    obtain ⟨s', hs'⟩ := hg a
    refine ⟨s', ?_⟩
    rw [hp]
    show s.deref .virtualObjects p >>= g = _
    rw [ha]
    exact hs'

theorem Owned.move_serves (h : Owned s) (id : UInt64) (position quaternion : Bytes) :
    (∃ s', s.handle (.virtualObjectMove id position quaternion) = .ok s') ↔
      s.Serves (.virtualObjectMove id position quaternion) := by
  rw [serves_of_target rfl, Request.FieldsFit, ← copyField_ok_iff, ← copyField_ok_iff,
    ← h.exists_virtualObject_iff]
  constructor
  · rintro ⟨s', hs'⟩
    obtain ⟨p, hp, hs'⟩ := bind_eq_ok hs'
    obtain ⟨position', hposition, hs'⟩ := bind_eq_ok hs'
    obtain ⟨quaternion', hquaternion, hs'⟩ := bind_eq_ok hs'
    obtain ⟨a, ha, -⟩ := bind_eq_ok hs'
    exact ⟨⟨p, a, hp, ha⟩, ⟨position', hposition⟩, ⟨quaternion', hquaternion⟩⟩
  · rintro ⟨⟨p, a, hp, ha⟩, ⟨position', hposition⟩, ⟨quaternion', hquaternion⟩⟩
    refine ⟨s.moveVirtualObject a position' quaternion', ?_⟩
    rw [handle, VirtualObjectServiceImpl.move, hp, hposition, hquaternion]
    show s.deref .virtualObjects p >>= _ = _
    rw [ha]
    rfl

theorem Owned.glBaseTechniqueNew_serves (h : Owned s) (id renderingUnitId : UInt64) :
    (∃ s', s.handle (.glBaseTechniqueNew id renderingUnitId) = .ok s') ↔
      s.Serves (.glBaseTechniqueNew id renderingUnitId) := by
  have hfit : (Request.glBaseTechniqueNew id renderingUnitId).FieldsFit := trivial
  rw [serves_of_target rfl, holds_iff (by decide), and_iff_left hfit]
  constructor
  · rintro ⟨s', hs'⟩
    obtain ⟨a, ha, -⟩ := bind_eq_ok hs'
    cases hget : s.get .renderingUnits renderingUnitId with
    | none =>
      rw [hget] at ha
      cases ha
    | some b => exact ⟨b, rfl⟩
  · rintro ⟨a, ha⟩
    rw [handle, GlBaseTechniqueServiceImpl.new, h.deref_of_get ha]
    exact ⟨_, rfl⟩

theorem Owned.handle_ok_iff (h : Owned s) (r : Request) :
    (∃ s', s.handle r = .ok s') ↔ s.Serves r := by
  cases r with
  | virtualObjectCommit id =>
    exact h.virtualObject_serves rfl trivial rfl fun _ => ⟨_, rfl⟩
  | renderingUnitNew id virtualObjectId =>
    exact h.virtualObject_serves rfl trivial rfl fun _ => ⟨_, rfl⟩
  | virtualObjectMove id position quaternion => exact h.move_serves id position quaternion
  | glBaseTechniqueNew id renderingUnitId => exact h.glBaseTechniqueNew_serves id renderingUnitId
  | virtualObjectNew _ | virtualObjectDelete _ | renderingUnitDelete _ | glBaseTechniqueDelete _
  | glVertexArrayNew _ | glVertexArrayDelete _ | glBufferNew _ | glBufferDelete _
  | glShaderNew _ _ _ | glShaderDelete _ | glProgramNew _ | glProgramDelete _ | glTextureNew _
  | glTextureDelete _ | glSamplerNew _ | glSamplerDelete _ =>
    exact serves_of_ok rfl trivial rfl
  | bindProgram _ _ | bindVertexArray _ _ | glUniform _ _ | bindTexture _ _ _ _ _ _
  | glDrawArrays _ _ _ _ | glDrawElements _ _ _ _ _ _ | glEnableVertexAttribArray _ _
  | glDisableVertexAttribArray _ _ | glVertexAttribPointer _ _ _ _ _ _ _ _ | glBufferData _ _ _ _
  | glAttachShader _ _ | glLinkProgram _ | glTexImage2D _ _ _ | glTexSubImage2D _ _ _
  | glGenerateMipmap _ _ | glSamplerParameterf _ _ _ | glSamplerParameteri _ _ _
  | glSamplerParameterfv _ _ _ | glSamplerParameteriv _ _ _ | glSamplerParameterIiv _ _ _
  | glSamplerParameterIuiv _ _ _ =>
    exact h.callMethod_serves rfl (by decide) trivial rfl

/-- In every reachable state a handler returns a status exactly for the requests
that name what the pool holds and whose fields are long enough. -/
theorem handle_ok_iff_serves {gl : Driver} {ls : List PoolLabel}
    (hrun : (poolMachine gl).run ls = some s) (r : Request) :
    (∃ s', s.handle r = .ok s') ↔ s.Serves r :=
  (owned_run hrun).handle_ok_iff r

/-- The requests of two channels: the unit is created on one, its technique on the other. -/
def unitBeforeTechnique : List PoolLabel :=
  [.request (.virtualObjectNew 1), .mergeNew, .applyRemovals, .request (.renderingUnitNew 2 1)]

theorem handle_ok_iff_serves_unitBeforeTechnique :
    ∃ s, (poolMachine constantDriver).run unitBeforeTechnique = some s ∧
      ((∃ s', s.handle (.glBaseTechniqueNew 3 2) = .ok s') ↔ s.Serves (.glBaseTechniqueNew 3 2)) := by
  obtain ⟨s, hrun⟩ : ∃ s, (poolMachine constantDriver).run unitBeforeTechnique = some s := ⟨_, rfl⟩
  exact ⟨s, hrun, handle_ok_iff_serves hrun _⟩

/-- The technique is created before the request for its unit has arrived; a virtual
object is moved to a position of no bytes. -/
theorem not_handle_ok_techniqueBeforeUnit :
    ∃ s, (poolMachine constantDriver).run
        [.request (.virtualObjectNew 1), .mergeNew, .applyRemovals] = some s ∧
      (¬ ∃ s', s.handle (.glBaseTechniqueNew 3 2) = .ok s') ∧
      ¬ ∃ s', s.handle (.virtualObjectMove 1 [] []) = .ok s' := by
  refine ⟨_, rfl, ?_, ?_⟩
  · rintro ⟨s', hs'⟩
    cases hs'
  · rintro ⟨s', hs'⟩
    cases hs'

end PoolState

end ZenRemote.Client
