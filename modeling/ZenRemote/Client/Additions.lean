-- SUMMARY: Requests that delete nothing: what they leave as it is for the rendering thread.
import ZenRemote.Client.CommitSnapshot
import ZenRemote.Client.Pointers

/-!
# Additions

A request that deletes nothing lets everything live that has been made, adds to the queue
and adds virtual objects to those that are to be traversed. What the rendering thread
locks of the resources that were there before is found or not found as before.
-/

namespace ZenRemote.Client

/-- What the first heap has made lives on in the second. -/
structure Carried (h h' : Heap Object) : Prop where
  later : h.Later h'
  survives : ∀ k a, Survives h h' k a

theorem Carried.isSome_get {h h' : Heap Object} {k : Kind} {a : Nat} (hh' : Carried h h') (ha : a < h.next) :
    (h'.get k a).isSome = (h.get k a).isSome := by
  cases halive : (h.get k a).isSome with
  | true => exact hh'.survives k a halive
  | false =>
    rw [Option.isSome_eq_false_iff, Option.isNone_iff_eq_none] at halive
    rw [hh'.later.gone k a ha halive]
    rfl

theorem Carried.isSome_lock {h h' : Heap Object} {k : Kind} {p : WeakPtr} (hh' : Carried h h')
    (hp : Below h.next [p]) : (h'.lock k p).isSome = (h.lock k p).isSome := by
  cases p with
  | none => rfl
  | some a => exact hh'.isSome_get (hp a (List.mem_singleton_self _))

namespace Rendering

variable {R : Rendering} {h h' : Heap Object} {k : Kind} {τ : Type} {f : RenderingState k → τ} {p : WeakPtr}

theorem lock_carried (hh' : Carried h h') (hp : Below h.next [p]) : R.lock h' k f p = R.lock h k f p :=
  ((lock_eq_iff hh'.later hp).mpr fun b _ => hh'.survives k b).symm

end Rendering

namespace PoolState

variable {gl : Driver} {s s' : PoolState}

-- ---------------------------------------------------------------------------
-- Commit markers
-- ---------------------------------------------------------------------------

/-- `commit_count_` is the number of markers in the queue. -/
def Counted (s : PoolState) : Prop :=
  s.updateRenderingQueue.commitCount = UpdateQueue.commits s.updateRenderingQueue.queue

/-- Closures are pushed at most. -/
structure Pushes (s s' : PoolState) : Prop where
  commitCount : s'.updateRenderingQueue.commitCount = s.updateRenderingQueue.commitCount
  commits : UpdateQueue.commits s'.updateRenderingQueue.queue =
    UpdateQueue.commits s.updateRenderingQueue.queue

theorem Pushes.trans {s'' : PoolState} (h : Pushes s s') (h' : Pushes s' s'') : Pushes s s'' :=
  ⟨h'.commitCount.trans h.commitCount, h'.commits.trans h.commits⟩

theorem pushes_pushAll {k : Kind} {a : Nat} (cs : List (Command k)) : Pushes s (s.pushAll k a cs) := by
  have hnone : UpdateQueue.commits (cs.map fun c => CommandInfo.command (⟨k, a, c⟩ : Closure)) = 0 := by
    rw [UpdateQueue.commits, List.countP_map]
    exact List.countP_eq_zero.mpr fun _ _ => Bool.false_ne_true
  constructor
  · rw [queue_pushAll]
  · rw [queue_pushAll, UpdateQueue.commits, List.countP_append]
    exact congrArg _ hnone

theorem pushes_destroy (s : PoolState) (a : Nat) : Pushes s (s.destroy a) := by
  unfold destroy
  split
  · exact ⟨(pushes_pushAll _).commitCount, (pushes_pushAll _).commits⟩
  · exact ⟨rfl, rfl⟩

theorem pushes_foldl_destroy (s : PoolState) (as : List Nat) : Pushes s (as.foldl destroy s) :=
  List.foldlRecOn as destroy ⟨rfl, rfl⟩ fun s' hs' a _ => hs'.trans (pushes_destroy s' a)

theorem pushes_destroyPool (s : PoolState) : Pushes s s.destroyPool :=
  ⟨(pushes_foldl_destroy s _).commitCount, (pushes_foldl_destroy s _).commits⟩

theorem pushes_forEachVirtualObject (s : PoolState) : Pushes s s.forEachVirtualObject :=
  ⟨(pushes_foldl_destroy s.mergeNew _).commitCount, (pushes_foldl_destroy s.mergeNew _).commits⟩

theorem Walk.pushes {K : Kind → Prop} (h : Walk K s s') : Pushes s s' := by
  apply h.invariant (I := Pushes s) _ ⟨rfl, rfl⟩
  intro t k a ht
  rcases commitOne_cases t k a with heq | ⟨x, -, heq⟩
  · rw [heq]
    exact ht
  · rw [heq]
    exact ht.trans ⟨(pushes_pushAll _).commitCount, (pushes_pushAll _).commits⟩

theorem pushes_addNew {k : Kind} (s : PoolState) (x : Object k) : Pushes s (s.addNew k x) := by
  unfold addNew
  dsimp only
  split
  · exact ⟨rfl, rfl⟩
  · exact ⟨(pushes_destroy _ _).commitCount, (pushes_destroy _ _).commits⟩

theorem pushes_scheduleRemove (s : PoolState) (k : Kind) (id : UInt64) :
    Pushes s (s.scheduleRemove k id) := by
  unfold PoolState.scheduleRemove
  split
  · exact ⟨rfl, rfl⟩
  · exact ⟨(pushes_destroy _ _).commitCount, (pushes_destroy _ _).commits⟩

theorem Counted.pushes (h : Counted s) (hs' : Pushes s s') : Counted s' :=
  hs'.commitCount.trans (h.trans hs'.commits.symm)

theorem Counted.commit (h : Counted s) :
    Counted { s with updateRenderingQueue := s.updateRenderingQueue.commit } := by
  show s.updateRenderingQueue.commitCount + 1 = UpdateQueue.commits (_ ++ [_])
  rw [UpdateQueue.commits, List.countP_append, h]
  rfl

theorem Counted.handled (h : Counted s) (hs' : Handled s s') : Counted s' := by
  cases hs' with
  | newVirtualObject id | deleteVirtualObject id | method _ a => exact h
  | new _ _ => exact h.pushes (pushes_addNew s _)
  | delete _ id => exact h.pushes (pushes_scheduleRemove s _ id)
  | @newInto k _ f _ a _ _ _ =>
    have hupdated : Counted (s.update k f a) := h
    exact hupdated.pushes (pushes_addNew _ _)
  | commit a =>
    rcases walk_commitVirtualObject s a with heq | ⟨s', hwalk, heq⟩
    · rw [heq]
      exact h
    · rw [heq]
      exact (h.pushes hwalk.pushes).commit
  | @move a _ _ position quaternion =>
    have hpushed : Counted (s.pushAll .virtualObjects a (VirtualObject.moveCommands position quaternion)) :=
      h.pushes (pushes_pushAll _)
    exact hpushed.commit

theorem Counted.executeNext (h : Counted s) (hs' : s.executeNext gl = some s') : Counted s' := by
  unfold Counted at h
  rcases executeNext_cases hs' with ⟨rest, hqueue, rfl⟩ | ⟨c, rest, hqueue, rfl⟩
  · rw [hqueue, UpdateQueue.commits, List.countP_cons_of_pos (by rfl)] at h
    show s.updateRenderingQueue.commitCount - 1 = _
    rw [h]
    exact Nat.add_sub_cancel ..
  · rw [hqueue, UpdateQueue.commits, List.countP_cons_of_neg (by simp [CommandInfo.isCommit])] at h
    exact h

-- ---------------------------------------------------------------------------
-- Requests that delete nothing
-- ---------------------------------------------------------------------------

/-- What such a request can do to what the rendering thread works with. -/
structure Adds (s s' : PoolState) : Prop where
  grows : Grows s s'
  commitCount : s.updateRenderingQueue.commitCount ≤ s'.updateRenderingQueue.commitCount
  carried : Carried s.heap s'.heap
  objects : ∃ new, s'.virtualObjects.owned = s.virtualObjects.owned ++ new ∧ ∀ e ∈ new, s.heap.next ≤ e.2
  removeSet : s'.virtualObjects.removeSet = s.virtualObjects.removeSet

theorem survives_of_related {h h' : Heap Object} {r : ∀ k, Object k → Object k → Prop}
    (hh' : Heap.Related r h h') (k : Kind) (a : Nat) : Survives h h' k a := by
  intro halive
  obtain ⟨x, hx⟩ := Option.isSome_iff_exists.mp halive
  obtain ⟨y, hy, -⟩ := hh'.exists_get hx
  exact Option.isSome_iff_exists.mpr ⟨y, hy⟩

theorem survives_of_eq {h h' : Heap Object} {k : Kind} {a : Nat}
    (hsame : a < h.next → h'.get k a = h.get k a) : Survives h h' k a := by
  intro halive
  obtain ⟨x, hx⟩ := Option.isSome_iff_exists.mp halive
  rw [hsame (Heap.lt_next_of_get hx)]
  exact halive

theorem next_destroy (a : Nat) : (s.destroy a).heap.next = s.heap.next := by
  unfold destroy
  split
  · rfl
  · rfl

theorem next_foldl_destroy (as : List Nat) : (as.foldl destroy s).heap.next = s.heap.next := by
  induction as generalizing s with
  | nil => rfl
  | cons a as ih => exact ih.trans (next_destroy a)

theorem next_forEachVirtualObject : s.forEachVirtualObject.heap.next = s.heap.next :=
  next_foldl_destroy _

/-- A traversal pushes closures of destructors at most. -/
theorem grows_forEachVirtualObject (s : PoolState) : Grows s s.forEachVirtualObject :=
  have hmerged : Grows s s.mergeNew := grows_of_eq rfl rfl
  have hremoved : Grows s.mergeNew s.forEachVirtualObject :=
    (grows_foldl_destroy s.mergeNew _).trans (grows_of_eq rfl rfl)
  hmerged.trans hremoved

theorem adds_update {k : Kind} (f : Object k → Object k) (a : Nat) : Adds s (s.update k f a) where
  grows := grows_of_eq rfl rfl
  commitCount := Nat.le_refl _
  carried := ⟨Heap.later_modify f, survives_of_related
    (Heap.related_modify (r := fun _ _ _ => True) (fun _ _ => trivial) f fun _ _ => trivial)⟩
  objects := ⟨[], (List.append_nil _).symm, nofun⟩
  removeSet := rfl

theorem adds_addNew {k : Kind} (x : Object k) : Adds s (s.addNew k x) where
  grows := grows_addNew s x
  commitCount := (pushes_addNew s x).commitCount.ge
  carried := by
    refine ⟨later_addNew x, fun k' a => survives_of_eq fun ha => ?_⟩
    have halloc : (s.heap.alloc k x).get k' a = s.heap.get k' a :=
      Heap.get_alloc_of_ne x (Nat.ne_of_lt ha)
    unfold addNew
    dsimp only
    split
    · exact halloc
    · exact (get_destroy_of_ne (Nat.ne_of_lt ha)).trans halloc
  objects := ⟨[], by rw [virtualObjects_addNew, List.append_nil], nofun⟩
  removeSet := by rw [virtualObjects_addNew]

theorem Adds.trans {s'' : PoolState} (h : Adds s s') (h' : Adds s' s'') : Adds s s'' where
  grows := h.grows.trans h'.grows
  commitCount := Nat.le_trans h.commitCount h'.commitCount
  carried := ⟨h.carried.later.trans h'.carried.later,
    fun k a halive => h'.carried.survives k a (h.carried.survives k a halive)⟩
  objects := by
    obtain ⟨new, howned, hnew⟩ := h.objects
    obtain ⟨new', howned', hnew'⟩ := h'.objects
    refine ⟨new ++ new', by rw [howned', howned, List.append_assoc], fun e he => ?_⟩
    cases List.mem_append.mp he with
    | inl he => exact hnew e he
    | inr he => exact Nat.le_trans h.carried.later.next_le (hnew' e he)
  removeSet := h'.removeSet.trans h.removeSet

theorem adds_commitVirtualObject (a : Nat) : Adds s (s.commitVirtualObject a) := by
  have hgrows := grows_commitVirtualObject s a
  have hlater := later_commitVirtualObject (s := s) a
  rcases walk_commitVirtualObject s a with heq | ⟨s', hwalk, heq⟩
  · rw [heq]
    exact ⟨.refl s, Nat.le_refl _, ⟨.refl _, fun _ _ h => h⟩, ⟨[], (List.append_nil _).symm, nofun⟩, rfl⟩
  · rw [heq] at hgrows hlater ⊢
    obtain ⟨-, hobjects, -⟩ := hwalk.frame
    refine ⟨hgrows, ?_, ⟨hlater, survives_of_related hwalk.sameIds⟩, ⟨[], ?_, nofun⟩, ?_⟩
    · exact hwalk.pushes.commitCount ▸ Nat.le_succ _
    · rw [List.append_nil]
      exact congrArg LoopContainer.owned hobjects
    · exact congrArg LoopContainer.removeSet hobjects

theorem adds_handle {r : Request} (hr : r.deletes = none) (hs' : s.handle r = .ok s') : Adds s s' := by
  have hmethod : ∀ {k : Kind} {id : UInt64} {f : Object k → Object k},
      s.callMethod k id f = .ok s' → Adds s s' := by
    intro k id f hs'
    obtain ⟨a, -, hs'⟩ := bind_eq_ok hs'
    cases hs'
    exact adds_update f a
  have hgrows := grows_handled (handle_cases hs')
  have hlater := later_handled (handle_cases hs')
  cases r with
  | virtualObjectNew id =>
    cases hs'
    refine ⟨hgrows, Nat.le_refl _, ⟨hlater, fun k a => survives_of_eq fun ha => ?_⟩,
      ⟨[(id, s.heap.next)], (List.append_assoc ..).symm, ?_⟩, rfl⟩
    · exact Heap.get_alloc_of_ne _ (Nat.ne_of_lt ha)
    · intro e he
      rw [List.mem_singleton.mp he]
  | virtualObjectCommit id =>
    obtain ⟨p, -, hs'⟩ := bind_eq_ok hs'
    obtain ⟨a, -, hs'⟩ := bind_eq_ok hs'
    cases hs'
    exact adds_commitVirtualObject a
  | virtualObjectMove id position quaternion =>
    obtain ⟨p, -, hs'⟩ := bind_eq_ok hs'
    obtain ⟨position, -, hs'⟩ := bind_eq_ok hs'
    obtain ⟨quaternion, -, hs'⟩ := bind_eq_ok hs'
    obtain ⟨a, -, hs'⟩ := bind_eq_ok hs'
    cases hs'
    refine ⟨hgrows, ?_, ⟨hlater, fun _ _ h => h⟩, ⟨[], (List.append_nil _).symm, nofun⟩, rfl⟩
    exact Nat.le_succ _
  | renderingUnitNew id virtualObjectId =>
    obtain ⟨p, -, hs'⟩ := bind_eq_ok hs'
    obtain ⟨a, -, hs'⟩ := bind_eq_ok hs'
    cases hs'
    exact (adds_update _ a).trans (adds_addNew _)
  | glBaseTechniqueNew id renderingUnitId =>
    obtain ⟨a, -, hs'⟩ := bind_eq_ok hs'
    cases hs'
    exact (adds_update _ a).trans (adds_addNew _)
  | virtualObjectDelete id | renderingUnitDelete id | glBaseTechniqueDelete id | glVertexArrayDelete id
  | glBufferDelete id | glShaderDelete id | glProgramDelete id | glTextureDelete id
  | glSamplerDelete id => cases hr
  | glVertexArrayNew id | glBufferNew id | glShaderNew id source type | glProgramNew id
  | glTextureNew id | glSamplerNew id =>
    cases hs'
    exact adds_addNew _
  | bindProgram _ _ | bindVertexArray _ _ | glUniform _ _ | bindTexture _ _ _ _ _ _
  | glDrawArrays _ _ _ _ | glDrawElements _ _ _ _ _ _ | glEnableVertexAttribArray _ _
  | glDisableVertexAttribArray _ _ | glVertexAttribPointer _ _ _ _ _ _ _ _ | glBufferData _ _ _ _
  | glAttachShader _ _ | glLinkProgram _ | glTexImage2D _ _ _ | glTexSubImage2D _ _ _
  | glGenerateMipmap _ _ | glSamplerParameterf _ _ _ | glSamplerParameteri _ _ _
  | glSamplerParameterfv _ _ _ | glSamplerParameteriv _ _ _ | glSamplerParameterIiv _ _ _
  | glSamplerParameterIuiv _ _ _ =>
    exact hmethod hs'

end PoolState

end ZenRemote.Client
