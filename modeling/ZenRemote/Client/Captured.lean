-- SUMMARY: The weak pointers in closures and rendering states: what they point to has been made before.
import ZenRemote.Client.RequestSafety

/-!
# Captured pointers

A closure that waits in the queue, and what it has stored in a rendering state,
refers to resources by weak pointers. All of them were made from resources that
existed, so that one that has expired stays so.
-/

namespace ZenRemote.Client

/-- The weak pointers that a closure locks, or stores for another one to lock. -/
def Closure.captured : Closure → List WeakPtr
  | ⟨.glPrograms, _, GlProgram.Command.link shaders⟩ => shaders
  | ⟨.glVertexArrays, _, GlVertexArray.Command.replay attributes⟩ =>
    attributes.entries.map fun e => e.2.glBuffer
  | ⟨.glBaseTechniques, _, GlBaseTechnique.Command.program p⟩ => [p]
  | _ => []

/-- The pointers are to addresses below `n`. -/
def Below (n : Nat) (ps : List WeakPtr) : Prop := ∀ a, some a ∈ ps → a < n

theorem Below.mono {n n' : Nat} {ps : List WeakPtr} (hps : Below n ps) (hn : n ≤ n') : Below n' ps :=
  fun a ha => Nat.lt_of_lt_of_le (hps a ha) hn

theorem Object.captured_committed (h : Heap Object) :
    ∀ {k : Kind} (x : Object k), (x.committed h).captured ⊆ x.captured
  | .virtualObjects, _ | .renderingUnits, _ | .glBuffers, _ | .glShaders, _ | .glTextures, _
  | .glSamplers, _ => fun _ hp => hp
  | .glPrograms, x => by
    show (GlProgram.committed x).glShaders ⊆ GlProgram.glShaders x
    unfold GlProgram.committed
    split
    · exact List.nil_subset _
    · exact List.Subset.refl _
  | .glVertexArrays, v => by
    show (GlVertexArray.committed v).buffers ⊆ GlVertexArray.buffers v
    rw [GlVertexArray.buffers_committed]
    exact List.Subset.refl _
  | .glBaseTechniques, _ => fun _ hp => hp

theorem Object.captured_commitCommands (h : Heap Object) (a : Nat) :
    ∀ {k : Kind} (x : Object k), ∀ c ∈ x.commitCommands h, (⟨k, a, c⟩ : Closure).captured ⊆ x.captured
  | .virtualObjects, _, _, _ => List.nil_subset _
  | .renderingUnits, _, _, _ => List.nil_subset _
  | .glBuffers, _, _, _ => List.nil_subset _
  | .glShaders, _, _, _ => List.nil_subset _
  | .glTextures, _, _, _ => List.nil_subset _
  | .glSamplers, _, _, _ => List.nil_subset _
  | .glPrograms, x, c, hc => by
    change c ∈ GlProgram.commitCommands x at hc
    unfold GlProgram.commitCommands at hc
    split at hc
    · obtain rfl := List.mem_singleton.mp hc
      exact List.Subset.refl _
    · cases hc
  | .glVertexArrays, v, c, hc => by
    change c ∈ GlVertexArray.commitCommands v at hc
    unfold GlVertexArray.commitCommands at hc
    split at hc
    · obtain rfl := List.mem_singleton.mp hc
      exact List.Subset.refl _
    · cases hc
  | .glBaseTechniques, t, c, hc => by
    cases c with
    | program p =>
      change GlBaseTechnique.Command.program p ∈
        GlBaseTechnique.commitCommands t fun p => (h.lock .glPrograms p).isNone at hc
      have hp : p = GlBaseTechnique.program t := by
        simp only [GlBaseTechnique.commitCommands, List.mem_append, List.mem_ite_nil_right,
          List.mem_singleton, reduceCtorEq, and_false, or_false, false_or,
          GlBaseTechnique.Command.program.injEq] at hc
        exact hc.2
      rw [hp]
      exact List.Subset.refl _
    | drawMethod _ _ _ | vertexArray _ | textures _ | uniforms _ | delete => exact List.nil_subset _

/-- The programs of the techniques' rendering states. -/
def Rendering.Known (n : Nat) (R : Rendering) : Prop :=
  ∀ a, Below n [GlBaseTechnique.RenderingState.program (R.states .glBaseTechniques a)]

namespace PoolState

variable {s s' : PoolState} {k : Kind} {a : Nat}

/-- Every weak pointer that is or will be locked is of a resource that has been made. -/
structure Known (s : PoolState) : Prop where
  objects : ∀ {k a x}, s.heap.get k a = some x → Below s.heap.next x.captured
  closures : ∀ c, .command c ∈ s.updateRenderingQueue.queue → Below s.heap.next c.captured
  rendering : Rendering.Known s.heap.next s.rendering

theorem Known.pushAll (h : Known s) {cs : List (Command k)}
    (hcs : ∀ c ∈ cs, Below s.heap.next (⟨k, a, c⟩ : Closure).captured) : Known (s.pushAll k a cs) := by
  refine ⟨h.objects, fun c hc => ?_, h.rendering⟩
  rw [queue_pushAll] at hc
  cases List.mem_append.mp hc with
  | inl hold => exact h.closures c hold
  | inr hnew =>
    obtain ⟨c', hc', heq⟩ := List.mem_map.mp hnew
    cases heq
    exact hcs c' hc'

theorem Known.update (h : Known s) {f : Object k → Object k}
    (hf : ∀ x, s.heap.get k a = some x → Below s.heap.next (f x).captured) :
    Known (s.update k f a) := by
  have hnext : (s.update k f a).heap.next = s.heap.next := Heap.next_modify f
  refine ⟨fun {k' b x} hx => ?_, hnext ▸ h.closures, hnext ▸ h.rendering⟩
  rw [hnext]
  change (s.heap.modify k f a).get k' b = some x at hx
  cases Decidable.em (k = k') with
  | inr hk =>
    rw [Heap.get_modify_of_ne_kind f hk] at hx
    exact h.objects hx
  | inl hk =>
    subst hk
    cases Decidable.em (b = a) with
    | inr hb =>
      rw [Heap.get_modify_of_ne f hb] at hx
      exact h.objects hx
    | inl hb =>
      rw [hb, Heap.get_modify_self] at hx
      obtain ⟨y, hy, rfl⟩ := Option.map_eq_some_iff.mp hx
      exact hf y hy

theorem Known.commitOne (h : Known s) (k : Kind) (a : Nat) : Known (s.commitOne k a) := by
  rcases commitOne_cases s k a with heq | ⟨x, hx, heq⟩
  · rw [heq]
    exact h
  · rw [heq]
    have hpushed : Known (s.pushAll k a (x.commitCommands s.heap)) :=
      h.pushAll fun c hc b hb => h.objects hx b (Object.captured_commitCommands s.heap a x c hc hb)
    exact hpushed.update fun y hy b hb =>
      h.objects hy b (Object.captured_committed s.heap y hb)

theorem Known.commitVirtualObject (h : Known s) (a : Nat) : Known (s.commitVirtualObject a) := by
  rcases walk_commitVirtualObject s a with heq | ⟨s', hwalk, heq⟩
  · rw [heq]
    exact h
  · rw [heq]
    have hs' := hwalk.invariant (I := Known) (fun _ k a ht => ht.commitOne k a) h
    refine ⟨hs'.objects, fun c hc => ?_, hs'.rendering⟩
    cases List.mem_append.mp hc with
    | inl hold => exact hs'.closures c hold
    | inr hmarker => cases List.mem_singleton.mp hmarker

theorem Known.moveVirtualObject (h : Known s) (a : Nat) (position quaternion : Bytes) :
    Known (s.moveVirtualObject a position quaternion) := by
  have hs' : Known (s.pushAll .virtualObjects a (VirtualObject.moveCommands position quaternion)) :=
    h.pushAll fun _ _ => nofun
  refine ⟨hs'.objects, fun c hc => ?_, hs'.rendering⟩
  cases List.mem_append.mp hc with
  | inl hold => exact hs'.closures c hold
  | inr hmarker => cases List.mem_singleton.mp hmarker

/-- Nothing but a destructor's closure is added. -/
theorem Known.destroy (h : Known s) (a : Nat) : Known (s.destroy a) := by
  unfold PoolState.destroy
  split
  · rename_i k x hx
    have hs' : Known (s.pushAll k a [Command.delete k]) := by
      apply h.pushAll
      intro c hc
      obtain rfl := List.mem_singleton.mp hc
      cases k with
      | _ => exact fun _ => nofun
    refine ⟨fun {k' b y} hy => hs'.objects (k := k') (a := b) (x := y) ?_, hs'.closures, hs'.rendering⟩
    cases Decidable.em (b = a) with
    | inl hb =>
      rw [Heap.get_eq_some, hb] at hy
      cases (Function.update_self ..).symm.trans hy
    | inr hb =>
      rw [Heap.get_eq_some] at hy ⊢
      exact (Function.update_of_ne hb ..).symm.trans hy
  · exact h

theorem Known.foldl_destroy (h : Known s) (as : List Nat) :
    Known (as.foldl PoolState.destroy s) := by
  induction as generalizing s with
  | nil => exact h
  | cons a as ih => exact ih (h.destroy a)

theorem Known.alloc (h : Known s) {x : Object k} (hx : ∀ b, some b ∉ x.captured) :
    Known { s with heap := s.heap.alloc k x } := by
  have hnext : s.heap.next ≤ (s.heap.alloc k x).next := Nat.le_succ _
  refine ⟨fun {k' a y} hy => ?_, fun c hc => (h.closures c hc).mono hnext,
    fun a => (h.rendering a).mono hnext⟩
  cases Decidable.em (a = s.heap.next) with
  | inr ha => exact (h.objects ((Heap.get_alloc_of_ne x ha).symm.trans hy)).mono hnext
  | inl ha =>
    change (s.heap.alloc k x).get k' a = some y at hy
    rw [ha] at hy
    obtain rfl := Heap.kind_eq_of_get (Heap.get_alloc_self x) hy
    obtain rfl := Option.some.inj ((Heap.get_alloc_self x).symm.trans hy)
    exact fun b hb => absurd hb (hx b)

/-- The containers play no part. -/
theorem Known.of_eq (h : Known s) (hheap : s'.heap = s.heap)
    (hqueue : s'.updateRenderingQueue.queue = s.updateRenderingQueue.queue)
    (hrendering : s'.rendering = s.rendering) : Known s' := by
  refine ⟨?_, ?_, ?_⟩
  · rw [hheap]
    exact h.objects
  · rw [hheap, hqueue]
    exact h.closures
  · rw [hheap, hrendering]
    exact h.rendering

theorem Known.addNew (h : Known s) {x : Object k} (hx : ∀ b, some b ∉ x.captured) :
    Known (s.addNew k x) := by
  unfold PoolState.addNew
  simp only
  split
  · exact (h.alloc hx).of_eq rfl rfl rfl
  · exact (h.alloc hx).destroy _

theorem Known.scheduleRemove (h : Known s) (k : Kind) (id : UInt64) : Known (s.scheduleRemove k id) := by
  unfold PoolState.scheduleRemove
  split
  · exact h
  · have hs' : Known (s.setContainer k ((s.containers k).erase id)) := h.of_eq rfl rfl rfl
    exact hs'.destroy _

theorem Known.method (h : Known s) (howned : Owned s) {f : Object k → Object k} (hf : s.IsMethod f)
    (a : Nat) : Known (s.update k f a) := by
  apply h.update
  intro x hx b hb
  rcases hf.captured x b hb with hold | ⟨k', id, hget⟩
  · exact h.objects hx b hold
  · exact howned.lt_next hget

theorem Known.handled (h : Known s) (howned : Owned s) (hs' : Handled s s') : Known s' := by
  cases hs' with
  | newVirtualObject id =>
    exact (h.alloc (k := .virtualObjects) (x := ({ id := id } : VirtualObject)) fun _ => nofun).of_eq
      rfl rfl rfl
  | deleteVirtualObject id => exact h.of_eq rfl rfl rfl
  | new _ hx => exact h.addNew hx
  | delete _ id => exact h.scheduleRemove _ id
  | method hf a => exact h.method howned hf a
  | newInto hf a _ hx => exact (h.method howned hf a).addNew hx
  | commit a => exact h.commitVirtualObject a
  | move _ position quaternion => exact h.moveVirtualObject _ position quaternion

end PoolState

-- ---------------------------------------------------------------------------
-- Execution
-- ---------------------------------------------------------------------------

/-- The command of a closure, on the rendering state that it has captured. -/
def Command.execute (gl : Driver) (h : Heap Object) (R : Rendering) :
    {k : Kind} → Thread (RenderingState k) → Command k → Thread (RenderingState k)
  | .virtualObjects => VirtualObject.Command.execute
  | .renderingUnits => RenderingUnit.Command.execute
  | .glBuffers => GlBuffer.Command.execute gl
  | .glShaders => GlShader.Command.execute gl
  | .glPrograms => GlProgram.Command.execute gl (R.lock h .glShaders GlShader.RenderingState.shaderId)
  | .glTextures => GlTexture.Command.execute gl
  | .glSamplers => GlSampler.Command.execute gl
  | .glVertexArrays => GlVertexArray.Command.execute gl
    (R.lock h .glBuffers fun r : GlBuffer.RenderingState => (r.target, r.bufferId))
  | .glBaseTechniques =>
    GlBaseTechnique.Command.execute gl (R.lock h .glPrograms GlProgram.RenderingState.programId)

theorem Closure.execute_eq_onState (gl : Driver) (h : Heap Object) (R : Rendering) (c : Closure) :
    c.execute gl h R =
      R.onState c.kind c.address fun t => Command.execute gl h R t c.command := by
  obtain ⟨k, a, c⟩ := c
  cases k with
  | _ => rfl

theorem GlBaseTechnique.Command.program_setUniform (gl : Driver) (programId : GLuint)
    (t : Thread RenderingState) (u : UniformVariable) :
    (setUniform gl programId t u).rendering.program = t.rendering.program := by
  unfold setUniform
  dsimp only
  split
  · split
    · rfl
    · rfl
  · split
    · rfl
    · rfl

theorem GlBaseTechnique.Command.program_foldl_setUniform (gl : Driver) (programId : GLuint)
    (us : List UniformVariable) (t : Thread RenderingState) :
    (us.foldl (setUniform gl programId) t).rendering.program = t.rendering.program := by
  induction us generalizing t with
  | nil => rfl
  | cons u us ih => exact (ih (setUniform gl programId t u)).trans (program_setUniform ..)

/-- The program that a technique's rendering state has after a closure. -/
theorem GlBaseTechnique.Command.program_execute (gl : Driver) (lockProgram : WeakPtr → Option GLuint)
    (t : Thread RenderingState) (c : Command) :
    (execute gl lockProgram t c).rendering.program = t.rendering.program ∨
      c = .program (execute gl lockProgram t c).rendering.program := by
  cases c with
  | program p => exact .inr rfl
  | drawMethod _ _ _ | vertexArray _ | textures _ | delete => exact .inl rfl
  | uniforms us =>
    left
    unfold execute
    dsimp only
    split
    · rfl
    · split
      · rfl
      · exact program_foldl_setUniform gl _ us t

namespace Rendering

variable {R : Rendering} {n : Nat}

theorem states_onState_of_ne {k k' : Kind} {a b : Nat}
    {f : Thread (RenderingState k) → Thread (RenderingState k)} (hne : k' ≠ k ∨ b ≠ a) :
    (R.onState k a f).states k' b = R.states k' b := by
  show Function.update R.states k (Function.update (R.states k) a _) k' b = _
  cases Decidable.em (k' = k) with
  | inr hk => rw [Function.update_of_ne hk]
  | inl hk =>
    subst hk
    rw [Function.update_self, Function.update_of_ne (hne.resolve_left fun hk => hk rfl)]

theorem states_onState_self {k : Kind} {a : Nat}
    {f : Thread (RenderingState k) → Thread (RenderingState k)} :
    (R.onState k a f).states k a = (f { calls := R.calls, rendering := R.states k a }).rendering := by
  show Function.update R.states k (Function.update (R.states k) a _) k a = _
  rw [Function.update_self, Function.update_self]

theorem Known.execute (h : R.Known n) (gl : Driver) (heap : Heap Object) {c : Closure}
    (hc : Below n c.captured) : (c.execute gl heap R).Known n := by
  obtain ⟨k, a, c⟩ := c
  rw [Closure.execute_eq_onState]
  intro b
  cases Decidable.em (Kind.glBaseTechniques = k ∧ b = a) with
  | inr hne =>
    rw [states_onState_of_ne (Decidable.not_and_iff_or_not.mp hne)]
    exact h b
  | inl heq =>
    obtain ⟨rfl, rfl⟩ := heq
    rw [states_onState_self]
    rcases GlBaseTechnique.Command.program_execute gl
      (R.lock heap .glPrograms GlProgram.RenderingState.programId)
      { calls := R.calls, rendering := R.states .glBaseTechniques b } c with hkept | hnew
    · show Below n [GlBaseTechnique.RenderingState.program _]
      rw [Command.execute, hkept]
      exact h b
    · rw [hnew] at hc
      exact hc

end Rendering

namespace PoolState

variable {s s' : PoolState} {gl : Driver}

theorem Known.executeNext (h : Known s) (hs' : s.executeNext gl = some s') : Known s' := by
  rcases executeNext_cases hs' with ⟨rest, hqueue, rfl⟩ | ⟨c, rest, hqueue, rfl⟩
  · refine ⟨h.objects, fun c hc => h.closures c ?_, h.rendering⟩
    rw [hqueue]
    exact List.mem_cons_of_mem _ hc
  · refine ⟨h.objects, fun c hc => h.closures c ?_, h.rendering.execute gl s.heap (h.closures c ?_)⟩
    · rw [hqueue]
      exact List.mem_cons_of_mem _ hc
    · rw [hqueue]
      exact List.mem_cons_self

theorem Known.step (h : Known s) (howned : Owned s) {l : PoolLabel}
    (hstep : (poolMachine gl).step s l = some s') : Known s' := by
  cases l with
  | request r => exact h.handled howned (handle_cases (handle_of_step hstep))
  | newSession => exact newSession_of_step hstep ▸ (h.foldl_destroy _).of_eq rfl rfl rfl
  | mergeNew => exact mergeNew_of_step hstep ▸ h.of_eq rfl rfl rfl
  | applyRemovals => exact applyRemovals_of_step hstep ▸ (h.foldl_destroy _).of_eq rfl rfl rfl
  | executeNext => exact h.executeNext hstep

theorem known_run {ls : List PoolLabel} (hrun : (poolMachine gl).run ls = some s) : Known s := by
  have hboth : Owned s ∧ Known s := by
    apply Machine.run_invariant (I := fun s => Owned s ∧ Known s) _ _ hrun
    · exact ⟨@owned_run _ gl [] rfl, nofun, nofun, fun _ _ => nofun⟩
    · intro s l s' h hstep
      exact ⟨h.1.step hstep, h.2.step h.1 hstep⟩
  exact hboth.2

-- ---------------------------------------------------------------------------
-- What has gone
-- ---------------------------------------------------------------------------

theorem later_commitVirtualObject (a : Nat) : s.heap.Later (s.commitVirtualObject a).heap := by
  rcases walk_commitVirtualObject s a with heq | ⟨s', hwalk, heq⟩
  · rw [heq]
  · rw [heq]
    apply hwalk.invariant (I := fun t => s.heap.Later t.heap) _ (.refl _)
    intro t k b ht
    rw [heap_commitOne]
    exact ht.trans (Heap.later_modify _)

theorem later_addNew {k : Kind} (x : Object k) : s.heap.Later (s.addNew k x).heap := by
  unfold addNew
  dsimp only
  split
  · exact Heap.later_alloc x
  · exact (Heap.later_alloc x).trans (later_destroy (s := { s with heap := s.heap.alloc k x }))

theorem later_scheduleRemove (k : Kind) (id : UInt64) : s.heap.Later (s.scheduleRemove k id).heap := by
  unfold PoolState.scheduleRemove
  split
  · exact .refl _
  · exact later_destroy (s := s.setContainer k ((s.containers k).erase id))

theorem later_handled (hs' : Handled s s') : s.heap.Later s'.heap := by
  cases hs' with
  | newVirtualObject id => exact Heap.later_alloc _
  | deleteVirtualObject id => exact .refl _
  | new _ _ => exact later_addNew _
  | delete _ id => exact later_scheduleRemove _ id
  | method _ a => exact Heap.later_modify _
  | newInto _ a _ _ => exact (Heap.later_modify _).trans (later_addNew (s := s.update _ _ a) _)
  | commit a => exact later_commitVirtualObject a
  | move _ position quaternion => exact .refl _

/-- Whatever is done in a state, what had gone by then has gone. -/
theorem later_step {l : PoolLabel} (hstep : (poolMachine gl).step s l = some s') :
    s.heap.Later s'.heap := by
  cases l with
  | request r => exact later_handled (handle_cases (handle_of_step hstep))
  | newSession => exact newSession_of_step hstep ▸ later_foldl_destroy _
  | mergeNew => exact mergeNew_of_step hstep ▸ .refl _
  | applyRemovals => exact applyRemovals_of_step hstep ▸ later_foldl_destroy _
  | executeNext =>
    rcases executeNext_cases hstep with ⟨rest, -, rfl⟩ | ⟨c, rest, -, rfl⟩
    · exact .refl _
    · exact .refl _

end PoolState

end ZenRemote.Client
