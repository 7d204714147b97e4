-- SUMMARY: All weak pointers of the client: in pending states, closures and rendering states, each to what has been made.
import Mathlib.Data.List.Flatten
import ZenRemote.Client.Captured
import ZenRemote.Client.PoolContents

/-!
# Weak pointers

A pending state refers weakly to what its resource is drawn with, a commit copies these
pointers into closures, and an execution copies them to rendering states. A new resource
is therefore seen by no rendering state before a closure that was made after it is
executed.
-/

namespace ZenRemote.Client

namespace GlBaseTechnique

/-- The textures and samplers of bindings. -/
def bindingPointers (bindings : AList fun _ : UInt32 => TextureBinding) : List WeakPtr :=
  bindings.entries.flatMap fun e => [e.2.texture, e.2.sampler]

theorem bindingPointers_insert (bindings : AList fun _ : UInt32 => TextureBinding) (binding : UInt32)
    (b : TextureBinding) :
    bindingPointers (bindings.insert binding b) ⊆ [b.texture, b.sampler] ++ bindingPointers bindings := by
  rw [bindingPointers, AList.entries_insert, List.flatMap_cons]
  have hrest := ((List.kerase_sublist binding bindings.entries).flatMap fun e =>
    [e.2.texture, e.2.sampler]).subset
  exact List.append_subset.mpr
    ⟨List.subset_append_left _ _, List.Subset.trans hrest (List.subset_append_right _ _)⟩

theorem bindingPointers_erase (bindings : AList fun _ : UInt32 => TextureBinding) (binding : UInt32) :
    bindingPointers (bindings.erase binding) ⊆ bindingPointers bindings :=
  ((List.kerase_sublist binding bindings.entries).flatMap _).subset

end GlBaseTechnique

/-- The weak pointers in a pending state. -/
def Object.pointers : {k : Kind} → Object k → List WeakPtr
  | .virtualObjects, o => VirtualObject.renderingUnits o
  | .renderingUnits, u => [RenderingUnit.glBaseTechnique u]
  | .glPrograms, p => GlProgram.glShaders p
  | .glVertexArrays, v => GlVertexArray.buffers v
  | .glBaseTechniques, t =>
    [GlBaseTechnique.elementArrayBuffer t, GlBaseTechnique.program t, GlBaseTechnique.vertexArray t] ++
      GlBaseTechnique.bindingPointers (GlBaseTechnique.textureBindings t)
  | .glBuffers, _ | .glShaders, _ | .glTextures, _ | .glSamplers, _ => []

/-- The weak pointers that a closure has captured. -/
def Command.pointers : {k : Kind} → Command k → List WeakPtr
  | .virtualObjects, VirtualObject.Command.commit units => units
  | .renderingUnits, RenderingUnit.Command.technique p => [p]
  | .glPrograms, GlProgram.Command.link shaders => shaders
  | .glVertexArrays, GlVertexArray.Command.replay attributes =>
    attributes.entries.map fun e => e.2.glBuffer
  | .glBaseTechniques, GlBaseTechnique.Command.drawMethod _ _ p => [p]
  | .glBaseTechniques, GlBaseTechnique.Command.program p => [p]
  | .glBaseTechniques, GlBaseTechnique.Command.vertexArray p => [p]
  | .glBaseTechniques, GlBaseTechnique.Command.textures bindings =>
    GlBaseTechnique.bindingPointers bindings
  | _, _ => []

/-- The weak pointers in a rendering state. -/
def RenderingState.pointers : {k : Kind} → RenderingState k → List WeakPtr
  | .virtualObjects, r => VirtualObject.RenderingState.renderingUnits r
  | .renderingUnits, r => [RenderingUnit.RenderingState.glBaseTechnique r]
  | .glBaseTechniques, r =>
    [GlBaseTechnique.RenderingState.elementArrayBuffer r, GlBaseTechnique.RenderingState.program r,
      GlBaseTechnique.RenderingState.vertexArray r] ++
      GlBaseTechnique.bindingPointers (GlBaseTechnique.RenderingState.textureBindings r)
  | .glBuffers, _ | .glShaders, _ | .glPrograms, _ | .glTextures, _ | .glSamplers, _
  | .glVertexArrays, _ => []

theorem Closure.captured_subset_pointers (c : Closure) : c.captured ⊆ c.command.pointers := by
  unfold captured
  split
  · exact List.Subset.refl _
  · exact List.Subset.refl _
  · exact List.Subset.refl _
  · exact List.nil_subset _

theorem Below.of_subset {n : Nat} {ps qs : List WeakPtr} (hps : Below n ps) (h : qs ⊆ ps) : Below n qs :=
  fun a ha => hps a (h ha)

theorem Below.of_mem {n : Nat} {ps : List WeakPtr} {p : WeakPtr} (hps : Below n ps) (hp : p ∈ ps) :
    Below n [p] :=
  fun a ha => hps a (List.mem_singleton.mp ha ▸ hp)

theorem Object.pointers_committed (h : Heap Object) :
    ∀ {k : Kind} (x : Object k), (x.committed h).pointers ⊆ x.pointers
  | .renderingUnits, _ | .glBuffers, _ | .glShaders, _ | .glTextures, _ | .glSamplers, _
  | .glBaseTechniques, _ => fun _ hp => hp
  | .virtualObjects, _ => List.filter_subset_self _
  | .glPrograms, x => by
    show (GlProgram.committed x).glShaders ⊆ GlProgram.glShaders x
    unfold GlProgram.committed
    split
    · exact List.nil_subset _
    · exact List.Subset.refl _
  | .glVertexArrays, v => by
    show (GlVertexArray.committed v).buffers ⊆ GlVertexArray.buffers v
    rw [GlVertexArray.buffers_committed]
    exact List.Subset.refl _

theorem mem_pointers_glBaseTechnique {t : GlBaseTechnique} {p : WeakPtr} :
    p ∈ Object.pointers (k := .glBaseTechniques) t ↔ p = t.elementArrayBuffer ∨ p = t.program ∨
      p = t.vertexArray ∨ p ∈ GlBaseTechnique.bindingPointers t.textureBindings := by
  simp [Object.pointers]

theorem Object.pointers_commitCommands (h : Heap Object) :
    ∀ {k : Kind} (x : Object k), ∀ c ∈ x.commitCommands h, c.pointers ⊆ x.pointers
  | .glBuffers, _, _, _ | .glShaders, _, _, _ | .glTextures, _, _, _ | .glSamplers, _, _, _ =>
    List.nil_subset _
  | .virtualObjects, o, c, hc => by
    obtain rfl := List.mem_singleton.mp hc
    exact List.filter_subset_self _
  | .renderingUnits, u, c, hc => by
    obtain rfl := List.mem_singleton.mp hc
    exact List.Subset.refl _
  | .glPrograms, x, c, hc => by
    change c ∈ GlProgram.commitCommands x at hc
    unfold GlProgram.commitCommands at hc
    split at hc
    · obtain rfl := List.mem_singleton.mp hc
      exact List.Subset.refl _
    · cases hc
  | .glVertexArrays, v, c, hc => by
    change c ∈ GlVertexArray.commitCommands v at hc
    unfold GlVertexArray.commitCommands at hc
    split at hc
    · obtain rfl := List.mem_singleton.mp hc
      exact List.Subset.refl _
    · cases hc
  | .glBaseTechniques, t, c, hc => by
    change c ∈ GlBaseTechnique.commitCommands t fun p => (h.lock .glPrograms p).isNone at hc
    simp only [GlBaseTechnique.commitCommands, List.mem_append, List.mem_ite_nil_right,
      List.mem_singleton] at hc
    rcases hc with (((⟨-, rfl⟩ | ⟨-, rfl⟩) | ⟨-, rfl⟩) | ⟨-, rfl⟩) | ⟨-, rfl⟩
    · simp [Command.pointers, Object.pointers]
    · simp [Command.pointers, Object.pointers]
    · simp [Command.pointers, Object.pointers]
    · exact List.subset_append_right _ _
    · exact List.nil_subset _

@[simp] theorem Command.pointers_delete (k : Kind) : (Command.delete k).pointers = [] := by
  cases k <;> rfl

@[simp] theorem RenderingState.pointers_initial (k : Kind) {a : Nat} :
    some a ∉ (RenderingState.initial k).pointers := by
  cases k with
  | _ => simp [RenderingState.pointers, RenderingState.initial, GlBaseTechnique.bindingPointers]

namespace PoolState

variable {s s' : PoolState} {k : Kind} {a : Nat}

/-- Every weak pointer is to what has been made, and nothing is known of what has not been. -/
structure Pointed (s : PoolState) : Prop where
  objects : ∀ {k a} {x : Object k}, s.heap.get k a = some x → Below s.heap.next x.pointers
  closures : ∀ c : Closure, .command c ∈ s.updateRenderingQueue.queue →
    c.address < s.heap.next ∧ Below s.heap.next c.command.pointers
  rendering : ∀ k a, Below s.heap.next (s.rendering.states k a).pointers
  initial : ∀ k a, s.heap.next ≤ a → s.rendering.states k a = RenderingState.initial k

-- ---------------------------------------------------------------------------
-- The update thread
-- ---------------------------------------------------------------------------

theorem Pointed.pushAll (h : Pointed s) (ha : a < s.heap.next) {cs : List (Command k)}
    (hcs : ∀ c ∈ cs, Below s.heap.next c.pointers) : Pointed (s.pushAll k a cs) := by
  refine ⟨h.objects, fun c hc => ?_, h.rendering, h.initial⟩
  rw [queue_pushAll] at hc
  cases List.mem_append.mp hc with
  | inl hold => exact h.closures c hold
  | inr hnew =>
    obtain ⟨c', hc', heq⟩ := List.mem_map.mp hnew
    cases heq
    exact ⟨ha, hcs c' hc'⟩

theorem Pointed.update (h : Pointed s) {f : Object k → Object k}
    (hf : ∀ x, s.heap.get k a = some x → Below s.heap.next (f x).pointers) :
    Pointed (s.update k f a) := by
  have hnext : (s.update k f a).heap.next = s.heap.next := Heap.next_modify f
  refine ⟨fun {k' b x} hx => ?_, hnext ▸ h.closures, hnext ▸ h.rendering, hnext ▸ h.initial⟩
  rw [hnext]
  change (s.heap.modify k f a).get k' b = some x at hx
  cases Decidable.em (k = k') with
  | inr hk =>
    rw [Heap.get_modify_of_ne_kind f hk] at hx
    exact h.objects hx
  | inl hk =>
    subst hk
    cases Decidable.em (b = a) with
    | inr hb =>
      rw [Heap.get_modify_of_ne f hb] at hx
      exact h.objects hx
    | inl hb =>
      rw [hb, Heap.get_modify_self] at hx
      obtain ⟨y, hy, rfl⟩ := Option.map_eq_some_iff.mp hx
      exact hf y hy

/-- The containers and the number of commits play no part. -/
theorem Pointed.of_eq (h : Pointed s) (hheap : s'.heap = s.heap)
    (hqueue : ∀ c : Closure, .command c ∈ s'.updateRenderingQueue.queue →
      .command c ∈ s.updateRenderingQueue.queue)
    (hrendering : s'.rendering = s.rendering) : Pointed s' := by
  refine ⟨?_, fun c hc => ?_, ?_, ?_⟩
  · rw [hheap]
    exact h.objects
  · rw [hheap]
    exact h.closures c (hqueue c hc)
  · rw [hheap, hrendering]
    exact h.rendering
  · rw [hheap, hrendering]
    exact h.initial

/-- A commit marker is not a closure. -/
theorem Pointed.commit (h : Pointed s) :
    Pointed { s with updateRenderingQueue := s.updateRenderingQueue.commit } := by
  refine h.of_eq rfl (fun c hc => ?_) rfl
  cases List.mem_append.mp hc with
  | inl hold => exact hold
  | inr hmarker => cases List.mem_singleton.mp hmarker

theorem Pointed.commitOne (h : Pointed s) (k : Kind) (a : Nat) : Pointed (s.commitOne k a) := by
  rcases commitOne_cases s k a with heq | ⟨x, hx, heq⟩
  · rw [heq]
    exact h
  · rw [heq]
    have hpushed : Pointed (s.pushAll k a (x.commitCommands s.heap)) :=
      h.pushAll (Heap.lt_next_of_get hx) fun c hc =>
        (h.objects hx).of_subset (Object.pointers_commitCommands s.heap x c hc)
    exact hpushed.update fun y hy => (h.objects hy).of_subset (Object.pointers_committed s.heap y)

theorem Pointed.commitVirtualObject (h : Pointed s) (a : Nat) : Pointed (s.commitVirtualObject a) := by
  rcases walk_commitVirtualObject s a with heq | ⟨s', hwalk, heq⟩
  · rw [heq]
    exact h
  · rw [heq]
    exact (hwalk.invariant (I := Pointed) (fun _ k a ht => ht.commitOne k a) h).commit

theorem Pointed.moveVirtualObject (h : Pointed s) (ha : a < s.heap.next) (position quaternion : Bytes) :
    Pointed (s.moveVirtualObject a position quaternion) := by
  have hpushed : Pointed (s.pushAll .virtualObjects a (VirtualObject.moveCommands position quaternion)) :=
    h.pushAll ha fun c hc => by
      obtain rfl := List.mem_singleton.mp hc
      exact fun _ => nofun
  exact hpushed.commit

/-- Nothing but a destructor's closure is added. -/
theorem Pointed.destroy (h : Pointed s) (a : Nat) : Pointed (s.destroy a) := by
  unfold PoolState.destroy
  split
  · rename_i k x hx
    have hs' : Pointed (s.pushAll k a [Command.delete k]) := by
      apply h.pushAll (Heap.lt_next_of_get (Heap.get_eq_some.mpr hx))
      intro c hc
      obtain rfl := List.mem_singleton.mp hc
      rw [Command.pointers_delete]
      exact fun _ => nofun
    refine ⟨fun {k' b y} hy => hs'.objects (k := k') (a := b) (x := y) ?_, hs'.closures, hs'.rendering,
      hs'.initial⟩
    cases Decidable.em (b = a) with
    | inl hb =>
      rw [Heap.get_eq_some, hb] at hy
      cases (Function.update_self ..).symm.trans hy
    | inr hb =>
      rw [Heap.get_eq_some] at hy ⊢
      exact (Function.update_of_ne hb ..).symm.trans hy
  · exact h

theorem Pointed.foldl_destroy (h : Pointed s) (as : List Nat) :
    Pointed (as.foldl PoolState.destroy s) := by
  induction as generalizing s with
  | nil => exact h
  | cons a as ih => exact ih (h.destroy a)

/-- A new resource, when what is there already refers at most to it. -/
theorem Pointed.alloc (h : Pointed s) {heap : Heap Object} (hheap : heap.next = s.heap.next)
    (hobjects : ∀ {k a} {y : Object k}, heap.get k a = some y → Below (s.heap.next + 1) y.pointers)
    {x : Object k} (hx : ∀ b, some b ∉ x.pointers) : Pointed { s with heap := heap.alloc k x } := by
  have hnext : (heap.alloc k x).next = s.heap.next + 1 := congrArg Nat.succ hheap
  have hle : s.heap.next ≤ (heap.alloc k x).next := hnext ▸ Nat.le_succ _
  refine ⟨fun {k' a y} hy => ?_, fun c hc => ⟨Nat.lt_of_lt_of_le (h.closures c hc).1 hle,
    (h.closures c hc).2.mono hle⟩, fun k a => (h.rendering k a).mono hle,
    fun k a ha => h.initial k a (Nat.le_trans hle ha)⟩
  cases Decidable.em (a = heap.next) with
  | inr ha =>
    have hold := hobjects ((Heap.get_alloc_of_ne x ha).symm.trans hy)
    exact hnext ▸ hold
  | inl ha =>
    change (heap.alloc k x).get k' a = some y at hy
    rw [ha] at hy
    obtain rfl := Heap.kind_eq_of_get (Heap.get_alloc_self x) hy
    obtain rfl := Option.some.inj ((Heap.get_alloc_self x).symm.trans hy)
    exact fun b hb => absurd hb (hx b)

theorem Pointed.addNew {x : Object k} (h : Pointed { s with heap := s.heap.alloc k x }) :
    Pointed (s.addNew k x) := by
  unfold PoolState.addNew
  dsimp only
  split
  · exact h.of_eq rfl (fun _ hc => hc) rfl
  · exact h.destroy _

theorem Pointed.new (h : Pointed s) {x : Object k} (hx : ∀ b, some b ∉ x.pointers) :
    Pointed { s with heap := s.heap.alloc k x } :=
  h.alloc rfl (fun hy => (h.objects hy).mono (Nat.le_succ _)) hx

/-- The new resource is entered in another one. -/
theorem Pointed.newInto (h : Pointed s) {k' : Kind} {f : Object k' → Object k'}
    (hf : ∀ y b, some b ∈ (f y).pointers → some b ∈ y.pointers ∨ b = s.heap.next) {x : Object k}
    (hx : ∀ b, some b ∉ x.pointers) : Pointed ((s.update k' f a).addNew k x) := by
  have hupdated : Pointed { s with heap := (s.heap.modify k' f a).alloc k x } := by
    apply h.alloc (Heap.next_modify f) _ hx
    intro k'' b y hy
    have hold : ∀ {b} {y : Object k''}, s.heap.get k'' b = some y → Below (s.heap.next + 1) y.pointers :=
      fun hy => (h.objects hy).mono (Nat.le_succ _)
    cases Decidable.em (k' = k'') with
    | inr hk => exact hold ((Heap.get_modify_of_ne_kind f hk).symm.trans hy)
    | inl hk =>
      subst hk
      cases Decidable.em (b = a) with
      | inr hb => exact hold ((Heap.get_modify_of_ne f hb).symm.trans hy)
      | inl hb =>
        rw [hb, Heap.get_modify_self] at hy
        obtain ⟨z, hz, rfl⟩ := Option.map_eq_some_iff.mp hy
        intro c hc
        rcases hf z c hc with hkept | rfl
        · exact hold hz c hkept
        · exact Nat.lt_succ_self _
  exact hupdated.addNew

theorem Pointed.scheduleRemove (h : Pointed s) (k : Kind) (id : UInt64) :
    Pointed (s.scheduleRemove k id) := by
  unfold PoolState.scheduleRemove
  split
  · exact h
  · have hs' : Pointed (s.setContainer k ((s.containers k).erase id)) := h.of_eq rfl (fun _ hc => hc) rfl
    exact hs'.destroy _

/-- A method adds no pointers but those from `Get`. -/
theorem Pointed.callMethod (h : Pointed s) (howned : Owned s) {id : UInt64} {f : Object k → Object k}
    (hs' : s.callMethod k id f = .ok s')
    (hf : ∀ x b, some b ∈ (f x).pointers → some b ∈ x.pointers ∨ ∃ k id, s.get k id = some b) :
    Pointed s' := by
  obtain ⟨a, -, hs'⟩ := bind_eq_ok hs'
  cases hs'
  apply h.update
  intro x hx b hb
  rcases hf x b hb with hold | ⟨k', id', hget⟩
  · exact h.objects hx b hold
  · exact howned.lt_next hget

theorem Pointed.handle (h : Pointed s) (howned : Owned s) {r : Request} (hs' : s.handle r = .ok s') :
    Pointed s' := by
  have hsame : ∀ {k : Kind} {id : UInt64} {f : Object k → Object k}, s.callMethod k id f = .ok s' →
      (∀ x, (f x).pointers = x.pointers) → Pointed s' :=
    fun hs' hf => h.callMethod howned hs' fun x b hb => .inl (hf x ▸ hb)
  have hattribute : ∀ {id : UInt64} {index : UInt32} {g : VertexAttrib → VertexAttrib},
      s.callMethod .glVertexArrays id (fun v : GlVertexArray => v.updateAttribute index g) = .ok s' →
      (∀ x, (g x).glBuffer = x.glBuffer ∨ ∃ id, (g x).glBuffer = s.get .glBuffers id) → Pointed s' :=
    fun hs' hg => h.callMethod howned hs' (isMethod_updateAttribute hg).captured
  cases r with
  | virtualObjectNew id =>
    cases hs'
    have hnew := h.new (k := .virtualObjects) (x := ({ id := id } : VirtualObject)) fun _ => nofun
    exact hnew.of_eq rfl (fun _ hc => hc) rfl
  | virtualObjectDelete id =>
    cases hs'
    exact h.of_eq rfl (fun _ hc => hc) rfl
  | virtualObjectCommit id =>
    obtain ⟨p, -, hs'⟩ := bind_eq_ok hs'
    obtain ⟨a, -, hs'⟩ := bind_eq_ok hs'
    cases hs'
    exact h.commitVirtualObject a
  | virtualObjectMove id position quaternion =>
    obtain ⟨p, -, hs'⟩ := bind_eq_ok hs'
    obtain ⟨position, -, hs'⟩ := bind_eq_ok hs'
    obtain ⟨quaternion, -, hs'⟩ := bind_eq_ok hs'
    obtain ⟨a, ha, hs'⟩ := bind_eq_ok hs'
    cases hs'
    obtain ⟨o, ho⟩ := deref_eq_ok ha
    exact h.moveVirtualObject (Heap.lt_next_of_get ho) position quaternion
  | renderingUnitNew id virtualObjectId =>
    obtain ⟨p, -, hs'⟩ := bind_eq_ok hs'
    obtain ⟨a, -, hs'⟩ := bind_eq_ok hs'
    cases hs'
    apply h.newInto (k := .renderingUnits) _ (by simp [Object.pointers])
    intro o b hb
    cases List.mem_append.mp hb with
    | inl hold => exact .inl hold
    | inr hnew => exact .inr (Option.some.inj (List.mem_singleton.mp hnew))
  | glBaseTechniqueNew id renderingUnitId =>
    obtain ⟨a, -, hs'⟩ := bind_eq_ok hs'
    cases hs'
    apply h.newInto (k := .glBaseTechniques) _
      (by simp [Object.pointers, GlBaseTechnique.bindingPointers])
    intro u b hb
    exact .inr (Option.some.inj (List.mem_singleton.mp hb))
  | renderingUnitDelete id | glBaseTechniqueDelete id | glVertexArrayDelete id | glBufferDelete id
  | glShaderDelete id | glProgramDelete id | glTextureDelete id | glSamplerDelete id =>
    cases hs'
    exact h.scheduleRemove _ id
  | glVertexArrayNew id | glBufferNew id | glShaderNew id source type | glProgramNew id
  | glTextureNew id | glSamplerNew id =>
    cases hs'
    exact (h.new (by simp [Object.pointers, GlVertexArray.buffers])).addNew
  | bindProgram id programId =>
    apply h.callMethod howned hs'
    intro t b hb
    rcases mem_pointers_glBaseTechnique.mp hb with hbuffer | hprogram | hrest
    · exact .inl (mem_pointers_glBaseTechnique.mpr (.inl hbuffer))
    · exact .inr ⟨.glPrograms, programId, hprogram.symm⟩
    · exact .inl (mem_pointers_glBaseTechnique.mpr (.inr (.inr hrest)))
  | bindVertexArray id vertexArrayId =>
    apply h.callMethod howned hs'
    intro t b hb
    rcases mem_pointers_glBaseTechnique.mp hb with hbuffer | hprogram | hvertexArray | hbindings
    · exact .inl (mem_pointers_glBaseTechnique.mpr (.inl hbuffer))
    · exact .inl (mem_pointers_glBaseTechnique.mpr (.inr (.inl hprogram)))
    · exact .inr ⟨.glVertexArrays, vertexArrayId, hvertexArray.symm⟩
    · exact .inl (mem_pointers_glBaseTechnique.mpr (.inr (.inr (.inr hbindings))))
  | bindTexture id binding name textureId target samplerId =>
    apply h.callMethod howned hs'
    intro t b hb
    rcases List.mem_append.mp hb with hhead | hbindings
    · exact .inl (List.mem_append_left _ hhead)
    rcases List.mem_append.mp (GlBaseTechnique.bindingPointers_insert _ _ _ hbindings) with hnew | hold
    · rcases List.mem_pair.mp hnew with htexture | hsampler
      · exact .inr ⟨.glTextures, textureId, htexture.symm⟩
      · exact .inr ⟨.glSamplers, samplerId, hsampler.symm⟩
    · exact .inl (List.mem_append_right _ hold)
  | glDrawElements id mode count type offset elementArrayBufferId =>
    apply h.callMethod howned hs'
    intro t b hb
    rcases mem_pointers_glBaseTechnique.mp hb with hbuffer | hrest
    · exact .inr ⟨.glBuffers, elementArrayBufferId, hbuffer.symm⟩
    · exact .inl (mem_pointers_glBaseTechnique.mpr (.inr hrest))
  | glUniform id u =>
    apply hsame hs'
    intro t
    show Object.pointers (k := .glBaseTechniques) (GlBaseTechnique.glUniform t u) = _
    unfold GlBaseTechnique.glUniform
    split
    · rfl
    · rfl
  | glAttachShader id shaderId =>
    exact h.callMethod howned hs' (isMethod_glAttachShader shaderId).captured
  | glEnableVertexAttribArray id index => exact hattribute hs' fun _ => .inl rfl
  | glDisableVertexAttribArray id index => exact hattribute hs' fun _ => .inl rfl
  | glVertexAttribPointer id index size type normalized stride offset glBufferId =>
    exact hattribute hs' fun _ => .inr ⟨glBufferId, rfl⟩
  | glDrawArrays _ _ _ _ | glBufferData _ _ _ _ | glLinkProgram _ | glTexImage2D _ _ _
  | glTexSubImage2D _ _ _ | glGenerateMipmap _ _ | glSamplerParameterf _ _ _
  | glSamplerParameteri _ _ _ | glSamplerParameterfv _ _ _ | glSamplerParameteriv _ _ _
  | glSamplerParameterIiv _ _ _ | glSamplerParameterIuiv _ _ _ =>
    exact hsame hs' fun _ => rfl

theorem Pointed.destroyPool (h : Pointed s) : Pointed s.destroyPool :=
  (h.foldl_destroy _).of_eq rfl (fun _ hc => hc) rfl

theorem Pointed.mergeNew (h : Pointed s) : Pointed s.mergeNew := h.of_eq rfl (fun _ hc => hc) rfl

theorem Pointed.applyRemovals (h : Pointed s) : Pointed s.applyRemovals :=
  (h.foldl_destroy _).of_eq rfl (fun _ hc => hc) rfl

theorem Pointed.forEachVirtualObject (h : Pointed s) : Pointed s.forEachVirtualObject :=
  h.mergeNew.applyRemovals

end PoolState

-- ---------------------------------------------------------------------------
-- The rendering thread
-- ---------------------------------------------------------------------------

theorem GlBaseTechnique.Command.pointers_setUniform (gl : Driver) (programId : GLuint)
    (t : Thread RenderingState) (u : UniformVariable) :
    RenderingState.pointers (k := .glBaseTechniques) (setUniform gl programId t u).rendering =
      RenderingState.pointers (k := .glBaseTechniques) t.rendering := by
  unfold setUniform
  dsimp only
  split
  · split
    · rfl
    · rfl
  · split
    · rfl
    · rfl

theorem GlBaseTechnique.Command.pointers_foldl_setUniform (gl : Driver) (programId : GLuint)
    (us : List UniformVariable) (t : Thread RenderingState) :
    RenderingState.pointers (k := .glBaseTechniques) (us.foldl (setUniform gl programId) t).rendering =
      RenderingState.pointers (k := .glBaseTechniques) t.rendering := by
  induction us generalizing t with
  | nil => rfl
  | cons u us ih => exact (ih (setUniform gl programId t u)).trans (pointers_setUniform ..)

theorem mem_pointers_renderingState {r : GlBaseTechnique.RenderingState} {p : WeakPtr} :
    p ∈ RenderingState.pointers (k := .glBaseTechniques) r ↔ p = r.elementArrayBuffer ∨ p = r.program ∨
      p = r.vertexArray ∨ p ∈ GlBaseTechnique.bindingPointers r.textureBindings := by
  simp [RenderingState.pointers]

/-- A closure stores no pointers but those that it has captured. -/
theorem Command.pointers_execute (gl : Driver) (h : Heap Object) (R : Rendering) :
    ∀ {k : Kind} (t : Thread (RenderingState k)) (c : Command k) {p : WeakPtr},
      p ∈ (Command.execute gl h R t c).rendering.pointers → p ∈ t.rendering.pointers ∨ p ∈ c.pointers
  | .glBuffers, _, _, _ | .glShaders, _, _, _ | .glPrograms, _, _, _ | .glTextures, _, _, _
  | .glSamplers, _, _, _ | .glVertexArrays, _, _, _ => fun hp => by cases hp
  | .virtualObjects, t, c, p => by
    cases c with
    | commit units => exact .inr
    | move _ _ | delete => exact .inl
  | .renderingUnits, t, c, p => by
    cases c with
    | technique p => exact .inr
    | delete => exact .inl
  | .glBaseTechniques, t, c, p => by
    intro hp
    cases c with
    | drawMethod _ _ p =>
      rcases mem_pointers_renderingState.mp hp with rfl | hrest
      · exact .inr (List.mem_singleton_self _)
      · exact .inl (mem_pointers_renderingState.mpr (.inr hrest))
    | program p =>
      rcases mem_pointers_renderingState.mp hp with hbuffer | rfl | hrest
      · exact .inl (mem_pointers_renderingState.mpr (.inl hbuffer))
      · exact .inr (List.mem_singleton_self _)
      · exact .inl (mem_pointers_renderingState.mpr (.inr (.inr hrest)))
    | vertexArray p =>
      rcases mem_pointers_renderingState.mp hp with hbuffer | hprogram | rfl | hbindings
      · exact .inl (mem_pointers_renderingState.mpr (.inl hbuffer))
      · exact .inl (mem_pointers_renderingState.mpr (.inr (.inl hprogram)))
      · exact .inr (List.mem_singleton_self _)
      · exact .inl (mem_pointers_renderingState.mpr (.inr (.inr (.inr hbindings))))
    | textures bindings =>
      rcases List.mem_append.mp hp with hhead | hbindings
      · exact .inl (List.mem_append_left _ hhead)
      · exact .inr hbindings
    | delete => exact .inl hp
    | uniforms us =>
      left
      change p ∈ RenderingState.pointers (k := .glBaseTechniques) (GlBaseTechnique.Command.execute gl
        (R.lock h .glPrograms GlProgram.RenderingState.programId) t (.uniforms us)).rendering at hp
      unfold GlBaseTechnique.Command.execute at hp
      dsimp only at hp
      split at hp
      · exact hp
      · split at hp
        · exact hp
        · rw [GlBaseTechnique.Command.pointers_foldl_setUniform] at hp
          exact hp

namespace PoolState

variable {s s' : PoolState} {gl : Driver}

/-- A rendering state that a thread has had in hands, with pointers to what has been made. -/
theorem Pointed.onState (h : Pointed s) {k : Kind} {a : Nat} (ha : a < s.heap.next)
    {f : Thread (RenderingState k) → Thread (RenderingState k)}
    (hf : ∀ t, t.rendering = s.rendering.states k a → Below s.heap.next (f t).rendering.pointers) :
    Pointed { s with rendering := s.rendering.onState k a f } := by
  refine ⟨h.objects, h.closures, fun k' b => ?_, fun k' b hb => ?_⟩
  · cases Decidable.em (k' = k ∧ b = a) with
    | inr hne =>
      rw [Rendering.states_onState_of_ne (Decidable.not_and_iff_or_not.mp hne)]
      exact h.rendering k' b
    | inl heq =>
      obtain ⟨rfl, rfl⟩ := heq
      rw [Rendering.states_onState_self]
      exact hf _ rfl
  · rw [Rendering.states_onState_of_ne (.inr (Nat.ne_of_gt (Nat.lt_of_lt_of_le ha hb)))]
    exact h.initial k' b hb

theorem Pointed.execute (h : Pointed s) {c : Closure} (ha : c.address < s.heap.next)
    (hc : Below s.heap.next c.command.pointers) :
    Pointed { s with rendering := c.execute gl s.heap s.rendering } := by
  rw [Closure.execute_eq_onState]
  apply h.onState ha
  intro t ht b hb
  rcases Command.pointers_execute gl s.heap s.rendering t c.command hb with hold | hnew
  · rw [ht] at hold
    exact h.rendering _ _ b hold
  · exact hc b hnew

theorem Pointed.executeNext (h : Pointed s) (hs' : s.executeNext gl = some s') : Pointed s' := by
  rcases executeNext_cases hs' with ⟨rest, hqueue, rfl⟩ | ⟨c, rest, hqueue, rfl⟩
  · refine h.of_eq rfl (fun c hc => ?_) rfl
    rw [hqueue]
    exact List.mem_cons_of_mem _ hc
  · obtain ⟨ha, hc⟩ := h.closures c (hqueue ▸ List.mem_cons_self)
    have hexecuted : Pointed { s with rendering := c.execute gl s.heap s.rendering } := h.execute ha hc
    refine hexecuted.of_eq rfl (fun c hc => ?_) rfl
    rw [hqueue]
    exact List.mem_cons_of_mem _ hc

end PoolState

end ZenRemote.Client
