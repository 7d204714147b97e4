-- SUMMARY: The resource pool of a session: containers that own resources, the walk of a commit, and the execution of closures.
import ZenRemote.Client.AtomicCommandQueue
import ZenRemote.Client.GlBaseTechnique
import ZenRemote.Client.GlBuffer
import ZenRemote.Client.GlProgram
import ZenRemote.Client.GlTexture
import ZenRemote.Client.GlVertexArray
import ZenRemote.Client.ResourceContainer
import ZenRemote.Client.VirtualObject

/-!
# The resource pool

The containers hold the only lasting strong references, so a resource is alive as
long as it is in its container, and everything else refers to it weakly. The
update thread changes pending states. A commit walks from a virtual object to all
that it draws with, and pushes the closures that copy pending states to rendering
states; the rendering thread executes them.
-/

namespace ZenRemote.Client

inductive Kind where
  | virtualObjects
  | renderingUnits
  | glBuffers
  | glShaders
  | glPrograms
  | glTextures
  | glSamplers
  | glVertexArrays
  | glBaseTechniques
  deriving DecidableEq, Repr

abbrev Object : Kind → Type
  | .virtualObjects => VirtualObject
  | .renderingUnits => RenderingUnit
  | .glBuffers => GlBuffer
  | .glShaders => GlShader
  | .glPrograms => GlProgram
  | .glTextures => GlTexture
  | .glSamplers => GlSampler
  | .glVertexArrays => GlVertexArray
  | .glBaseTechniques => GlBaseTechnique

abbrev RenderingState : Kind → Type
  | .virtualObjects => VirtualObject.RenderingState
  | .renderingUnits => RenderingUnit.RenderingState
  | .glBuffers => GlBuffer.RenderingState
  | .glShaders => GlShader.RenderingState
  | .glPrograms => GlProgram.RenderingState
  | .glTextures => GlTexture.RenderingState
  | .glSamplers => GlSampler.RenderingState
  | .glVertexArrays => GlVertexArray.RenderingState
  | .glBaseTechniques => GlBaseTechnique.RenderingState

abbrev Command : Kind → Type
  | .virtualObjects => VirtualObject.Command
  | .renderingUnits => RenderingUnit.Command
  | .glBuffers => GlBuffer.Command
  | .glShaders => GlShader.Command
  | .glPrograms => GlProgram.Command
  | .glTextures => GlTexture.Command
  | .glSamplers => GlSampler.Command
  | .glVertexArrays => GlVertexArray.Command
  | .glBaseTechniques => GlBaseTechnique.Command

def Object.id : {k : Kind} → Object k → UInt64
  | .virtualObjects => VirtualObject.id
  | .renderingUnits => RenderingUnit.id
  | .glBuffers => GlBuffer.id
  | .glShaders => GlShader.id
  | .glPrograms => GlProgram.id
  | .glTextures => GlTexture.id
  | .glSamplers => GlSampler.id
  | .glVertexArrays => GlVertexArray.id
  | .glBaseTechniques => GlBaseTechnique.id

def RenderingState.initial : (k : Kind) → RenderingState k
  | .virtualObjects => ({} : VirtualObject.RenderingState)
  | .renderingUnits => ({} : RenderingUnit.RenderingState)
  | .glBuffers => ({} : GlBuffer.RenderingState)
  | .glShaders => ({} : GlShader.RenderingState)
  | .glPrograms => ({} : GlProgram.RenderingState)
  | .glTextures => ({} : GlTexture.RenderingState)
  | .glSamplers => ({} : GlSampler.RenderingState)
  | .glVertexArrays => ({} : GlVertexArray.RenderingState)
  | .glBaseTechniques => ({} : GlBaseTechnique.RenderingState)

/-- The closure that a destructor pushes. -/
def Command.delete : (k : Kind) → Command k
  | .virtualObjects => VirtualObject.Command.delete
  | .renderingUnits => RenderingUnit.Command.delete
  | .glBuffers => GlBuffer.Command.delete
  | .glShaders => GlShader.Command.delete
  | .glPrograms => GlProgram.Command.delete
  | .glTextures => GlTexture.Command.delete
  | .glSamplers => GlSampler.Command.delete
  | .glVertexArrays => GlVertexArray.Command.delete
  | .glBaseTechniques => GlBaseTechnique.Command.delete

/-- A closure with the rendering state it has captured, given by the address of
the resource that it was made for. -/
structure Closure where
  kind : Kind
  address : Nat
  command : Command kind

-- ---------------------------------------------------------------------------
-- The rendering thread
-- ---------------------------------------------------------------------------

/-- The rendering states, the GL calls so far and all that was assigned to a
rendering state. A rendering state stays for the closures that have captured it. -/
structure Rendering where
  calls : List GlCall := []
  states : (k : Kind) → Nat → RenderingState k := fun k _ => RenderingState.initial k
  writes : List (Σ k, Nat × RenderingState k) := []

namespace Rendering

def onState (R : Rendering) (k : Kind) (a : Nat)
    (f : Thread (RenderingState k) → Thread (RenderingState k)) : Rendering :=
  let t := f { calls := R.calls, rendering := R.states k a }
  { calls := t.calls
    states := Function.update R.states k (Function.update (R.states k) a t.rendering)
    writes := R.writes ++ t.writes.map fun r => ⟨k, a, r⟩ }

/-- What a closure reads of a resource that it has locked. -/
def lock {τ : Type} (R : Rendering) (h : Heap Object) (k : Kind) (f : RenderingState k → τ)
    (p : WeakPtr) : Option τ :=
  p.bind fun a => (h.get k a).map fun _ => f (R.states k a)

end Rendering

def Closure.execute (gl : Driver) (h : Heap Object) (R : Rendering) : Closure → Rendering
  | ⟨.virtualObjects, a, c⟩ =>
    R.onState .virtualObjects a fun t => VirtualObject.Command.execute t c
  | ⟨.renderingUnits, a, c⟩ =>
    R.onState .renderingUnits a fun t => RenderingUnit.Command.execute t c
  | ⟨.glBuffers, a, c⟩ => R.onState .glBuffers a fun t => GlBuffer.Command.execute gl t c
  | ⟨.glShaders, a, c⟩ => R.onState .glShaders a fun t => GlShader.Command.execute gl t c
  | ⟨.glPrograms, a, c⟩ =>
    R.onState .glPrograms a fun t =>
      GlProgram.Command.execute gl (R.lock h .glShaders GlShader.RenderingState.shaderId) t c
  | ⟨.glTextures, a, c⟩ => R.onState .glTextures a fun t => GlTexture.Command.execute gl t c
  | ⟨.glSamplers, a, c⟩ => R.onState .glSamplers a fun t => GlSampler.Command.execute gl t c
  | ⟨.glVertexArrays, a, c⟩ =>
    R.onState .glVertexArrays a fun t => GlVertexArray.Command.execute gl
      (R.lock h .glBuffers fun r : GlBuffer.RenderingState => (r.target, r.bufferId)) t c
  | ⟨.glBaseTechniques, a, c⟩ =>
    R.onState .glBaseTechniques a fun t => GlBaseTechnique.Command.execute gl
      (R.lock h .glPrograms GlProgram.RenderingState.programId) t c

-- ---------------------------------------------------------------------------
-- The update thread
-- ---------------------------------------------------------------------------

/-- The closures that `Commit` pushes for the resource itself. -/
def Object.commitCommands (h : Heap Object) : {k : Kind} → Object k → List (Command k)
  | .virtualObjects, o =>
    VirtualObject.commitCommands o fun p => (h.lock .renderingUnits p).isNone
  | .renderingUnits, u => RenderingUnit.commitCommands u
  | .glBuffers, b => GlBuffer.commitCommands b
  | .glShaders, x => GlShader.commitCommands x
  | .glPrograms, x => GlProgram.commitCommands x
  | .glTextures, t => GlTexture.commitCommands t
  | .glSamplers, x => GlSampler.commitCommands x
  | .glVertexArrays, v => GlVertexArray.commitCommands v
  | .glBaseTechniques, t =>
    GlBaseTechnique.commitCommands t fun p => (h.lock .glPrograms p).isNone

/-- The pending state after `Commit`. -/
def Object.committed (h : Heap Object) : {k : Kind} → Object k → Object k
  | .virtualObjects, o =>
    VirtualObject.committed o fun p => (h.lock .renderingUnits p).isNone
  | .renderingUnits, u => u
  | .glBuffers, b => GlBuffer.committed b
  | .glShaders, x => GlShader.commit x
  | .glPrograms, x => GlProgram.committed x
  | .glTextures, t => GlTexture.committed t
  | .glSamplers, x => GlSampler.committed x
  | .glVertexArrays, v => GlVertexArray.committed v
  | .glBaseTechniques, t => GlBaseTechnique.committed t fun p => (h.lock .glPrograms p).isNone

/-- The weak pointers in a pending state that closures lock when they are executed. -/
def Object.captured : {k : Kind} → Object k → List WeakPtr
  | .glPrograms, x => GlProgram.glShaders x
  | .glVertexArrays, v => GlVertexArray.buffers v
  | .glBaseTechniques, t => [GlBaseTechnique.program t]
  | .virtualObjects, _ | .renderingUnits, _ | .glBuffers, _ | .glShaders, _ | .glTextures, _
  | .glSamplers, _ => []

/-- The client with the pool of the current session. -/
structure PoolState where
  heap : Heap Object := {}
  virtualObjects : LoopContainer := {}
  /-- `ForEach` of the virtual objects is between its two sections, and holds
  `resources_lock_` for writing. -/
  merging : Bool := false
  /-- The containers of the other kinds of resources. -/
  containers : Kind → AList fun _ : UInt64 => Nat := fun _ => ∅
  updateRenderingQueue : AtomicCommandQueue Closure := {}
  rendering : Rendering := {}

namespace PoolState

def pushAll (s : PoolState) (k : Kind) (a : Nat) (cs : List (Command k)) : PoolState :=
  { s with updateRenderingQueue := cs.foldl (fun q c => q.push ⟨k, a, c⟩) s.updateRenderingQueue }

def update (s : PoolState) (k : Kind) (f : Object k → Object k) (a : Nat) : PoolState :=
  { s with heap := s.heap.modify k f a }

/-- The last strong reference goes, and the destructor pushes its closure. -/
def destroy (s : PoolState) (a : Nat) : PoolState :=
  match s.heap.objects a with
  | some ⟨k, _⟩ => { s.pushAll k a [Command.delete k] with heap := s.heap.free a }
  | none => s

def setContainer (s : PoolState) (k : Kind) (c : AList fun _ : UInt64 => Nat) : PoolState :=
  { s with containers := Function.update s.containers k c }

/-- `make_shared`, and `Add` to a container. An id that is in use keeps its entry,
and the new resource goes at once. -/
def addNew (s : PoolState) (k : Kind) (x : Object k) : PoolState :=
  let a := s.heap.next
  let s := { s with heap := s.heap.alloc k x }
  match (s.containers k).lookup x.id with
  | none => s.setContainer k ((s.containers k).insert x.id a)
  | some _ => s.destroy a

def scheduleRemove (s : PoolState) (k : Kind) (id : UInt64) : PoolState :=
  match (s.containers k).lookup id with
  | none => s
  | some a => (s.setContainer k ((s.containers k).erase id)).destroy a

/-- The body of an `if` on a pointer that is locked. -/
def withLock (s : PoolState) (k : Kind) (p : WeakPtr) (f : Nat → Object k → PoolState) : PoolState :=
  match p with
  | none => s
  | some a =>
    match s.heap.get k a with
    | none => s
    | some x => f a x

/-- What `Commit` does to the resource itself. -/
def commitOne (s : PoolState) (k : Kind) (a : Nat) : PoolState :=
  s.withLock k (some a) fun a x =>
    (s.pushAll k a (x.commitCommands s.heap)).update k (Object.committed s.heap) a

def commitGlBuffer (s : PoolState) (p : WeakPtr) : PoolState :=
  s.withLock .glBuffers p fun a _ => s.commitOne .glBuffers a

def commitGlShader (s : PoolState) (p : WeakPtr) : PoolState :=
  s.withLock .glShaders p fun a _ => s.commitOne .glShaders a

def commitGlProgram (s : PoolState) (p : WeakPtr) : PoolState :=
  s.withLock .glPrograms p fun a (x : GlProgram) =>
    if x.shouldLink then (x.glShaders.foldl commitGlShader s).commitOne .glPrograms a else s

def commitGlVertexArray (s : PoolState) (p : WeakPtr) : PoolState :=
  s.withLock .glVertexArrays p fun a (v : GlVertexArray) =>
    if v.damaged then (v.buffers.foldl commitGlBuffer s).commitOne .glVertexArrays a else s

def commitGlTexture (s : PoolState) (p : WeakPtr) : PoolState :=
  s.withLock .glTextures p fun a _ => s.commitOne .glTextures a

def commitGlSampler (s : PoolState) (p : WeakPtr) : PoolState :=
  s.withLock .glSamplers p fun a _ => s.commitOne .glSamplers a

def commitTextureBinding (s : PoolState) (b : TextureBinding) : PoolState :=
  (s.commitGlTexture b.texture).commitGlSampler b.sampler

def commitElementArrayBuffer (s : PoolState) (t : GlBaseTechnique) : PoolState :=
  if t.drawMethod = .elements then s.commitGlBuffer t.elementArrayBuffer else s

def commitGlBaseTechnique (s : PoolState) (p : WeakPtr) : PoolState :=
  s.withLock .glBaseTechniques p fun a (t : GlBaseTechnique) =>
    let s := (s.commitGlProgram t.program).commitGlVertexArray t.vertexArray
    let s := (t.textureBindings.entries.map Sigma.snd).foldl commitTextureBinding s
    (s.commitElementArrayBuffer t).commitOne .glBaseTechniques a

def commitRenderingUnit (s : PoolState) (p : WeakPtr) : PoolState :=
  s.withLock .renderingUnits p fun a (u : RenderingUnit) =>
    (s.commitGlBaseTechnique u.glBaseTechnique).commitOne .renderingUnits a

/-- `VirtualObject::Commit`, of the object at `a`. -/
def commitVirtualObject (s : PoolState) (a : Nat) : PoolState :=
  s.withLock .virtualObjects (some a) fun a (o : VirtualObject) =>
    let s := (o.renderingUnits.foldl commitRenderingUnit s).commitOne .virtualObjects a
    { s with updateRenderingQueue := s.updateRenderingQueue.commit }

/-- `VirtualObject::Move`, of the object at `a`. -/
def moveVirtualObject (s : PoolState) (a : Nat) (position quaternion : Bytes) : PoolState :=
  let s := s.pushAll .virtualObjects a (VirtualObject.moveCommands position quaternion)
  { s with updateRenderingQueue := s.updateRenderingQueue.commit }

variable {s s' s'' : PoolState} {k : Kind} {a b : Nat}

@[simp] theorem containers_setContainer (c : AList fun _ : UInt64 => Nat) :
    (s.setContainer k c).containers = Function.update s.containers k c := rfl

theorem queue_pushAll (cs : List (Command k)) :
    (s.pushAll k a cs).updateRenderingQueue =
      { s.updateRenderingQueue with
        queue := s.updateRenderingQueue.queue ++ cs.map fun c => .command ⟨k, a, c⟩ } := by
  rw [pushAll]
  generalize s.updateRenderingQueue = q
  induction cs generalizing q with
  | nil => rw [List.map_nil, List.append_nil, List.foldl_nil]
  | cons c cs ih =>
    rw [List.foldl_cons, ih, AtomicCommandQueue.push, List.append_assoc]
    rfl

/-- What holds whether or not the pointer has expired. -/
theorem withLock_induction {motive : PoolState → Prop} {p : WeakPtr} {f : Nat → Object k → PoolState}
    (hexpired : motive s) (halive : ∀ a x, p = some a → s.heap.get k a = some x → motive (f a x)) :
    motive (s.withLock k p f) := by
  unfold withLock
  split
  · exact hexpired
  · rename_i a
    split
    · exact hexpired
    · rename_i x hx
      exact halive a x rfl hx

theorem withLock_of_get {p : WeakPtr} {f : Nat → Object k → PoolState} {x : Object k}
    (hp : p = some a) (hx : s.heap.get k a = some x) : s.withLock k p f = f a x := by
  subst hp
  show (match s.heap.get k a with | none => s | some x => f a x) = _
  rw [hx]

-- ---------------------------------------------------------------------------
-- Destruction
-- ---------------------------------------------------------------------------

theorem objects_destroy : (s.destroy a).heap.objects b = if b = a then none else s.heap.objects b := by
  unfold destroy
  split
  · exact Function.update_apply ..
  · rename_i hnone
    split
    · rename_i heq
      exact heq ▸ hnone
    · rfl

@[simp] theorem containers_destroy : (s.destroy a).containers = s.containers := by
  unfold destroy
  split
  · rfl
  · rfl

@[simp] theorem virtualObjects_destroy : (s.destroy a).virtualObjects = s.virtualObjects := by
  unfold destroy
  split
  · rfl
  · rfl

theorem get_destroy_of_ne (hb : b ≠ a) : (s.destroy a).heap.get k b = s.heap.get k b := by
  rw [Heap.get, Heap.get, objects_destroy, if_neg hb]

theorem later_destroy : s.heap.Later (s.destroy a).heap := by
  unfold destroy
  split
  · exact Heap.later_free
  · exact .refl _

theorem objects_foldl_destroy (as : List Nat) :
    (as.foldl destroy s).heap.objects b = if b ∈ as then none else s.heap.objects b := by
  induction as generalizing s with
  | nil => rfl
  | cons a as ih =>
    rw [List.foldl_cons, ih, objects_destroy]
    cases Decidable.em (b = a) with
    | inl heq => simp [heq]
    | inr hne => simp [hne]

theorem later_foldl_destroy (as : List Nat) : s.heap.Later (as.foldl destroy s).heap := by
  induction as generalizing s with
  | nil => exact .refl _
  | cons a as ih => exact later_destroy.trans ih

theorem containers_foldl_destroy (as : List Nat) :
    (as.foldl destroy s).containers = s.containers := by
  induction as generalizing s with
  | nil => rfl
  | cons a as ih => exact ih.trans containers_destroy

-- ---------------------------------------------------------------------------
-- The walk of a commit
-- ---------------------------------------------------------------------------

/-- A commit of one resource after the other, of the kinds in `K`. -/
inductive Walk (K : Kind → Prop) (s : PoolState) : PoolState → Prop
  | refl : Walk K s s
  | commitOne {s' : PoolState} (h : Walk K s s') {k : Kind} (hk : K k) (a : Nat) :
      Walk K s (s'.commitOne k a)

variable {K K' : Kind → Prop}

theorem Walk.trans (h : Walk K s s') (h' : Walk K s' s'') : Walk K s s'' := by
  induction h' with
  | refl => exact h
  | commitOne _ hk a ih => exact ih.commitOne hk a

theorem Walk.mono (hK : ∀ k, K k → K' k) (h : Walk K s s') : Walk K' s s' := by
  induction h with
  | refl => exact .refl
  | commitOne _ hk a ih => exact ih.commitOne (hK _ hk) a

theorem Walk.foldl {τ : Type} {f : PoolState → τ → PoolState} (hf : ∀ s x, Walk K s (f s x))
    (s : PoolState) (xs : List τ) : Walk K s (xs.foldl f s) := by
  induction xs generalizing s with
  | nil => exact .refl
  | cons x xs ih => exact (hf s x).trans (ih (f s x))

/-- What holds of the resources one by one holds of a walk. -/
theorem Walk.invariant {I : PoolState → Prop} (hstep : ∀ s k a, I s → I (s.commitOne k a)) (hs : I s)
    (h : Walk K s s') : I s' := by
  induction h with
  | refl => exact hs
  | commitOne _ _ a ih => exact hstep _ _ a ih

theorem walk_commitGlBuffer (s : PoolState) (p : WeakPtr) :
    Walk (· = .glBuffers) s (s.commitGlBuffer p) :=
  withLock_induction .refl fun a _ _ _ => .commitOne (K := (· = .glBuffers)) .refl rfl a

theorem walk_commitGlShader (s : PoolState) (p : WeakPtr) :
    Walk (· = .glShaders) s (s.commitGlShader p) :=
  withLock_induction .refl fun a _ _ _ => .commitOne (K := (· = .glShaders)) .refl rfl a

theorem walk_commitGlProgram (s : PoolState) (p : WeakPtr) :
    Walk (fun k => k = .glShaders ∨ k = .glPrograms) s (s.commitGlProgram p) := by
  apply withLock_induction .refl
  intro a x _ _
  split
  · have hshaders := Walk.foldl walk_commitGlShader s (GlProgram.glShaders x)
    exact (hshaders.mono fun _ hk => .inl hk).commitOne (.inr rfl) a
  · exact .refl

theorem walk_commitGlVertexArray (s : PoolState) (p : WeakPtr) :
    Walk (fun k => k = .glBuffers ∨ k = .glVertexArrays) s (s.commitGlVertexArray p) := by
  apply withLock_induction .refl
  intro a v _ _
  split
  · have hbuffers := Walk.foldl walk_commitGlBuffer s (GlVertexArray.buffers v)
    exact (hbuffers.mono fun _ hk => .inl hk).commitOne (.inr rfl) a
  · exact .refl

theorem walk_commitGlTexture (s : PoolState) (p : WeakPtr) :
    Walk (· = .glTextures) s (s.commitGlTexture p) :=
  withLock_induction .refl fun a _ _ _ => .commitOne (K := (· = .glTextures)) .refl rfl a

theorem walk_commitGlSampler (s : PoolState) (p : WeakPtr) :
    Walk (· = .glSamplers) s (s.commitGlSampler p) :=
  withLock_induction .refl fun a _ _ _ => .commitOne (K := (· = .glSamplers)) .refl rfl a

theorem walk_commitTextureBinding (s : PoolState) (b : TextureBinding) :
    Walk (fun k => k = .glTextures ∨ k = .glSamplers) s (s.commitTextureBinding b) :=
  ((walk_commitGlTexture s b.texture).mono fun _ hk => .inl hk).trans
    ((walk_commitGlSampler _ b.sampler).mono fun _ hk => .inr hk)

theorem walk_commitElementArrayBuffer (s : PoolState) (t : GlBaseTechnique) :
    Walk (· = .glBuffers) s (s.commitElementArrayBuffer t) := by
  unfold commitElementArrayBuffer
  split
  · exact walk_commitGlBuffer s _
  · exact .refl

/-- A walk below a virtual object. -/
abbrev UnitWalk : PoolState → PoolState → Prop := Walk fun k => k ≠ .virtualObjects

theorem Walk.unitWalk (h : Walk K s s') (hK : ¬ K .virtualObjects) : UnitWalk s s' :=
  h.mono fun _ hk heq => hK (heq ▸ hk)

theorem walk_commitGlBaseTechnique (s : PoolState) (p : WeakPtr) :
    UnitWalk s (s.commitGlBaseTechnique p) := by
  apply withLock_induction .refl
  intro a t _ _
  have hprogram := (walk_commitGlProgram s t.program).unitWalk (by decide)
  have hvertexArray := hprogram.trans
    ((walk_commitGlVertexArray _ t.vertexArray).unitWalk (by decide))
  have htextures := hvertexArray.trans ((Walk.foldl walk_commitTextureBinding _
    (t.textureBindings.entries.map Sigma.snd)).unitWalk (by decide))
  exact (htextures.trans ((walk_commitElementArrayBuffer _ t).unitWalk (by decide))).commitOne
    (by decide) a

theorem walk_commitRenderingUnit (s : PoolState) (p : WeakPtr) :
    UnitWalk s (s.commitRenderingUnit p) :=
  withLock_induction .refl fun a _ _ _ =>
    (walk_commitGlBaseTechnique s _).commitOne (k := .renderingUnits) (by decide) a

/-- The walk, and the commit marker that `VirtualObject::Commit` pushes behind it. -/
theorem walk_commitVirtualObject (s : PoolState) (a : Nat) :
    s.commitVirtualObject a = s ∨ ∃ s', Walk (fun _ => True) s s' ∧ s.commitVirtualObject a =
      { s' with updateRenderingQueue := s'.updateRenderingQueue.commit } := by
  apply withLock_induction (motive := fun t => t = s ∨ ∃ s', Walk (fun _ => True) s s' ∧ t =
    { s' with updateRenderingQueue := s'.updateRenderingQueue.commit }) (.inl rfl)
  intro a o _ _
  have hunits := Walk.foldl walk_commitRenderingUnit s (VirtualObject.renderingUnits o)
  exact .inr ⟨_, (hunits.mono fun _ _ => trivial).commitOne trivial a, rfl⟩

theorem commitOne_cases (s : PoolState) (k : Kind) (a : Nat) :
    s.commitOne k a = s ∨ ∃ x, s.heap.get k a = some x ∧ s.commitOne k a =
      (s.pushAll k a (x.commitCommands s.heap)).update k (Object.committed s.heap) a := by
  apply withLock_induction (motive := fun t => t = s ∨ ∃ x, s.heap.get k a = some x ∧ t =
    (s.pushAll k a (x.commitCommands s.heap)).update k (Object.committed s.heap) a) (.inl rfl)
  rintro a x ⟨⟩ hx
  exact .inr ⟨x, hx, rfl⟩

theorem heap_commitOne (s : PoolState) (k : Kind) (a : Nat) :
    (s.commitOne k a).heap = s.heap.modify k (Object.committed s.heap) a := by
  cases hx : s.heap.get k a with
  | none =>
    have hsame : s.commitOne k a = s := by
      rcases commitOne_cases s k a with heq | ⟨x, hx', -⟩
      · exact heq
      · rw [hx] at hx'
        cases hx'
    rw [hsame, Heap.modify_of_get_eq_none _ hx]
  | some x =>
    rw [commitOne, withLock_of_get rfl hx]
    rfl

/-- A walk leaves the containers as they are. -/
theorem Walk.frame (h : Walk K s s') : s'.containers = s.containers ∧
    s'.virtualObjects = s.virtualObjects ∧ s'.rendering = s.rendering := by
  apply h.invariant (I := fun t => t.containers = s.containers ∧
    t.virtualObjects = s.virtualObjects ∧ t.rendering = s.rendering) _ ⟨rfl, rfl, rfl⟩
  intro t k a ht
  rcases commitOne_cases t k a with heq | ⟨x, -, heq⟩
  · rw [heq]
    exact ht
  · rw [heq]
    exact ht

/-- A walk leaves resources of other kinds as they are. -/
theorem Walk.get_eq (h : Walk K s s') (hk : ¬ K k) (a : Nat) : s'.heap.get k a = s.heap.get k a := by
  induction h with
  | refl => rfl
  | @commitOne s' _ k' hk' b ih =>
    have hne : k' ≠ k := fun heq => hk (heq ▸ hk')
    rw [heap_commitOne, Heap.get_modify_of_ne_kind _ hne]
    exact ih

end PoolState

end ZenRemote.Client
