-- SUMMARY: The session-scoped services of the client: requests, their handlers, and the client as a machine.
import ZenRemote.Client.ResourcePool
import ZenRemote.Lib.Machine

/-!
# Services

A handler looks up the resources that its request names and calls a method of the
first. `Get` gives an empty pointer for an id that is not in the container; what a
handler does with an empty pointer decides whether it returns a status.
-/

namespace ZenRemote.Client

namespace PoolState

/-- `Get` of the containers that find resources by their ids. -/
def get (s : PoolState) (k : Kind) (id : UInt64) : Option Nat := (s.containers k).lookup id

/-- The method call on a pointer: the object is where the pointer says. -/
def deref (s : PoolState) (k : Kind) : Option Nat → Except Fault Nat
  | none => .error .nullPointer
  | some a => if (s.heap.get k a).isSome then .ok a else .error .useAfterFree

/-- `memcpy` of `size` bytes from a request field. -/
def copyField (field : Bytes) (size : Nat) : Except Fault Bytes :=
  if size ≤ field.length then .ok (field.take size) else .error .overread

/-- A handler that calls a method of the resource with the id, and no more. -/
def callMethod (s : PoolState) (k : Kind) (id : UInt64) (f : Object k → Object k) :
    Except Fault PoolState := do
  let a ← s.deref k (s.get k id)
  return s.update k f a

/-- `sizeof(glm::vec3)`. -/
def sizeofVec3 : Nat := 12

/-- `sizeof(glm::quat)`. -/
def sizeofQuat : Nat := 16

/-- The session and its pool go, the containers in the reverse of their order. -/
def destroyPool (s : PoolState) : PoolState :=
  let maps := [Kind.glBaseTechniques, .glVertexArrays, .glSamplers, .glTextures, .glPrograms,
    .glShaders, .glBuffers, .renderingUnits].flatMap fun k => (s.containers k).entries.map Sigma.snd
  let s := (maps ++ s.virtualObjects.owned.map Prod.snd).foldl destroy s
  { s with virtualObjects := {}, merging := false, containers := fun _ => ∅ }

/-- `ForEach` of the virtual objects, the section under `new_resources_mtx_`. -/
def mergeNew (s : PoolState) : PoolState :=
  { s with virtualObjects := s.virtualObjects.mergeNew, merging := true }

/-- The section under `remove_set_mtx_`, which destroys what it removes. -/
def applyRemovals (s : PoolState) : PoolState :=
  let s' := (s.virtualObjects.removed.map Prod.snd).foldl destroy s
  { s' with virtualObjects := s.virtualObjects.applyRemovals, merging := false }

/-- `ForEach` of the virtual objects, before it calls its argument, if nothing gets between
its two sections. -/
def forEachVirtualObject (s : PoolState) : PoolState := s.mergeNew.applyRemovals

theorem virtualObjects_forEachVirtualObject (s : PoolState) :
    s.forEachVirtualObject.virtualObjects = s.virtualObjects.applyChanges :=
  s.virtualObjects.applyChanges_eq.symm

end PoolState

namespace VirtualObjectServiceImpl

def new (s : PoolState) (id : UInt64) : Except Fault PoolState :=
  .ok { s with
    heap := s.heap.alloc .virtualObjects ({ id := id } : VirtualObject)
    virtualObjects := s.virtualObjects.add id s.heap.next }

def delete (s : PoolState) (id : UInt64) : Except Fault PoolState :=
  .ok { s with virtualObjects := s.virtualObjects.scheduleRemove id }

def commit (s : PoolState) (id : UInt64) : Except Fault PoolState := do
  let a ← s.deref .virtualObjects (← s.virtualObjects.get id)
  return s.commitVirtualObject a

def move (s : PoolState) (id : UInt64) (position quaternion : Bytes) : Except Fault PoolState := do
  let p ← s.virtualObjects.get id
  let position ← PoolState.copyField position PoolState.sizeofVec3
  let quaternion ← PoolState.copyField quaternion PoolState.sizeofQuat
  let a ← s.deref .virtualObjects p
  return s.moveVirtualObject a position quaternion

end VirtualObjectServiceImpl

namespace RenderingUnitServiceImpl

def new (s : PoolState) (id virtualObjectId : UInt64) : Except Fault PoolState := do
  let unit := s.heap.next
  let a ← s.deref .virtualObjects (← s.virtualObjects.get virtualObjectId)
  return (s.update .virtualObjects (fun o : VirtualObject => o.addRenderingUnit unit) a).addNew
    .renderingUnits ({ id := id } : RenderingUnit)

def delete (s : PoolState) (id : UInt64) : Except Fault PoolState :=
  .ok (s.scheduleRemove .renderingUnits id)

end RenderingUnitServiceImpl

namespace GlBaseTechniqueServiceImpl

def new (s : PoolState) (id renderingUnitId : UInt64) : Except Fault PoolState := do
  let technique := s.heap.next
  let a ← s.deref .renderingUnits (s.get .renderingUnits renderingUnitId)
  return (s.update .renderingUnits (fun u : RenderingUnit => u.setGlBaseTechnique technique) a).addNew
    .glBaseTechniques ({ id := id } : GlBaseTechnique)

def delete (s : PoolState) (id : UInt64) : Except Fault PoolState :=
  .ok (s.scheduleRemove .glBaseTechniques id)

def bindProgram (s : PoolState) (id programId : UInt64) : Except Fault PoolState :=
  s.callMethod .glBaseTechniques id fun t : GlBaseTechnique =>
    t.bindProgram (s.get .glPrograms programId)

def bindVertexArray (s : PoolState) (id vertexArrayId : UInt64) : Except Fault PoolState :=
  s.callMethod .glBaseTechniques id fun t : GlBaseTechnique =>
    t.bindVertexArray (s.get .glVertexArrays vertexArrayId)

def glUniform (s : PoolState) (id : UInt64) (u : UniformVariable) : Except Fault PoolState :=
  s.callMethod .glBaseTechniques id fun t : GlBaseTechnique => t.glUniform u

def bindTexture (s : PoolState) (id : UInt64) (binding : UInt32) (name : Bytes) (textureId : UInt64)
    (target : UInt32) (samplerId : UInt64) : Except Fault PoolState :=
  s.callMethod .glBaseTechniques id fun t : GlBaseTechnique =>
    t.bindTexture binding name (s.get .glTextures textureId) target (s.get .glSamplers samplerId)

def glDrawArrays (s : PoolState) (id : UInt64) (mode : UInt32) (first : Int32) (count : UInt32) :
    Except Fault PoolState :=
  s.callMethod .glBaseTechniques id fun t : GlBaseTechnique => t.glDrawArrays mode first count

def glDrawElements (s : PoolState) (id : UInt64) (mode count type : UInt32) (offset : UInt64)
    (elementArrayBufferId : UInt64) : Except Fault PoolState :=
  s.callMethod .glBaseTechniques id fun t : GlBaseTechnique =>
    t.glDrawElements mode count type offset (s.get .glBuffers elementArrayBufferId)

end GlBaseTechniqueServiceImpl

namespace GlVertexArrayServiceImpl

def new (s : PoolState) (id : UInt64) : Except Fault PoolState :=
  .ok (s.addNew .glVertexArrays ({ id := id } : GlVertexArray))

def delete (s : PoolState) (id : UInt64) : Except Fault PoolState :=
  .ok (s.scheduleRemove .glVertexArrays id)

def glEnableVertexAttribArray (s : PoolState) (id : UInt64) (index : UInt32) :
    Except Fault PoolState :=
  s.callMethod .glVertexArrays id fun v : GlVertexArray => v.glEnableVertexAttribArray index

def glDisableVertexAttribArray (s : PoolState) (id : UInt64) (index : UInt32) :
    Except Fault PoolState :=
  s.callMethod .glVertexArrays id fun v : GlVertexArray => v.glDisableVertexAttribArray index

def glVertexAttribPointer (s : PoolState) (id : UInt64) (index : UInt32) (size : Int32)
    (type : UInt32) (normalized : Bool) (stride : Int32) (offset : UInt64) (glBufferId : UInt64) :
    Except Fault PoolState :=
  s.callMethod .glVertexArrays id fun v : GlVertexArray =>
    v.glVertexAttribPointer index size type normalized stride offset (s.get .glBuffers glBufferId)

end GlVertexArrayServiceImpl

namespace GlBufferServiceImpl

def new (s : PoolState) (id : UInt64) : Except Fault PoolState :=
  .ok (s.addNew .glBuffers ({ id := id } : GlBuffer))

def delete (s : PoolState) (id : UInt64) : Except Fault PoolState :=
  .ok (s.scheduleRemove .glBuffers id)

def glBufferData (s : PoolState) (id : UInt64) (data : Bytes) (target usage : UInt32) :
    Except Fault PoolState :=
  s.callMethod .glBuffers id fun b : GlBuffer => b.glBufferData data target usage

end GlBufferServiceImpl

namespace GlShaderServiceImpl

def new (s : PoolState) (id : UInt64) (source : Bytes) (type : UInt32) : Except Fault PoolState :=
  .ok (s.addNew .glShaders ({ id := id, source := source, type := type } : GlShader))

def delete (s : PoolState) (id : UInt64) : Except Fault PoolState :=
  .ok (s.scheduleRemove .glShaders id)

end GlShaderServiceImpl

namespace GlProgramServiceImpl

def new (s : PoolState) (id : UInt64) : Except Fault PoolState :=
  .ok (s.addNew .glPrograms ({ id := id } : GlProgram))

def delete (s : PoolState) (id : UInt64) : Except Fault PoolState :=
  .ok (s.scheduleRemove .glPrograms id)

def glAttachShader (s : PoolState) (id shaderId : UInt64) : Except Fault PoolState :=
  s.callMethod .glPrograms id fun p : GlProgram => p.glAttachShader (s.get .glShaders shaderId)

def glLinkProgram (s : PoolState) (id : UInt64) : Except Fault PoolState :=
  s.callMethod .glPrograms id fun p : GlProgram => p.glLinkProgram

end GlProgramServiceImpl

namespace GlTextureServiceImpl

def new (s : PoolState) (id : UInt64) : Except Fault PoolState :=
  .ok (s.addNew .glTextures ({ id := id } : GlTexture))

def delete (s : PoolState) (id : UInt64) : Except Fault PoolState :=
  .ok (s.scheduleRemove .glTextures id)

def glTexImage2D (s : PoolState) (id : UInt64) (args : Image2D) (data : Bytes) :
    Except Fault PoolState :=
  s.callMethod .glTextures id fun t : GlTexture => t.glTexImage2D args data

def glTexSubImage2D (s : PoolState) (id : UInt64) (args : SubImage2D) (data : Bytes) :
    Except Fault PoolState :=
  s.callMethod .glTextures id fun t : GlTexture => t.glTexSubImage2D args data

def glGenerateMipmap (s : PoolState) (id : UInt64) (target : UInt32) : Except Fault PoolState :=
  s.callMethod .glTextures id fun t : GlTexture => t.glGenerateMipmap target

end GlTextureServiceImpl

namespace GlSamplerServiceImpl

def new (s : PoolState) (id : UInt64) : Except Fault PoolState :=
  .ok (s.addNew .glSamplers ({ id := id } : GlSampler))

def delete (s : PoolState) (id : UInt64) : Except Fault PoolState :=
  .ok (s.scheduleRemove .glSamplers id)

def glSamplerParameterf (s : PoolState) (id : UInt64) (pname param : UInt32) :
    Except Fault PoolState :=
  s.callMethod .glSamplers id fun x : GlSampler => x.parameterf pname param

def glSamplerParameteri (s : PoolState) (id : UInt64) (pname : UInt32) (param : Int32) :
    Except Fault PoolState :=
  s.callMethod .glSamplers id fun x : GlSampler => x.parameteri pname param

def glSamplerParameterfv (s : PoolState) (id : UInt64) (pname : UInt32) (params : Bytes) :
    Except Fault PoolState :=
  s.callMethod .glSamplers id fun x : GlSampler => x.parameterfv pname params

def glSamplerParameteriv (s : PoolState) (id : UInt64) (pname : UInt32) (params : Bytes) :
    Except Fault PoolState :=
  s.callMethod .glSamplers id fun x : GlSampler => x.parameteriv pname params

def glSamplerParameterIiv (s : PoolState) (id : UInt64) (pname : UInt32) (params : Bytes) :
    Except Fault PoolState :=
  s.callMethod .glSamplers id fun x : GlSampler => x.parameterIiv pname params

def glSamplerParameterIuiv (s : PoolState) (id : UInt64) (pname : UInt32) (params : Bytes) :
    Except Fault PoolState :=
  s.callMethod .glSamplers id fun x : GlSampler => x.parameterIuiv pname params

end GlSamplerServiceImpl

-- ---------------------------------------------------------------------------
-- Requests
-- ---------------------------------------------------------------------------

/-- The requests of all session-scoped services. -/
inductive Request where
  | virtualObjectNew (id : UInt64)
  | virtualObjectDelete (id : UInt64)
  | virtualObjectCommit (id : UInt64)
  | virtualObjectMove (id : UInt64) (position quaternion : Bytes)
  | renderingUnitNew (id virtualObjectId : UInt64)
  | renderingUnitDelete (id : UInt64)
  | glBaseTechniqueNew (id renderingUnitId : UInt64)
  | glBaseTechniqueDelete (id : UInt64)
  | bindProgram (id programId : UInt64)
  | bindVertexArray (id vertexArrayId : UInt64)
  | glUniform (id : UInt64) (u : UniformVariable)
  | bindTexture (id : UInt64) (binding : UInt32) (name : Bytes) (textureId : UInt64)
      (target : UInt32) (samplerId : UInt64)
  | glDrawArrays (id : UInt64) (mode : UInt32) (first : Int32) (count : UInt32)
  | glDrawElements (id : UInt64) (mode count type : UInt32) (offset elementArrayBufferId : UInt64)
  | glVertexArrayNew (id : UInt64)
  | glVertexArrayDelete (id : UInt64)
  | glEnableVertexAttribArray (id : UInt64) (index : UInt32)
  | glDisableVertexAttribArray (id : UInt64) (index : UInt32)
  | glVertexAttribPointer (id : UInt64) (index : UInt32) (size : Int32) (type : UInt32)
      (normalized : Bool) (stride : Int32) (offset glBufferId : UInt64)
  | glBufferNew (id : UInt64)
  | glBufferDelete (id : UInt64)
  | glBufferData (id : UInt64) (data : Bytes) (target usage : UInt32)
  | glShaderNew (id : UInt64) (source : Bytes) (type : UInt32)
  | glShaderDelete (id : UInt64)
  | glProgramNew (id : UInt64)
  | glProgramDelete (id : UInt64)
  | glAttachShader (id shaderId : UInt64)
  | glLinkProgram (id : UInt64)
  | glTextureNew (id : UInt64)
  | glTextureDelete (id : UInt64)
  | glTexImage2D (id : UInt64) (args : Image2D) (data : Bytes)
  | glTexSubImage2D (id : UInt64) (args : SubImage2D) (data : Bytes)
  | glGenerateMipmap (id : UInt64) (target : UInt32)
  | glSamplerNew (id : UInt64)
  | glSamplerDelete (id : UInt64)
  | glSamplerParameterf (id : UInt64) (pname param : UInt32)
  | glSamplerParameteri (id : UInt64) (pname : UInt32) (param : Int32)
  | glSamplerParameterfv (id : UInt64) (pname : UInt32) (params : Bytes)
  | glSamplerParameteriv (id : UInt64) (pname : UInt32) (params : Bytes)
  | glSamplerParameterIiv (id : UInt64) (pname : UInt32) (params : Bytes)
  | glSamplerParameterIuiv (id : UInt64) (pname : UInt32) (params : Bytes)
  deriving DecidableEq

namespace PoolState

def handle (s : PoolState) : Request → Except Fault PoolState
  | .virtualObjectNew id => VirtualObjectServiceImpl.new s id
  | .virtualObjectDelete id => VirtualObjectServiceImpl.delete s id
  | .virtualObjectCommit id => VirtualObjectServiceImpl.commit s id
  | .virtualObjectMove id position quaternion =>
    VirtualObjectServiceImpl.move s id position quaternion
  | .renderingUnitNew id virtualObjectId => RenderingUnitServiceImpl.new s id virtualObjectId
  | .renderingUnitDelete id => RenderingUnitServiceImpl.delete s id
  | .glBaseTechniqueNew id renderingUnitId => GlBaseTechniqueServiceImpl.new s id renderingUnitId
  | .glBaseTechniqueDelete id => GlBaseTechniqueServiceImpl.delete s id
  | .bindProgram id programId => GlBaseTechniqueServiceImpl.bindProgram s id programId
  | .bindVertexArray id vertexArrayId =>
    GlBaseTechniqueServiceImpl.bindVertexArray s id vertexArrayId
  | .glUniform id u => GlBaseTechniqueServiceImpl.glUniform s id u
  | .bindTexture id binding name textureId target samplerId =>
    GlBaseTechniqueServiceImpl.bindTexture s id binding name textureId target samplerId
  | .glDrawArrays id mode first count =>
    GlBaseTechniqueServiceImpl.glDrawArrays s id mode first count
  | .glDrawElements id mode count type offset elementArrayBufferId =>
    GlBaseTechniqueServiceImpl.glDrawElements s id mode count type offset elementArrayBufferId
  | .glVertexArrayNew id => GlVertexArrayServiceImpl.new s id
  | .glVertexArrayDelete id => GlVertexArrayServiceImpl.delete s id
  | .glEnableVertexAttribArray id index =>
    GlVertexArrayServiceImpl.glEnableVertexAttribArray s id index
  | .glDisableVertexAttribArray id index =>
    GlVertexArrayServiceImpl.glDisableVertexAttribArray s id index
  | .glVertexAttribPointer id index size type normalized stride offset glBufferId =>
    GlVertexArrayServiceImpl.glVertexAttribPointer s id index size type normalized stride offset
      glBufferId
  | .glBufferNew id => GlBufferServiceImpl.new s id
  | .glBufferDelete id => GlBufferServiceImpl.delete s id
  | .glBufferData id data target usage => GlBufferServiceImpl.glBufferData s id data target usage
  | .glShaderNew id source type => GlShaderServiceImpl.new s id source type
  | .glShaderDelete id => GlShaderServiceImpl.delete s id
  | .glProgramNew id => GlProgramServiceImpl.new s id
  | .glProgramDelete id => GlProgramServiceImpl.delete s id
  | .glAttachShader id shaderId => GlProgramServiceImpl.glAttachShader s id shaderId
  | .glLinkProgram id => GlProgramServiceImpl.glLinkProgram s id
  | .glTextureNew id => GlTextureServiceImpl.new s id
  | .glTextureDelete id => GlTextureServiceImpl.delete s id
  | .glTexImage2D id args data => GlTextureServiceImpl.glTexImage2D s id args data
  | .glTexSubImage2D id args data => GlTextureServiceImpl.glTexSubImage2D s id args data
  | .glGenerateMipmap id target => GlTextureServiceImpl.glGenerateMipmap s id target
  | .glSamplerNew id => GlSamplerServiceImpl.new s id
  | .glSamplerDelete id => GlSamplerServiceImpl.delete s id
  | .glSamplerParameterf id pname param => GlSamplerServiceImpl.glSamplerParameterf s id pname param
  | .glSamplerParameteri id pname param => GlSamplerServiceImpl.glSamplerParameteri s id pname param
  | .glSamplerParameterfv id pname params =>
    GlSamplerServiceImpl.glSamplerParameterfv s id pname params
  | .glSamplerParameteriv id pname params =>
    GlSamplerServiceImpl.glSamplerParameteriv s id pname params
  | .glSamplerParameterIiv id pname params =>
    GlSamplerServiceImpl.glSamplerParameterIiv s id pname params
  | .glSamplerParameterIuiv id pname params =>
    GlSamplerServiceImpl.glSamplerParameterIuiv s id pname params

/-- `Get` of the virtual objects waits for `resources_lock_`, unless it finds the object
among the new ones. -/
def waits (s : PoolState) (r : Request) : Bool :=
  s.merging && match r with
    | .virtualObjectCommit id | .virtualObjectMove id _ _ | .renderingUnitNew _ id =>
      !(s.virtualObjects.newResources.any fun e => e.1 = id)
    | _ => false

-- ---------------------------------------------------------------------------
-- What a request can do
-- ---------------------------------------------------------------------------

/-- A method of a resource keeps the id; the weak pointers it adds are from `Get`. -/
structure IsMethod (s : PoolState) {k : Kind} (f : Object k → Object k) : Prop where
  id : ∀ x, (f x).id = x.id
  captured : ∀ x a, some a ∈ (f x).captured → some a ∈ x.captured ∨ ∃ k id, s.get k id = some a

inductive Handled (s : PoolState) : PoolState → Prop
  | newVirtualObject (id : UInt64) : Handled s { s with
      heap := s.heap.alloc .virtualObjects ({ id := id } : VirtualObject)
      virtualObjects := s.virtualObjects.add id s.heap.next }
  | deleteVirtualObject (id : UInt64) :
      Handled s { s with virtualObjects := s.virtualObjects.scheduleRemove id }
  | new {k : Kind} (hk : k ≠ .virtualObjects) {x : Object k} (hx : ∀ a, some a ∉ x.captured) :
      Handled s (s.addNew k x)
  | delete {k : Kind} (hk : k ≠ .virtualObjects) (id : UInt64) : Handled s (s.scheduleRemove k id)
  | method {k : Kind} {f : Object k → Object k} (hf : s.IsMethod f) (a : Nat) :
      Handled s (s.update k f a)
  /-- The new resource is entered in another one. -/
  | newInto {k k' : Kind} {f : Object k → Object k} (hf : s.IsMethod f) (a : Nat)
      (hk : k' ≠ .virtualObjects) {x : Object k'} (hx : ∀ a, some a ∉ x.captured) :
      Handled s ((s.update k f a).addNew k' x)
  | commit (a : Nat) : Handled s (s.commitVirtualObject a)
  | move {a : Nat} {o : Object .virtualObjects} (ho : s.heap.get .virtualObjects a = some o)
      (position quaternion : Bytes) : Handled s (s.moveVirtualObject a position quaternion)

variable {s s' : PoolState} {k : Kind} {f : Object k → Object k}

theorem isMethod_of_eq (hid : ∀ x, (f x).id = x.id) (hcaptured : ∀ x, (f x).captured = x.captured) :
    s.IsMethod f :=
  ⟨hid, fun x _ ha => .inl (hcaptured x ▸ ha)⟩

theorem bind_eq_ok {α β : Type} {x : Except Fault α} {g : α → Except Fault β} {y : β}
    (h : x >>= g = .ok y) : ∃ a, x = .ok a ∧ g a = .ok y := by
  cases x with
  | error e => cases h
  | ok a => exact ⟨a, rfl, h⟩

/-- The object is where the pointer says. -/
theorem deref_eq_ok {p : Option Nat} {a : Nat} (h : s.deref k p = .ok a) : ∃ x, s.heap.get k a = some x := by
  cases p with
  | none => cases h
  | some b =>
    unfold deref at h
    dsimp only at h
    split at h
    · rename_i hsome
      cases h
      exact Option.isSome_iff_exists.mp hsome
    · cases h

theorem handled_callMethod {id : UInt64} (h : s.callMethod k id f = .ok s') (hf : s.IsMethod f) :
    Handled s s' := by
  obtain ⟨a, -, hs'⟩ := bind_eq_ok h
  cases hs'
  exact .method hf a

theorem isMethod_bindProgram (id : UInt64) :
    s.IsMethod (k := .glBaseTechniques) fun t : GlBaseTechnique => t.bindProgram (s.get .glPrograms id) := by
  refine ⟨fun _ => rfl, fun t a ha => .inr ⟨.glPrograms, id, ?_⟩⟩
  exact (List.mem_singleton.mp ha).symm

theorem isMethod_glUniform (u : UniformVariable) :
    s.IsMethod (k := .glBaseTechniques) fun t : GlBaseTechnique => t.glUniform u := by
  apply isMethod_of_eq
  · intro t
    show (GlBaseTechnique.glUniform t u).id = GlBaseTechnique.id t
    unfold GlBaseTechnique.glUniform
    split
    · rfl
    · rfl
  · intro t
    show [(GlBaseTechnique.glUniform t u).program] = [GlBaseTechnique.program t]
    unfold GlBaseTechnique.glUniform
    split
    · rfl
    · rfl

theorem isMethod_glAttachShader (id : UInt64) :
    s.IsMethod (k := .glPrograms) fun p : GlProgram => p.glAttachShader (s.get .glShaders id) := by
  refine ⟨fun _ => rfl, fun p a ha => ?_⟩
  cases List.mem_append.mp ha with
  | inl hold => exact .inl hold
  | inr hnew => exact .inr ⟨.glShaders, id, (List.mem_singleton.mp hnew).symm⟩

/-- An attribute keeps its buffer, unless it gets one from `Get`. -/
theorem isMethod_updateAttribute {index : UInt32} {g : VertexAttrib → VertexAttrib}
    (hg : ∀ x, (g x).glBuffer = x.glBuffer ∨ ∃ id, (g x).glBuffer = s.get .glBuffers id) :
    s.IsMethod (k := .glVertexArrays) fun v : GlVertexArray => v.updateAttribute index g := by
  refine ⟨fun _ => rfl, fun v a ha => ?_⟩
  cases GlVertexArray.mem_buffers_updateAttribute ha with
  | inr hold => exact .inl hold
  | inl hnew =>
    rcases hg ((GlVertexArray.attributes v).lookup index |>.getD {}) with hkept | ⟨id, hget⟩
    · exact .inl (GlVertexArray.mem_buffers_of_lookup (hnew.trans hkept))
    · exact .inr ⟨.glBuffers, id, (hnew.trans hget).symm⟩

/-- Everything that a request can do. -/
theorem handle_cases {r : Request} (h : s.handle r = .ok s') : Handled s s' := by
  have hsame : ∀ {k : Kind} {id : UInt64} {f : Object k → Object k}, s.callMethod k id f = .ok s' →
      (∀ x, (f x).id = x.id) → (∀ x, (f x).captured = x.captured) → Handled s s' :=
    fun h hid hcaptured => handled_callMethod h (isMethod_of_eq hid hcaptured)
  cases r with
  | virtualObjectNew id =>
    cases h
    exact .newVirtualObject id
  | virtualObjectDelete id =>
    cases h
    exact .deleteVirtualObject id
  | virtualObjectCommit id =>
    obtain ⟨p, -, h⟩ := bind_eq_ok h
    obtain ⟨a, -, h⟩ := bind_eq_ok h
    cases h
    exact .commit a
  | virtualObjectMove id position quaternion =>
    obtain ⟨p, -, h⟩ := bind_eq_ok h
    obtain ⟨position, -, h⟩ := bind_eq_ok h
    obtain ⟨quaternion, -, h⟩ := bind_eq_ok h
    obtain ⟨a, ha, h⟩ := bind_eq_ok h
    cases h
    obtain ⟨o, ho⟩ := deref_eq_ok ha
    exact .move ho position quaternion
  | renderingUnitNew id virtualObjectId =>
    obtain ⟨p, -, h⟩ := bind_eq_ok h
    obtain ⟨a, -, h⟩ := bind_eq_ok h
    cases h
    refine .newInto (isMethod_of_eq ?_ ?_) a (by decide) (by simp [Object.captured])
    · exact fun _ => rfl
    · exact fun _ => rfl
  | glBaseTechniqueNew id renderingUnitId =>
    obtain ⟨a, -, h⟩ := bind_eq_ok h
    cases h
    refine .newInto (isMethod_of_eq ?_ ?_) a (by decide) (by simp [Object.captured])
    · exact fun _ => rfl
    · exact fun _ => rfl
  | renderingUnitDelete id | glBaseTechniqueDelete id | glVertexArrayDelete id | glBufferDelete id
  | glShaderDelete id | glProgramDelete id | glTextureDelete id | glSamplerDelete id =>
    cases h
    exact .delete (by decide) id
  | glVertexArrayNew id | glBufferNew id | glShaderNew id source type | glProgramNew id
  | glTextureNew id | glSamplerNew id =>
    cases h
    exact .new (by decide) (by simp [Object.captured, GlVertexArray.buffers])
  | bindProgram id programId => exact handled_callMethod h (isMethod_bindProgram programId)
  | glUniform id u => exact handled_callMethod h (isMethod_glUniform u)
  | glAttachShader id shaderId => exact handled_callMethod h (isMethod_glAttachShader shaderId)
  | glEnableVertexAttribArray id index =>
    exact handled_callMethod h (isMethod_updateAttribute fun _ => .inl rfl)
  | glDisableVertexAttribArray id index =>
    exact handled_callMethod h (isMethod_updateAttribute fun _ => .inl rfl)
  | glVertexAttribPointer id index size type normalized stride offset glBufferId =>
    exact handled_callMethod h (isMethod_updateAttribute fun _ => .inr ⟨glBufferId, rfl⟩)
  | bindVertexArray id vertexArrayId => exact hsame h (fun _ => rfl) fun _ => rfl
  | bindTexture id binding name textureId target samplerId =>
    exact hsame h (fun _ => rfl) fun _ => rfl
  | glDrawArrays id mode first count => exact hsame h (fun _ => rfl) fun _ => rfl
  | glDrawElements id mode count type offset elementArrayBufferId =>
    exact hsame h (fun _ => rfl) fun _ => rfl
  | glBufferData id data target usage => exact hsame h (fun _ => rfl) fun _ => rfl
  | glLinkProgram id => exact hsame h (fun _ => rfl) fun _ => rfl
  | glTexImage2D id args data => exact hsame h (fun _ => rfl) fun _ => rfl
  | glTexSubImage2D id args data => exact hsame h (fun _ => rfl) fun _ => rfl
  | glGenerateMipmap id target => exact hsame h (fun _ => rfl) fun _ => rfl
  | glSamplerParameterf id pname param => exact hsame h (fun _ => rfl) fun _ => rfl
  | glSamplerParameteri id pname param => exact hsame h (fun _ => rfl) fun _ => rfl
  | glSamplerParameterfv id pname params | glSamplerParameteriv id pname params
  | glSamplerParameterIiv id pname params | glSamplerParameterIuiv id pname params =>
    exact hsame h (fun _ => rfl) fun _ => rfl

/-- The rendering thread executes the next closure of a committed group, or pops the
marker at its end. -/
def executeNext (gl : Driver) (s : PoolState) : Option PoolState :=
  if s.updateRenderingQueue.commitCount = 0 then none else
  match s.updateRenderingQueue.queue with
  | [] => none
  | .commit :: rest =>
    some { s with updateRenderingQueue := ⟨rest, s.updateRenderingQueue.commitCount - 1⟩ }
  | .command c :: rest =>
    some { s with
      updateRenderingQueue := { s.updateRenderingQueue with queue := rest }
      rendering := c.execute gl s.heap s.rendering }

theorem executeNext_cases {gl : Driver} (h : s.executeNext gl = some s') :
    (∃ rest, s.updateRenderingQueue.queue = .commit :: rest ∧
      s' = { s with updateRenderingQueue := ⟨rest, s.updateRenderingQueue.commitCount - 1⟩ }) ∨
    ∃ c rest, s.updateRenderingQueue.queue = .command c :: rest ∧ s' = { s with
      updateRenderingQueue := { s.updateRenderingQueue with queue := rest }
      rendering := c.execute gl s.heap s.rendering } := by
  unfold executeNext at h
  split at h
  · cases h
  · split at h
    · cases h
    · rename_i rest hqueue
      cases h
      exact .inl ⟨rest, hqueue, rfl⟩
    · rename_i c rest hqueue
      cases h
      exact .inr ⟨c, rest, hqueue, rfl⟩

theorem toOption_eq_some {r : Request} (h : (s.handle r).toOption = some s') : s.handle r = .ok s' := by
  cases hr : s.handle r with
  | error e =>
    rw [hr] at h
    cases h
  | ok s'' =>
    rw [hr] at h
    exact congrArg Except.ok (Option.some.inj h)

end PoolState

/-- What the update thread and the rendering thread do. -/
inductive PoolLabel where
  | request (r : Request)
  /-- The session is replaced by a new one. A traversal holds the pool until its sections are over. -/
  | newSession
  /-- The rendering thread begins to traverse the virtual objects. -/
  | mergeNew
  | applyRemovals
  | executeNext

def poolMachine (gl : Driver) : Machine PoolState PoolLabel where
  init := {}
  step s
    | .request r => if s.waits r then none else (s.handle r).toOption
    | .newSession => if s.merging then none else some s.destroyPool
    | .mergeNew => if s.merging then none else some s.mergeNew
    | .applyRemovals => if s.merging then some s.applyRemovals else none
    | .executeNext => s.executeNext gl

namespace PoolState

variable {gl : Driver} {s s' : PoolState}

theorem handle_of_step {r : Request} (hstep : (poolMachine gl).step s (.request r) = some s') :
    s.handle r = .ok s' :=
  toOption_eq_some (Option.ite_none_left_eq_some.mp hstep).2

theorem newSession_of_step (hstep : (poolMachine gl).step s .newSession = some s') : s' = s.destroyPool :=
  (Option.some.inj (Option.ite_none_left_eq_some.mp hstep).2).symm

theorem mergeNew_of_step (hstep : (poolMachine gl).step s .mergeNew = some s') : s' = s.mergeNew :=
  (Option.some.inj (Option.ite_none_left_eq_some.mp hstep).2).symm

theorem applyRemovals_of_step (hstep : (poolMachine gl).step s .applyRemovals = some s') :
    s' = s.applyRemovals :=
  (Option.some.inj (Option.ite_none_right_eq_some.mp hstep).2).symm

end PoolState

end ZenRemote.Client
