-- SUMMARY: The resource objects of the server: ids, the requests of their methods, and an application that uses them.
import Mathlib.Algebra.Ring.Nat
import ZenRemote.Client.PoolContents
import ZenRemote.Lib.Lifetimes
import ZenRemote.Server.GlBaseTechnique
import ZenRemote.Server.GlTexture

/-!
# Resource objects

A resource object takes an id from its session when it is constructed. `Init`, each
method and the destructor push one job to its channel, and the job asks for one request
with the id and with what its closure has captured.
-/

namespace ZenRemote.Server

open Client (Bytes Image2D Kind SubImage2D)

/-- `SessionSerial`. Each member function is a section under a mutex of its own. -/
structure SessionSerial where
  resource : UInt64 := 1
  channel : UInt64 := 1
  deriving DecidableEq, Repr

namespace SessionSerial

def nextResourceSerial (s : SessionSerial) : UInt64 × SessionSerial :=
  (s.resource, { s with resource := s.resource + 1 })

def nextChannelSerial (s : SessionSerial) : UInt64 × SessionSerial :=
  (s.channel, { s with channel := s.channel + 1 })

end SessionSerial

/-- An array of `n` floats, by its bytes. -/
abbrev Floats (n : Nat) := { bytes : Bytes // bytes.length = 4 * n }

namespace GlSampler

/-- The cases of the `switch`, under their names without `GL_`. -/
def calcParameterSize (pname : UInt32) : Nat :=
  let TEXTURE_MIN_FILTER := 0x2801
  let TEXTURE_MAG_FILTER := 0x2800
  let TEXTURE_WRAP_S := 0x2802
  let TEXTURE_WRAP_T := 0x2803
  let TEXTURE_WRAP_R := 0x8072
  let TEXTURE_MIN_LOD := 0x813A
  let TEXTURE_MAX_LOD := 0x813B
  let TEXTURE_COMPARE_MODE := 0x884C
  let TEXTURE_COMPARE_FUNC := 0x884D
  let TEXTURE_BORDER_COLOR := 0x1004
  if pname ∈ [TEXTURE_MIN_FILTER, TEXTURE_MAG_FILTER, TEXTURE_WRAP_S, TEXTURE_WRAP_T,
      TEXTURE_WRAP_R, TEXTURE_MIN_LOD, TEXTURE_MAX_LOD, TEXTURE_COMPARE_MODE,
      TEXTURE_COMPARE_FUNC] then 4
  else if pname = TEXTURE_BORDER_COLOR then 16
  else 0

/-- What is copied of the array. -/
def requestParams (pname : UInt32) (params : Bytes) : Bytes := params.take (calcParameterSize pname)

end GlSampler

/-- The `Create` functions, with what `Init` is given. -/
inductive Creation where
  | virtualObject
  | renderingUnit (virtualObjectId : UInt64)
  | glBaseTechnique (renderingUnitId : UInt64)
  | glVertexArray
  | glBuffer
  | glShader (source : Bytes) (type : UInt32)
  | glProgram
  | glTexture
  | glSampler
  deriving DecidableEq

namespace Creation

def kind : Creation → Kind
  | virtualObject => .virtualObjects
  | renderingUnit _ => .renderingUnits
  | glBaseTechnique _ => .glBaseTechniques
  | glVertexArray => .glVertexArrays
  | glBuffer => .glBuffers
  | glShader _ _ => .glShaders
  | glProgram => .glPrograms
  | glTexture => .glTextures
  | glSampler => .glSamplers

/-- The request of `Init`. -/
def init (id : UInt64) : Creation → Client.Request
  | virtualObject => .virtualObjectNew id
  | renderingUnit virtualObjectId => .renderingUnitNew id virtualObjectId
  | glBaseTechnique renderingUnitId => .glBaseTechniqueNew id renderingUnitId
  | glVertexArray => .glVertexArrayNew id
  | glBuffer => .glBufferNew id
  | glShader source type => .glShaderNew id source type
  | glProgram => .glProgramNew id
  | glTexture => .glTextureNew id
  | glSampler => .glSamplerNew id

/-- The resource that the new one belongs to. -/
def parent : Creation → Option (Kind × UInt64)
  | renderingUnit virtualObjectId => some (.virtualObjects, virtualObjectId)
  | glBaseTechnique renderingUnitId => some (.renderingUnits, renderingUnitId)
  | _ => none

end Creation

/-- The methods of all resource objects. A pointer to data is given by the bytes there. -/
inductive Method where
  | commit
  | move (position : Floats 3) (quaternion : Floats 4)
  | bindProgram (programId : UInt64)
  | bindVertexArray (vertexArrayId : UInt64)
  | bindTexture (binding : UInt32) (name : Bytes) (textureId : UInt64) (target : UInt32)
      (samplerId : UInt64)
  /-- The three methods of this name differ in the type of the components. -/
  | glUniformVector (type : Int32) (location : UInt32) (name : Bytes) (size count : UInt32)
      (value : Bytes)
  | glUniformMatrix (location : UInt32) (name : Bytes) (col row count : UInt32) (transpose : Bool)
      (value : Bytes)
  | glDrawArrays (mode : UInt32) (first : Int32) (count : UInt32)
  | glDrawElements (mode count type : UInt32) (offset elementArrayBufferId : UInt64)
  | glEnableVertexAttribArray (index : UInt32)
  | glDisableVertexAttribArray (index : UInt32)
  | glVertexAttribPointer (index : UInt32) (size : Int32) (type : UInt32) (normalized : Bool)
      (stride : Int32) (offset glBufferId : UInt64)
  | glBufferData (buffer : Bytes) (target : UInt32) (size : UInt64) (usage : UInt32)
  | glAttachShader (shaderId : UInt64)
  | glLinkProgram
  | glTexImage2D (args : Image2D) (buffer : Bytes)
  | glTexSubImage2D (args : SubImage2D) (buffer : Bytes)
  | glGenerateMipmap (target : UInt32)
  | glSamplerParameterf (pname param : UInt32)
  | glSamplerParameteri (pname : UInt32) (param : Int32)
  | glSamplerParameterfv (pname : UInt32) (params : Bytes)
  | glSamplerParameteriv (pname : UInt32) (params : Bytes)
  | glSamplerParameterIiv (pname : UInt32) (params : Bytes)
  | glSamplerParameterIuiv (pname : UInt32) (params : Bytes)
  deriving DecidableEq

namespace Method

/-- The class of the method. -/
def kind : Method → Kind
  | commit | move _ _ => .virtualObjects
  | bindProgram _ | bindVertexArray _ | bindTexture _ _ _ _ _ | glUniformVector _ _ _ _ _ _
  | glUniformMatrix _ _ _ _ _ _ _ | glDrawArrays _ _ _ | glDrawElements _ _ _ _ _ => .glBaseTechniques
  | glEnableVertexAttribArray _ | glDisableVertexAttribArray _
  | glVertexAttribPointer _ _ _ _ _ _ _ => .glVertexArrays
  | glBufferData _ _ _ _ => .glBuffers
  | glAttachShader _ | glLinkProgram => .glPrograms
  | glTexImage2D _ _ | glTexSubImage2D _ _ | glGenerateMipmap _ => .glTextures
  | glSamplerParameterf _ _ | glSamplerParameteri _ _ | glSamplerParameterfv _ _
  | glSamplerParameteriv _ _ | glSamplerParameterIiv _ _ | glSamplerParameterIuiv _ _ => .glSamplers

/-- The request that the job of the method asks for. -/
def request (id : UInt64) : Method → Client.Request
  | commit => .virtualObjectCommit id
  | move position quaternion => .virtualObjectMove id position.val quaternion.val
  | bindProgram programId => .bindProgram id programId
  | bindVertexArray vertexArrayId => .bindVertexArray id vertexArrayId
  | bindTexture binding name textureId target samplerId =>
    .bindTexture id binding name textureId target samplerId
  | glUniformVector type location name size count value =>
    .glUniform id (GlBaseTechnique.glUniformVector type location name size count value)
  | glUniformMatrix location name col row count transpose value =>
    .glUniform id (GlBaseTechnique.glUniformMatrix location name col row count transpose value)
  | glDrawArrays mode first count => .glDrawArrays id mode first count
  | glDrawElements mode count type offset elementArrayBufferId =>
    .glDrawElements id mode count type offset elementArrayBufferId
  | glEnableVertexAttribArray index => .glEnableVertexAttribArray id index
  | glDisableVertexAttribArray index => .glDisableVertexAttribArray id index
  | glVertexAttribPointer index size type normalized stride offset glBufferId =>
    .glVertexAttribPointer id index size type normalized stride offset glBufferId
  | glBufferData buffer target size usage => .glBufferData id (buffer.take size.toNat) target usage
  | glAttachShader shaderId => .glAttachShader id shaderId
  | glLinkProgram => .glLinkProgram id
  | glTexImage2D args buffer => .glTexImage2D id args (GlTexture.glTexImage2D args buffer)
  | glTexSubImage2D args buffer => .glTexSubImage2D id args (GlTexture.glTexSubImage2D args buffer)
  | glGenerateMipmap target => .glGenerateMipmap id target
  | glSamplerParameterf pname param => .glSamplerParameterf id pname param
  | glSamplerParameteri pname param => .glSamplerParameteri id pname param
  | glSamplerParameterfv pname params =>
    .glSamplerParameterfv id pname (GlSampler.requestParams pname params)
  | glSamplerParameteriv pname params =>
    .glSamplerParameteriv id pname (GlSampler.requestParams pname params)
  | glSamplerParameterIiv pname params =>
    .glSamplerParameterIiv id pname (GlSampler.requestParams pname params)
  | glSamplerParameterIuiv pname params =>
    .glSamplerParameterIuiv id pname (GlSampler.requestParams pname params)

end Method

/-- The request of the destructor. -/
def deleteRequest (id : UInt64) : Kind → Client.Request
  | .virtualObjects => .virtualObjectDelete id
  | .renderingUnits => .renderingUnitDelete id
  | .glBuffers => .glBufferDelete id
  | .glShaders => .glShaderDelete id
  | .glPrograms => .glProgramDelete id
  | .glTextures => .glTextureDelete id
  | .glSamplers => .glSamplerDelete id
  | .glVertexArrays => .glVertexArrayDelete id
  | .glBaseTechniques => .glBaseTechniqueDelete id

/-- The lifetimes of resources, as far as requests tell. -/
def lifetimes : Lifetimes Client.Request (Kind × UInt64) where
  creates := Client.Request.creates
  uses := Client.Request.target
  deletes := Client.Request.deletes

section Requests

variable (id : UInt64) (k : Kind) (c : Creation) (m : Method)

@[simp] theorem creates_init : lifetimes.creates (c.init id) = some (c.kind, id) := by
  cases c <;> rfl

@[simp] theorem uses_init : lifetimes.uses (c.init id) = c.parent := by
  cases c <;> rfl

@[simp] theorem deletes_init : lifetimes.deletes (c.init id) = none := by
  cases c <;> rfl

@[simp] theorem creates_request : lifetimes.creates (m.request id) = none := by
  cases m <;> rfl

/-- A method names the object that it is called on. -/
@[simp] theorem uses_request : lifetimes.uses (m.request id) = some (m.kind, id) := by
  cases m <;> rfl

@[simp] theorem deletes_request : lifetimes.deletes (m.request id) = none := by
  cases m <;> rfl

@[simp] theorem creates_deleteRequest : lifetimes.creates (deleteRequest id k) = none := by
  cases k <;> rfl

@[simp] theorem uses_deleteRequest : lifetimes.uses (deleteRequest id k) = none := by
  cases k <;> rfl

@[simp] theorem deletes_deleteRequest : lifetimes.deletes (deleteRequest id k) = some (k, id) := by
  cases k <;> rfl

theorem fieldsFit_init : (c.init id).FieldsFit := by
  cases c <;> trivial

theorem fieldsFit_request : (m.request id).FieldsFit := by
  cases m with
  | move position quaternion => exact ⟨position.property.ge, quaternion.property.ge⟩
  | _ => trivial

theorem fieldsFit_deleteRequest : (deleteRequest id k).FieldsFit := by
  cases k <;> trivial

end Requests

end ZenRemote.Server
