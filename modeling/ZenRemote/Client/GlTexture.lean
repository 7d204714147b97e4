-- SUMMARY: The client's textures and samplers: lists of pending calls that the closure of a commit replays.
import ZenRemote.Client.Gl

/-!
# Textures and samplers

Both keep the calls since the last commit. A texture has a single slot for the
target of `glGenerateMipmap`, which is replayed last.
-/

namespace ZenRemote.Client

/-- A `GlTexture`, with its pending state. -/
structure GlTexture where
  id : UInt64
  dataCommands : List (Sum Image2D SubImage2D × Bytes) := []
  generateMipmapTarget : UInt32 := 0
  deriving DecidableEq

namespace GlTexture

structure RenderingState where
  textureId : GLuint := 0
  deriving DecidableEq, Repr

inductive Command where
  | replay (dataCommands : List (Sum Image2D SubImage2D × Bytes)) (generateMipmapTarget : UInt32)
  | delete
  deriving DecidableEq

def glTexImage2D (t : GlTexture) (args : Image2D) (data : Bytes) : GlTexture :=
  { t with dataCommands := t.dataCommands ++ [(.inl args, data)] }

def glTexSubImage2D (t : GlTexture) (args : SubImage2D) (data : Bytes) : GlTexture :=
  { t with dataCommands := t.dataCommands ++ [(.inr args, data)] }

def glGenerateMipmap (t : GlTexture) (target : UInt32) : GlTexture :=
  { t with generateMipmapTarget := target }

/-- Nothing to commit. -/
def Clean (t : GlTexture) : Prop := t.dataCommands = [] ∧ t.generateMipmapTarget = 0

instance (t : GlTexture) : Decidable t.Clean := inferInstanceAs (Decidable (_ ∧ _))

def commitCommands (t : GlTexture) : List Command :=
  if t.Clean then [] else [.replay t.dataCommands t.generateMipmapTarget]

/-- The pending state after `Commit`. -/
def committed (t : GlTexture) : GlTexture :=
  if t.Clean then t else { t with dataCommands := [], generateMipmapTarget := 0 }

def dataCalls (textureId : GLuint) : Sum Image2D SubImage2D × Bytes → List GlCall
  | (.inl args, data) =>
    [.bindTexture args.target textureId, .texImage2D args data, .bindTexture args.target 0]
  | (.inr args, data) =>
    [.bindTexture args.target textureId, .texSubImage2D args data, .bindTexture args.target 0]

namespace Command

variable (gl : Driver)

def execute (t : Thread RenderingState) : Command → Thread RenderingState
  | .replay dataCommands target =>
    let t := if t.rendering.textureId = 0 then
        (t.issue .genTextures).assign fun r =>
          { r with textureId := gl.name t.calls .genTextures }
      else t
    let textureId := t.rendering.textureId
    let t := t.issueAll (dataCommands.flatMap (dataCalls textureId))
    if target = 0 then t
    else t.issueAll [.bindTexture target textureId, .generateMipmap target, .bindTexture target 0]
  | .delete =>
    if t.rendering.textureId = 0 then t else t.issue (.deleteTextures t.rendering.textureId)

end Command

@[simp] theorem clean_committed (t : GlTexture) : t.committed.Clean := by
  unfold committed
  split
  · assumption
  · exact ⟨rfl, rfl⟩

end GlTexture

inductive ParameterType where
  | f
  | i
  | fv
  | iv
  | Iiv
  | Iuiv
  deriving DecidableEq, Repr

/-- A call of a `glSamplerParameter` function. A float is given by its bits. -/
structure ParameterCommand where
  type : ParameterType
  pname : UInt32
  floatParam : UInt32
  intParam : Int32
  vectorParam : Bytes
  deriving DecidableEq, Repr

/-- A `GlSampler`, with its pending state. -/
structure GlSampler where
  id : UInt64
  parameterCommands : List ParameterCommand := []
  deriving DecidableEq, Repr

namespace GlSampler

structure RenderingState where
  samplerId : GLuint := 0
  deriving DecidableEq, Repr

inductive Command where
  | gen
  | parameters (parameterCommands : List ParameterCommand)
  | delete
  deriving DecidableEq, Repr

def emplaceBack (s : GlSampler) (c : ParameterCommand) : GlSampler :=
  { s with parameterCommands := s.parameterCommands ++ [c] }

def parameterf (s : GlSampler) (pname param : UInt32) : GlSampler :=
  s.emplaceBack ⟨.f, pname, param, 0, []⟩

def parameteri (s : GlSampler) (pname : UInt32) (param : Int32) : GlSampler :=
  s.emplaceBack ⟨.i, pname, 0, param, []⟩

def parameterfv (s : GlSampler) (pname : UInt32) (params : Bytes) : GlSampler :=
  s.emplaceBack ⟨.fv, pname, 0, 0, params⟩

def parameteriv (s : GlSampler) (pname : UInt32) (params : Bytes) : GlSampler :=
  s.emplaceBack ⟨.iv, pname, 0, 0, params⟩

def parameterIiv (s : GlSampler) (pname : UInt32) (params : Bytes) : GlSampler :=
  s.emplaceBack ⟨.Iiv, pname, 0, 0, params⟩

def parameterIuiv (s : GlSampler) (pname : UInt32) (params : Bytes) : GlSampler :=
  s.emplaceBack ⟨.Iuiv, pname, 0, 0, params⟩

def commitCommands (s : GlSampler) : List Command :=
  .gen :: if s.parameterCommands = [] then [] else [.parameters s.parameterCommands]

/-- The pending state after `Commit`. -/
def committed (s : GlSampler) : GlSampler := { s with parameterCommands := [] }

def parameterCall (samplerId : GLuint) (c : ParameterCommand) : GlCall :=
  match c.type with
  | .f => .samplerParameterf samplerId c.pname c.floatParam
  | .i => .samplerParameteri samplerId c.pname c.intParam
  | .fv => .samplerParameterfv samplerId c.pname c.vectorParam
  | .iv => .samplerParameteriv samplerId c.pname c.vectorParam
  | .Iiv => .samplerParameterIiv samplerId c.pname c.vectorParam
  | .Iuiv => .samplerParameterIuiv samplerId c.pname c.vectorParam

namespace Command

variable (gl : Driver)

def execute (t : Thread RenderingState) : Command → Thread RenderingState
  | .gen =>
    if t.rendering.samplerId = 0 then
      (t.issue .genSamplers).assign fun r => { r with samplerId := gl.name t.calls .genSamplers }
    else t
  | .parameters cs => t.issueAll (cs.map (parameterCall t.rendering.samplerId))
  | .delete =>
    if t.rendering.samplerId = 0 then t else t.issue (.deleteSamplers t.rendering.samplerId)

end Command

end GlSampler

end ZenRemote.Client
