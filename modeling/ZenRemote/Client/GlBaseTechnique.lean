-- SUMMARY: The client's techniques: bindings and draw arguments with damage flags, and the closures that copy them.
import ZenRemote.Client.Gl
import ZenRemote.Lib.AssocList
import ZenRemote.Lib.Heap

/-!
# Techniques

A technique refers weakly to all that it draws with. Each of four damage flags
decides whether a commit pushes a closure that copies a part of the pending state
to the rendering state; the uniform variables go by what is in their list.
-/

namespace ZenRemote.Client

inductive DrawMethod where
  | none
  | arrays
  | elements
  deriving DecidableEq, Repr

/-- The union; a technique starts with indeterminate arguments. -/
inductive DrawArgs where
  | indeterminate
  | arrays (mode : UInt32) (count first : Int32)
  | elements (mode count type : UInt32) (offset : UInt64)
  deriving DecidableEq, Repr

/-- `type` is the number of a `UniformVariableType`. -/
structure UniformVariable where
  location : UInt32 := 0
  name : Bytes := []
  type : Int32 := 0
  col : UInt32 := 0
  row : UInt32 := 0
  count : UInt32 := 0
  transpose : Bool := false
  value : Bytes := []
  deriving DecidableEq, Repr

structure TextureBinding where
  name : Bytes
  texture : WeakPtr
  sampler : WeakPtr
  target : UInt32
  deriving DecidableEq, Repr

/-- A `GlBaseTechnique`, with its pending state. -/
structure GlBaseTechnique where
  id : UInt64
  drawArgs : DrawArgs := .indeterminate
  drawMethod : DrawMethod := .none
  elementArrayBuffer : WeakPtr := none
  drawMethodDamaged : Bool := false
  vertexArray : WeakPtr := none
  vertexArrayDamaged : Bool := false
  /-- The value is preserved after a commit. -/
  program : WeakPtr := none
  programDamaged : Bool := false
  textureBindings : AList fun _ : UInt32 => TextureBinding := ∅
  textureDamaged : Bool := false
  uniformVariables : List UniformVariable := []

namespace GlBaseTechnique

structure RenderingState where
  drawArgs : DrawArgs := .indeterminate
  drawMethod : DrawMethod := .none
  elementArrayBuffer : WeakPtr := none
  vertexArray : WeakPtr := none
  program : WeakPtr := none
  textureBindings : AList fun _ : UInt32 => TextureBinding := ∅
  uniformVariables : AList fun _ : UInt32 => UniformVariable := ∅

inductive Command where
  | drawMethod (args : DrawArgs) (method : DrawMethod) (elementArrayBuffer : WeakPtr)
  | program (program : WeakPtr)
  | vertexArray (vertexArray : WeakPtr)
  | textures (textureBindings : AList fun _ : UInt32 => TextureBinding)
  | uniforms (uniformVariables : List UniformVariable)
  | delete

def bindProgram (t : GlBaseTechnique) (program : WeakPtr) : GlBaseTechnique :=
  { t with program := program, programDamaged := true }

def bindVertexArray (t : GlBaseTechnique) (vertexArray : WeakPtr) : GlBaseTechnique :=
  { t with vertexArray := vertexArray, vertexArrayDamaged := true }

def bindTexture (t : GlBaseTechnique) (binding : UInt32) (name : Bytes) (texture : WeakPtr)
    (target : UInt32) (sampler : WeakPtr) : GlBaseTechnique :=
  { t with
    textureBindings := t.textureBindings.insert binding ⟨name, texture, sampler, target⟩
    textureDamaged := true }

def glDrawArrays (t : GlBaseTechnique) (mode : UInt32) (first : Int32) (count : UInt32) :
    GlBaseTechnique :=
  { t with
    drawMethod := .arrays
    drawArgs := .arrays mode count.toInt32 first
    drawMethodDamaged := true }

def glDrawElements (t : GlBaseTechnique) (mode count type : UInt32) (offset : UInt64)
    (elementArrayBuffer : WeakPtr) : GlBaseTechnique :=
  { t with
    drawMethod := .elements
    drawArgs := .elements mode count type offset
    elementArrayBuffer := elementArrayBuffer
    drawMethodDamaged := true }

def glUniform (t : GlBaseTechnique) (u : UniformVariable) : GlBaseTechnique :=
  if 0 < u.col ∧ u.col ≤ 4 ∧ 0 < u.row ∧ u.row ≤ 4 then
    { t with uniformVariables := t.uniformVariables ++ [u] }
  else t

/-- The closures that `Commit` pushes after those of what the technique refers to. -/
def commitCommands (t : GlBaseTechnique) (expired : WeakPtr → Bool) : List Command :=
  (if t.drawMethodDamaged then [.drawMethod t.drawArgs t.drawMethod t.elementArrayBuffer] else []) ++
  (if t.programDamaged then [.program t.program] else []) ++
  (if t.vertexArrayDamaged then [.vertexArray t.vertexArray] else []) ++
  (if t.textureDamaged then [.textures t.textureBindings] else []) ++
  (if !expired t.program && t.uniformVariables ≠ [] then [.uniforms t.uniformVariables] else [])

/-- The pending state after `Commit`. -/
def committed (t : GlBaseTechnique) (expired : WeakPtr → Bool) : GlBaseTechnique :=
  { t with
    drawMethodDamaged := false
    programDamaged := false
    vertexArrayDamaged := false
    textureDamaged := false
    uniformVariables := if expired t.program then t.uniformVariables else [] }

namespace Command

variable (gl : Driver)

/-- An iteration of the loop over the captured variables. -/
def setUniform (programId : GLuint) (t : Thread RenderingState) (u : UniformVariable) :
    Thread RenderingState :=
  let location := if u.name = [] then u.location.toInt32
    else gl.value t.calls (.getUniformLocation programId u.name)
  let t := if u.name = [] then t else t.issue (.getUniformLocation programId u.name)
  if location < 0 then t
  else t.assign fun r =>
    let key := location.toUInt32
    -- the name of an entry stays empty
    let entry := (r.uniformVariables.lookup key).getD { location := key }
    { r with uniformVariables := r.uniformVariables.insert key { entry with
        type := u.type, col := u.col, row := u.row, count := u.count, transpose := u.transpose
        value := u.value } }

/-- `lockProgram` gives `program_id()` of a program that is alive. -/
def execute (lockProgram : WeakPtr → Option GLuint) (t : Thread RenderingState) :
    Command → Thread RenderingState
  | .drawMethod args method buffer =>
    ((t.assign fun r => { r with drawArgs := args }).assign
      fun r => { r with drawMethod := method }).assign
      fun r => { r with elementArrayBuffer := buffer }
  | .program p => t.assign fun r => { r with program := p }
  | .vertexArray v => t.assign fun r => { r with vertexArray := v }
  | .textures bindings => t.assign fun r => { r with textureBindings := bindings }
  | .uniforms us =>
    match lockProgram t.rendering.program with
    | none => t
    | some programId => if programId = 0 then t else us.foldl (setUniform gl programId) t
  | .delete => t

end Command

end GlBaseTechnique

end ZenRemote.Client
