-- SUMMARY: The client's shaders and programs: compilation on the first commit, linking on request.
import ZenRemote.Client.Gl
import ZenRemote.Lib.Heap

/-!
# Shaders and programs

A shader is compiled by the closure of its first commit. A program collects the
shaders that are attached; the closure that links it holds them weakly.
-/

namespace ZenRemote.Client

structure GlShader where
  id : UInt64
  /-- Moved into the closure of the first commit. -/
  source : Bytes
  type : UInt32
  committed : Bool := false
  deriving DecidableEq, Repr

namespace GlShader

structure RenderingState where
  shaderId : GLuint := 0
  deriving DecidableEq, Repr

inductive Command where
  | compile (type : UInt32) (source : Bytes)
  | delete
  deriving DecidableEq, Repr

def commitCommands (s : GlShader) : List Command :=
  if s.committed then [] else [.compile s.type s.source]

/-- The state after `Commit`. -/
def commit (s : GlShader) : GlShader := { s with committed := true }

namespace Command

variable (gl : Driver)

def execute (t : Thread RenderingState) : Command → Thread RenderingState
  | .compile type source =>
    if t.rendering.shaderId ≠ 0 then t else
    let shaderId := gl.name t.calls (.createShader type)
    let t := t.issueAll [.createShader type, .shaderSource shaderId source, .compileShader shaderId]
    let compiled := gl.value t.calls (.getShaderiv shaderId .compileStatus)
    let t := t.issue (.getShaderiv shaderId .compileStatus)
    if compiled ≠ 1 then
      let logLength := gl.value t.calls (.getShaderiv shaderId .infoLogLength)
      t.issueAll [.getShaderiv shaderId .infoLogLength, .getShaderInfoLog shaderId logLength]
    else t.assign fun r => { r with shaderId := shaderId }
  | .delete =>
    if t.rendering.shaderId = 0 then t else t.issue (.deleteShader t.rendering.shaderId)

end Command

end GlShader

/-- A `GlProgram`, with its pending state. -/
structure GlProgram where
  id : UInt64
  /-- Empty after linking. -/
  glShaders : List WeakPtr := []
  shouldLink : Bool := false
  deriving DecidableEq, Repr

namespace GlProgram

structure RenderingState where
  programId : GLuint := 0
  deriving DecidableEq, Repr

inductive Command where
  | link (glShaders : List WeakPtr)
  | delete
  deriving DecidableEq, Repr

def glAttachShader (p : GlProgram) (glShader : WeakPtr) : GlProgram :=
  { p with glShaders := p.glShaders ++ [glShader] }

def glLinkProgram (p : GlProgram) : GlProgram := { p with shouldLink := true }

def commitCommands (p : GlProgram) : List Command :=
  if p.shouldLink then [.link p.glShaders] else []

/-- The pending state after `Commit`. -/
def committed (p : GlProgram) : GlProgram :=
  if p.shouldLink then { p with glShaders := [], shouldLink := false } else p

namespace Command

variable (gl : Driver)

/-- `lockShader` gives `shader_id()` of a shader that is alive. -/
def execute (lockShader : WeakPtr → Option GLuint) (t : Thread RenderingState) :
    Command → Thread RenderingState
  | .link glShaders =>
    if t.rendering.programId ≠ 0 then t else
    let programId := gl.name t.calls .createProgram
    let t := t.issue .createProgram
    let t := t.issueAll ((glShaders.filterMap lockShader).map (.attachShader programId))
    let t := t.issue (.linkProgram programId)
    let linked := gl.value t.calls (.getProgramiv programId .linkStatus)
    let t := t.issue (.getProgramiv programId .linkStatus)
    if linked ≠ 1 then
      let logLength := gl.value t.calls (.getProgramiv programId .infoLogLength)
      t.issueAll [.getProgramiv programId .infoLogLength, .getProgramInfoLog programId logLength]
    else t.assign fun r => { r with programId := programId }
  | .delete =>
    if t.rendering.programId = 0 then t else t.issue (.deleteProgram t.rendering.programId)

end Command

@[simp] theorem shouldLink_committed (p : GlProgram) : p.committed.shouldLink = false := by
  unfold committed
  split
  · rfl
  · rename_i hlink
    exact Bool.eq_false_iff.mpr hlink

end GlProgram

end ZenRemote.Client
