-- SUMMARY: The GL calls of closures and of rendering, what a driver answers, and the rendering thread in a closure.
import Mathlib.Init

/-!
# GL as the rendering thread sees it

A driver answers each call, in any way that may depend on the calls before it.
Nothing is assumed of the answers here.
-/

namespace ZenRemote.Client

/-- `std::string`, and the contents of a block. -/
abbrev Bytes := List UInt8

abbrev GLuint := UInt32

/-- The names of `glGet*iv` that are used. -/
inductive Query where
  /-- `GL_COMPILE_STATUS`. -/
  | compileStatus
  /-- `GL_LINK_STATUS`. -/
  | linkStatus
  /-- `GL_INFO_LOG_LENGTH`. -/
  | infoLogLength
  deriving DecidableEq, Repr

structure Image2D where
  target : UInt32
  level : Int32
  internalFormat : Int32
  width : UInt32
  height : UInt32
  border : Int32
  format : UInt32
  type : UInt32
  deriving DecidableEq, Repr

structure SubImage2D where
  target : UInt32
  level : Int32
  xoffset : Int32
  yoffset : Int32
  width : UInt32
  height : UInt32
  format : UInt32
  type : UInt32
  deriving DecidableEq, Repr

inductive GlCall where
  | createShader (type : UInt32)
  | shaderSource (shader : GLuint) (source : Bytes)
  | compileShader (shader : GLuint)
  | getShaderiv (shader : GLuint) (pname : Query)
  | getShaderInfoLog (shader : GLuint) (length : Int32)
  | deleteShader (shader : GLuint)
  | createProgram
  | attachShader (program shader : GLuint)
  | linkProgram (program : GLuint)
  | getProgramiv (program : GLuint) (pname : Query)
  | getProgramInfoLog (program : GLuint) (length : Int32)
  | deleteProgram (program : GLuint)
  | getUniformLocation (program : GLuint) (name : Bytes)
  | genBuffers
  | bindBuffer (target : UInt32) (buffer : GLuint)
  | bufferData (target : UInt32) (size : Nat) (data : Bytes) (usage : UInt32)
  | deleteBuffers (buffer : GLuint)
  | genVertexArrays
  | bindVertexArray (array : GLuint)
  | enableVertexAttribArray (index : UInt32)
  | disableVertexAttribArray (index : UInt32)
  | vertexAttribPointer (index : UInt32) (size : Int32) (type : UInt32) (normalized : Bool)
      (stride : Int32) (offset : UInt64)
  | deleteVertexArrays (array : GLuint)
  | genTextures
  | bindTexture (target : UInt32) (texture : GLuint)
  | texImage2D (args : Image2D) (data : Bytes)
  | texSubImage2D (args : SubImage2D) (data : Bytes)
  | generateMipmap (target : UInt32)
  | deleteTextures (texture : GLuint)
  | genSamplers
  | samplerParameterf (sampler : GLuint) (pname : UInt32) (param : UInt32)
  | samplerParameteri (sampler : GLuint) (pname : UInt32) (param : Int32)
  | samplerParameterfv (sampler : GLuint) (pname : UInt32) (params : Bytes)
  | samplerParameteriv (sampler : GLuint) (pname : UInt32) (params : Bytes)
  | samplerParameterIiv (sampler : GLuint) (pname : UInt32) (params : Bytes)
  | samplerParameterIuiv (sampler : GLuint) (pname : UInt32) (params : Bytes)
  | deleteSamplers (sampler : GLuint)
  | useProgram (program : GLuint)
  | uniform1i (location : Int32) (value : UInt32)
  /-- `glUniform1iv` to `glUniform4fv`, by the type and the number of components. -/
  | uniformVector (type : Int32) (row location count : UInt32) (data : Bytes)
  | uniformMatrix4fv (location : Int32) (value : Bytes)
  /-- The function at `[col - 2][row - 2]` of a table. -/
  | uniformMatrix (col row location count : UInt32) (transpose : Bool) (data : Bytes)
  | activeTexture (texture : UInt32)
  | bindSampler (unit : UInt32) (sampler : GLuint)
  | drawArrays (mode : UInt32) (first count : Int32)
  | drawElements (mode count type : UInt32) (offset : UInt64)
  deriving DecidableEq, Repr

/-- The answers of a driver to a call, from the calls before it. -/
structure Driver where
  /-- The name that `glCreate*` or `glGen*` gives. -/
  name : List GlCall → GlCall → GLuint
  /-- The value that `glGet*iv` or `glGetUniformLocation` gives. -/
  value : List GlCall → GlCall → Int32

/-- The driver that answers every call with 1. -/
def constantDriver : Driver := ⟨fun _ _ => 1, fun _ _ => 1⟩

/-- The rendering thread in a closure that has captured the rendering state of a
resource: the GL calls so far, and what has been assigned to that state. -/
structure Thread (ρ : Type) where
  calls : List GlCall
  rendering : ρ
  writes : List ρ := []

namespace Thread

variable {ρ : Type}

def issue (t : Thread ρ) (c : GlCall) : Thread ρ := { t with calls := t.calls ++ [c] }

def issueAll (t : Thread ρ) (cs : List GlCall) : Thread ρ := { t with calls := t.calls ++ cs }

def assign (t : Thread ρ) (f : ρ → ρ) : Thread ρ :=
  { t with rendering := f t.rendering, writes := t.writes ++ [f t.rendering] }

variable (t : Thread ρ)

@[simp] theorem calls_issue (c : GlCall) : (t.issue c).calls = t.calls ++ [c] := rfl

@[simp] theorem calls_issueAll (cs : List GlCall) : (t.issueAll cs).calls = t.calls ++ cs := rfl

@[simp] theorem calls_assign (f : ρ → ρ) : (t.assign f).calls = t.calls := rfl

end Thread

end ZenRemote.Client
