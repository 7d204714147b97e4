-- SUMMARY: What the rendering thread draws: the GL calls for a rendering unit and its technique.
import ZenRemote.Client.ResourcePool

/-!
# Rendering

A virtual object renders its units, and a unit its technique. A technique locks all that it
draws with, and draws nothing unless its vertex array and a program that is linked are there.
A texture binding is used when both its texture and its sampler are there, and forgotten
otherwise.
-/

namespace ZenRemote.Client

/-- The matrices for the camera and the pose of a virtual object. -/
structure Matrices where
  model : Bytes
  view : Bytes
  projection : Bytes
  vp : Bytes
  mvp : Bytes
  deriving DecidableEq, Repr

namespace GlBaseTechnique

/-- What a technique locks while it renders, each with its name. -/
structure Locks where
  vertexArray : WeakPtr → Option GLuint
  program : WeakPtr → Option GLuint
  elementArrayBuffer : WeakPtr → Option GLuint
  texture : WeakPtr → Option GLuint
  sampler : WeakPtr → Option GLuint

variable (gl : Driver)

/-- `"zModel"` and so on. -/
def uniformName (name : String) : Bytes := name.toList.map fun c => UInt8.ofNat c.toNat

def uniformBuiltIn (programId : GLuint) (t : Thread RenderingState) (u : String × Bytes) :
    Thread RenderingState :=
  let location := gl.value t.calls (.getUniformLocation programId (uniformName u.1))
  t.issueAll [.getUniformLocation programId (uniformName u.1), .uniformMatrix4fv location u.2]

def uniformCalls (location : UInt32) (u : UniformVariable) : List GlCall :=
  if u.col = 1 then
    if u.type ∈ [0, 1, 2] ∧ u.row ∈ [1, 2, 3, 4] then
      [.uniformVector u.type u.row location u.count u.value]
    else []
  else [.uniformMatrix u.col u.row u.location u.count u.transpose u.value]

def applyUniformVariables (m : Matrices) (programId : GLuint) (t : Thread RenderingState) :
    Thread RenderingState :=
  let builtIn := [("zModel", m.model), ("zView", m.view), ("zProjection", m.projection),
    ("zVP", m.vp), ("zMVP", m.mvp)]
  let t := builtIn.foldl (uniformBuiltIn gl programId) t
  t.issueAll (t.rendering.uniformVariables.entries.flatMap fun e => uniformCalls e.1 e.2)

/-- An iteration of the loop over the texture bindings. `GL_TEXTURE0` is `0x84C0`. -/
def setupTexture (locks : Locks) (programId : GLuint) (t : Thread RenderingState)
    (e : Σ _ : UInt32, TextureBinding) : Thread RenderingState :=
  match locks.texture e.2.texture, locks.sampler e.2.sampler with
  | some textureId, some samplerId =>
    let location := gl.value t.calls (.getUniformLocation programId e.2.name)
    let t := if e.2.name = [] then t
      else t.issueAll [.getUniformLocation programId e.2.name, .uniform1i location e.1]
    t.issueAll [.activeTexture (0x84C0 + e.1), .bindTexture e.2.target textureId,
      .bindSampler e.1 samplerId]
  | _, _ => t.assign fun r => { r with textureBindings := r.textureBindings.erase e.1 }

def setupTextures (locks : Locks) (programId : GLuint) (t : Thread RenderingState) :
    Thread RenderingState :=
  t.rendering.textureBindings.entries.foldl (setupTexture gl locks programId) t

/-- `GL_ELEMENT_ARRAY_BUFFER` is `0x8893`. -/
def drawCalls (elementArrayBuffer : Option GLuint) (r : RenderingState) : List GlCall :=
  match r.drawMethod, r.drawArgs, elementArrayBuffer with
  | .arrays, .arrays mode count first, _ => [.drawArrays mode first count]
  | .elements, .elements mode count type offset, some bufferId =>
    [.bindBuffer 0x8893 bufferId, .drawElements mode count type offset, .bindBuffer 0x8893 0]
  | _, _, _ => []

def render (locks : Locks) (m : Matrices) (t : Thread RenderingState) : Thread RenderingState :=
  let r := t.rendering
  if r.drawMethod = .none then t else
  match locks.vertexArray r.vertexArray, locks.program r.program with
  | some vertexArrayId, some programId =>
    if vertexArrayId = 0 ∨ programId = 0 then t else
    let elementArrayBuffer := locks.elementArrayBuffer r.elementArrayBuffer
    if r.drawMethod = .elements ∧ elementArrayBuffer = none then t else
    let t := t.issue (.useProgram programId)
    let t := setupTextures gl locks programId (applyUniformVariables gl m programId t)
    let t := t.issue (.bindVertexArray vertexArrayId)
    let t := t.issueAll (drawCalls elementArrayBuffer r)
    t.issueAll [.activeTexture 0x84C0, .useProgram 0, .bindVertexArray 0]
  | _, _ => t

-- ---------------------------------------------------------------------------
-- What rendering does to a technique and to its uniform variables
-- ---------------------------------------------------------------------------

variable {gl} {locks : Locks} {m : Matrices} {programId : GLuint} {t : Thread RenderingState}

/-- All that is checked before something is drawn with a program. -/
structure Draws (locks : Locks) (r : RenderingState) (programId : GLuint) : Prop where
  method : r.drawMethod ≠ .none
  vertexArray : ∃ v, locks.vertexArray r.vertexArray = some v ∧ v ≠ 0
  program : locks.program r.program = some programId
  linked : programId ≠ 0
  elementArrayBuffer : r.drawMethod = .elements → locks.elementArrayBuffer r.elementArrayBuffer ≠ none

/-- A thread that draws: what follows `glUseProgram`, and what `glBindVertexArray`. -/
theorem render_cases (gl : Driver) (locks : Locks) (m : Matrices) (t : Thread RenderingState) :
    ((∀ programId, ¬ Draws locks t.rendering programId) ∧ render gl locks m t = t) ∨
    ∃ programId vertexArrayId, Draws locks t.rendering programId ∧
      render gl locks m t = (setupTextures gl locks programId (applyUniformVariables gl m programId
          (t.issue (.useProgram programId)))).issueAll ([.bindVertexArray vertexArrayId] ++
        drawCalls (locks.elementArrayBuffer t.rendering.elementArrayBuffer) t.rendering ++
        [.activeTexture 0x84C0, .useProgram 0, .bindVertexArray 0]) := by
  unfold render
  dsimp only
  split
  · rename_i hmethod
    exact .inl ⟨fun _ hdraws => hdraws.method hmethod, rfl⟩
  rename_i hmethod
  split
  · rename_i vertexArrayId programId hvertexArray hprogram
    have hsame : ∀ programId', Draws locks t.rendering programId' → programId' = programId :=
      fun _ hdraws => Option.some.inj (hdraws.program.symm.trans hprogram)
    split
    · rename_i hzero
      refine .inl ⟨fun programId' hdraws => ?_, rfl⟩
      rcases hzero with hzero | hzero
      · obtain ⟨v, hv, hne⟩ := hdraws.vertexArray
        exact hne (Option.some.inj (hv.symm.trans hvertexArray) ▸ hzero)
      · exact hdraws.linked (hsame _ hdraws ▸ hzero)
    rename_i hnames
    push Not at hnames
    split
    · rename_i hbuffer
      exact .inl ⟨fun _ hdraws => hdraws.elementArrayBuffer hbuffer.1 hbuffer.2, rfl⟩
    rename_i hbuffer
    refine .inr ⟨programId, vertexArrayId, ⟨hmethod, ⟨_, hvertexArray, hnames.1⟩, hprogram, hnames.2,
      fun helements hnone => hbuffer ⟨helements, hnone⟩⟩, ?_⟩
    simp only [Thread.issue, Thread.issueAll, List.append_assoc]
  · rename_i hnone
    refine .inl ⟨fun programId' hdraws => ?_, rfl⟩
    obtain ⟨v, hv, -⟩ := hdraws.vertexArray
    exact hnone _ _ hv hdraws.program

/-- `glUniform*v` from a table, by a vector or by a matrix. -/
def isUniformUpload : GlCall → Bool
  | .uniformVector _ _ _ _ _ => true
  | .uniformMatrix _ _ _ _ _ _ => true
  | _ => false

/-- The uploads of uniform variables so far. -/
def uploads (t : Thread RenderingState) : List GlCall := t.calls.filter isUniformUpload

@[simp] theorem uploads_issueAll (cs : List GlCall) :
    uploads (t.issueAll cs) = uploads t ++ cs.filter isUniformUpload :=
  List.filter_append ..

@[simp] theorem uploads_issue (c : GlCall) :
    uploads (t.issue c) = uploads t ++ [c].filter isUniformUpload :=
  List.filter_append ..

theorem filter_uniformCalls (location : UInt32) (u : UniformVariable) :
    (uniformCalls location u).filter isUniformUpload = uniformCalls location u := by
  unfold uniformCalls
  split
  · split
    · rfl
    · rfl
  · rfl

theorem filter_drawCalls (elementArrayBuffer : Option GLuint) (r : RenderingState) :
    (drawCalls elementArrayBuffer r).filter isUniformUpload = [] := by
  unfold drawCalls
  split
  · rfl
  · rfl
  · rfl

theorem uploads_applyUniformVariables : uploads (applyUniformVariables gl m programId t) =
    uploads t ++ t.rendering.uniformVariables.entries.flatMap fun e => uniformCalls e.1 e.2 := by
  have hbuiltIn : ∀ (t : Thread RenderingState) (u : String × Bytes),
      uploads (uniformBuiltIn gl programId t u) = uploads t :=
    fun t u => (uploads_issueAll _).trans (List.append_nil _)
  rw [applyUniformVariables, uploads_issueAll, List.filter_flatMap]
  congr 1
  · simp only [List.foldl_cons, List.foldl_nil, hbuiltIn]
  · exact List.flatMap_congr fun e _ => filter_uniformCalls e.1 e.2

/-- What each iteration keeps, the loop over the texture bindings keeps. -/
theorem setupTextures_invariant {I : Thread RenderingState → Prop} (ht : I t)
    (hstep : ∀ t', I t' → ∀ e ∈ t.rendering.textureBindings.entries, I (setupTexture gl locks programId t' e)) :
    I (setupTextures gl locks programId t) :=
  List.foldlRecOn _ _ ht hstep

theorem uploads_setupTexture (e : Σ _ : UInt32, TextureBinding) :
    uploads (setupTexture gl locks programId t e) = uploads t := by
  rw [setupTexture]
  split
  · rw [uploads_issueAll]
    split
    · exact List.append_nil _
    · rw [uploads_issueAll]
      exact (List.append_nil _).trans (List.append_nil _)
  · rfl

theorem uploads_setupTextures : uploads (setupTextures gl locks programId t) = uploads t :=
  setupTextures_invariant (I := fun t' => uploads t' = uploads t) rfl
    fun _ ht' e _ => (uploads_setupTexture e).trans ht'

/-- Drawing uploads each uniform variable of the technique, and nothing else does. -/
theorem uploads_render (hdraws : Draws locks t.rendering programId) :
    uploads (render gl locks m t) =
      uploads t ++ t.rendering.uniformVariables.entries.flatMap fun e => uniformCalls e.1 e.2 := by
  rcases render_cases gl locks m t with ⟨hnot, -⟩ | ⟨programId', vertexArrayId, -, heq⟩
  · exact absurd hdraws (hnot programId)
  · rw [heq, uploads_issueAll, uploads_setupTextures, uploads_applyUniformVariables,
      List.filter_append, List.filter_append, filter_drawCalls, uploads_issue]
    simp [isUniformUpload, Thread.issue]

theorem uniformVariables_setupTexture (e : Σ _ : UInt32, TextureBinding) :
    (setupTexture gl locks programId t e).rendering.uniformVariables = t.rendering.uniformVariables := by
  rw [setupTexture]
  split
  · dsimp only
    split
    · rfl
    · rfl
  · rfl

theorem uniformVariables_setupTextures :
    (setupTextures gl locks programId t).rendering.uniformVariables = t.rendering.uniformVariables :=
  setupTextures_invariant
    (I := fun t' => t'.rendering.uniformVariables = t.rendering.uniformVariables) rfl
    fun _ ht' e _ => (uniformVariables_setupTexture e).trans ht'

@[simp] theorem uniformVariables_render :
    (render gl locks m t).rendering.uniformVariables = t.rendering.uniformVariables := by
  rcases render_cases gl locks m t with ⟨-, heq⟩ | ⟨programId, vertexArrayId, -, heq⟩
  · rw [heq]
  · rw [heq]
    exact uniformVariables_setupTextures

end GlBaseTechnique

namespace Rendering

def locks (R : Rendering) (h : Heap Object) : GlBaseTechnique.Locks where
  vertexArray := R.lock h .glVertexArrays GlVertexArray.RenderingState.vertexArrayId
  program := R.lock h .glPrograms GlProgram.RenderingState.programId
  elementArrayBuffer := R.lock h .glBuffers GlBuffer.RenderingState.bufferId
  texture := R.lock h .glTextures GlTexture.RenderingState.textureId
  sampler := R.lock h .glSamplers GlSampler.RenderingState.samplerId

end Rendering

namespace PoolState

def renderGlBaseTechnique (gl : Driver) (m : Matrices) (s : PoolState) (p : WeakPtr) : PoolState :=
  s.withLock .glBaseTechniques p fun a _ =>
    { s with
      rendering := s.rendering.onState .glBaseTechniques a
        (GlBaseTechnique.render gl (s.rendering.locks s.heap) m) }

def renderRenderingUnit (gl : Driver) (m : Matrices) (s : PoolState) (p : WeakPtr) : PoolState :=
  s.withLock .renderingUnits p fun a _ =>
    s.renderGlBaseTechnique gl m
      (RenderingUnit.RenderingState.glBaseTechnique (s.rendering.states .renderingUnits a))

end PoolState

end ZenRemote.Client
