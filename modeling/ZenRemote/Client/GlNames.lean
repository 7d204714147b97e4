-- SUMMARY: The names in GL calls: which calls create, use and delete them, and what one closure does to the name of its resource.
import ZenRemote.Client.Captured
import ZenRemote.Client.Render

/-!
# Names

A resource has one name at most. It is created by the first closure that needs it, and deleted
by the closure of the destructor. In between, closures and the rendering thread use it, and the
names of what they have locked.
-/

namespace ZenRemote.Client

/-- A name, with the kind of the resources that have such names. -/
abbrev GlName := Kind × GLuint

namespace GlCall

def creates : GlCall → Option Kind
  | .createShader _ => some .glShaders
  | .createProgram => some .glPrograms
  | .genBuffers => some .glBuffers
  | .genVertexArrays => some .glVertexArrays
  | .genTextures => some .glTextures
  | .genSamplers => some .glSamplers
  | .shaderSource _ _ | .compileShader _ | .getShaderiv _ _ | .getShaderInfoLog _ _ | .deleteShader _
  | .attachShader _ _ | .linkProgram _ | .getProgramiv _ _ | .getProgramInfoLog _ _ | .deleteProgram _
  | .bindBuffer _ _ | .bufferData _ _ _ _ | .deleteBuffers _ | .bindVertexArray _
  | .enableVertexAttribArray _ | .disableVertexAttribArray _ | .vertexAttribPointer _ _ _ _ _ _
  | .deleteVertexArrays _ | .bindTexture _ _ | .texImage2D _ _ | .texSubImage2D _ _
  | .generateMipmap _ | .deleteTextures _ | .samplerParameterf _ _ _ | .samplerParameteri _ _ _
  | .samplerParameterfv _ _ _ | .samplerParameteriv _ _ _ | .samplerParameterIiv _ _ _
  | .samplerParameterIuiv _ _ _ | .deleteSamplers _ | .getUniformLocation _ _ | .useProgram _
  | .uniform1i _ _ | .uniformVector _ _ _ _ _ | .uniformMatrix4fv _ _ | .uniformMatrix _ _ _ _ _ _
  | .activeTexture _ | .bindSampler _ _ | .drawArrays _ _ _ | .drawElements _ _ _ _ => none

def deletes : GlCall → Option GlName
  | .deleteShader n => some (.glShaders, n)
  | .deleteProgram n => some (.glPrograms, n)
  | .deleteBuffers n => some (.glBuffers, n)
  | .deleteVertexArrays n => some (.glVertexArrays, n)
  | .deleteTextures n => some (.glTextures, n)
  | .deleteSamplers n => some (.glSamplers, n)
  | _ => none

/-- The names that a call takes, other than the one it deletes. -/
def uses : GlCall → List GlName
  | .shaderSource n _ | .compileShader n | .getShaderiv n _ | .getShaderInfoLog n _ => [(.glShaders, n)]
  | .attachShader program shader => [(.glPrograms, program), (.glShaders, shader)]
  | .linkProgram n | .getProgramiv n _ | .getProgramInfoLog n _ | .getUniformLocation n _
  | .useProgram n => [(.glPrograms, n)]
  | .bindBuffer _ n => [(.glBuffers, n)]
  | .bindVertexArray n => [(.glVertexArrays, n)]
  | .bindTexture _ n => [(.glTextures, n)]
  | .samplerParameterf n _ _ | .samplerParameteri n _ _ | .samplerParameterfv n _ _
  | .samplerParameteriv n _ _ | .samplerParameterIiv n _ _ | .samplerParameterIuiv n _ _
  | .bindSampler _ n => [(.glSamplers, n)]
  | .createShader _ | .deleteShader _ | .createProgram | .deleteProgram _ | .genBuffers
  | .bufferData _ _ _ _ | .deleteBuffers _ | .genVertexArrays | .enableVertexAttribArray _
  | .disableVertexAttribArray _ | .vertexAttribPointer _ _ _ _ _ _ | .deleteVertexArrays _
  | .genTextures | .texImage2D _ _ | .texSubImage2D _ _ | .generateMipmap _ | .deleteTextures _
  | .genSamplers | .deleteSamplers _ | .uniform1i _ _ | .uniformVector _ _ _ _ _
  | .uniformMatrix4fv _ _ | .uniformMatrix _ _ _ _ _ _ | .activeTexture _ | .drawArrays _ _ _
  | .drawElements _ _ _ _ => []

end GlCall

attribute [local simp] GlCall.creates GlCall.deletes GlCall.uses

/-- The names that a driver gives in answer to calls that come after others. -/
def namesFrom (gl : Driver) (before : List GlCall) : List GlCall → List GlName
  | [] => []
  | c :: cs => (c.creates.map fun k => (k, gl.name before c)).toList ++ namesFrom gl (before ++ [c]) cs

theorem namesFrom_append (gl : Driver) (before cs cs' : List GlCall) :
    namesFrom gl before (cs ++ cs') = namesFrom gl before cs ++ namesFrom gl (before ++ cs) cs' := by
  induction cs generalizing before with
  | nil => simp [namesFrom]
  | cons c cs ih => simp [namesFrom, ih]

/-- The names given so far are distinct, and none is zero. -/
structure FreshNames (gl : Driver) (calls : List GlCall) : Prop where
  nodup : (namesFrom gl [] calls).Nodup
  nonzero : ∀ u ∈ namesFrom gl [] calls, u.2 ≠ 0

theorem FreshNames.earlier {gl : Driver} {cs cs' : List GlCall} (h : FreshNames gl cs') (hcs : cs <+: cs') :
    FreshNames gl cs := by
  obtain ⟨hnodup, hnonzero⟩ := h
  obtain ⟨rest, rfl⟩ := hcs
  rw [namesFrom_append] at hnodup hnonzero
  exact ⟨hnodup.of_append_left, fun u hu => hnonzero u (List.mem_append_left _ hu)⟩

/-- The calls neither create nor delete, and use only zero and the names in `P`. -/
def UsesOnly (P : GlName → Prop) (cs : List GlCall) : Prop :=
  ∀ c ∈ cs, c.creates = none ∧ c.deletes = none ∧ ∀ u ∈ c.uses, u.2 = 0 ∨ P u

section

variable {P Q : GlName → Prop} {cs cs' : List GlCall} {c : GlCall}

@[simp] theorem usesOnly_nil : UsesOnly P [] := nofun

@[simp] theorem usesOnly_cons :
    UsesOnly P (c :: cs) ↔ (c.creates = none ∧ c.deletes = none ∧ ∀ u ∈ c.uses, u.2 = 0 ∨ P u) ∧
      UsesOnly P cs :=
  List.forall_mem_cons

@[simp] theorem usesOnly_append : UsesOnly P (cs ++ cs') ↔ UsesOnly P cs ∧ UsesOnly P cs' :=
  List.forall_mem_append

theorem UsesOnly.mono (hPQ : ∀ u, P u → Q u) (h : UsesOnly P cs) : UsesOnly Q cs := fun c hc =>
  ⟨(h c hc).1, (h c hc).2.1, fun u hu => ((h c hc).2.2 u hu).imp_right (hPQ u)⟩

theorem usesOnly_flatMap {τ : Type} {f : τ → List GlCall} {xs : List τ} (h : ∀ x ∈ xs, UsesOnly P (f x)) :
    UsesOnly P (xs.flatMap f) := by
  intro c hc
  obtain ⟨x, hx, hc⟩ := List.mem_flatMap.mp hc
  exact h x hx c hc

theorem UsesOnly.namesFrom_eq_nil (h : UsesOnly P cs) (gl : Driver) (before : List GlCall) :
    namesFrom gl before cs = [] := by
  induction cs generalizing before with
  | nil => rfl
  | cons c cs ih =>
    obtain ⟨⟨hcreates, -, -⟩, hcs⟩ := usesOnly_cons.mp h
    rw [namesFrom, hcreates, ih hcs]
    rfl

end

/-- What a closure, other than a destructor's, does to the name of its resource and to the
calls. `P` holds of the names of what it locks. -/
inductive NameStep (gl : Driver) (k : Kind) (P : GlName → Prop) (calls : List GlCall) (name : GLuint) :
    List GlCall → GLuint → Prop
  | kept {cs : List GlCall} (hcs : UsesOnly (fun u => u = (k, name) ∨ P u) cs) :
      NameStep gl k P calls name (calls ++ cs) name
  | created {c : GlCall} {cs : List GlCall} (hname : name = 0) (hcreates : c.creates = some k)
      (hdeletes : c.deletes = none) (huses : c.uses = [])
      (hcs : UsesOnly (fun u => u = (k, gl.name calls c) ∨ P u) cs) :
      NameStep gl k P calls name (calls ++ c :: cs) (gl.name calls c)

theorem NameStep.refl (gl : Driver) (k : Kind) (P : GlName → Prop) (calls : List GlCall) (name : GLuint) :
    NameStep gl k P calls name calls name := by
  have hkept : NameStep gl k P calls name (calls ++ []) name := .kept usesOnly_nil
  rwa [List.append_nil] at hkept

-- ---------------------------------------------------------------------------
-- The closures
-- ---------------------------------------------------------------------------

namespace GlShader.Command

/-- If it compiles the shader, that succeeds. -/
def Succeeds (gl : Driver) (t : Thread RenderingState) : Command → Prop
  | .compile type source =>
    t.rendering.shaderId = 0 →
      let shaderId := gl.name t.calls (.createShader type)
      let calls := t.calls ++ [.createShader type, .shaderSource shaderId source, .compileShader shaderId]
      gl.value calls (.getShaderiv shaderId .compileStatus) = 1
  | .delete => True

theorem nameStep {gl : Driver} {t : Thread RenderingState} {c : Command} (hc : c ≠ .delete)
    (hsucceeds : c.Succeeds gl t) (P : GlName → Prop) :
    NameStep gl .glShaders P t.calls t.rendering.shaderId (execute gl t c).calls
      (execute gl t c).rendering.shaderId := by
  cases c with
  | delete => exact absurd rfl hc
  | compile type source =>
    unfold execute
    dsimp only
    split
    · exact .refl ..
    · rename_i hzero
      rw [not_not] at hzero
      have hcompiled := hsucceeds hzero
      rw [Thread.calls_issueAll, if_neg (not_not_intro hcompiled)]
      simp only [Thread.calls_assign, Thread.calls_issue, Thread.calls_issueAll, List.append_assoc,
        List.cons_append, List.nil_append]
      exact .created hzero rfl rfl rfl (by simp)

end GlShader.Command

namespace GlProgram.Command

/-- If it links the program, that succeeds. -/
def Succeeds (gl : Driver) (lockShader : WeakPtr → Option GLuint) (t : Thread RenderingState) :
    Command → Prop
  | .link glShaders =>
    t.rendering.programId = 0 →
      let programId := gl.name t.calls .createProgram
      let attached := (glShaders.filterMap lockShader).map (GlCall.attachShader programId)
      let calls := t.calls ++ .createProgram :: attached ++ [.linkProgram programId]
      gl.value calls (.getProgramiv programId .linkStatus) = 1
  | .delete => True

theorem nameStep {gl : Driver} {lockShader : WeakPtr → Option GLuint} {t : Thread RenderingState}
    {c : Command} (hc : c ≠ .delete) (hsucceeds : c.Succeeds gl lockShader t) {P : GlName → Prop}
    (hlock : ∀ p n, lockShader p = some n → n = 0 ∨ P (.glShaders, n)) :
    NameStep gl .glPrograms P t.calls t.rendering.programId (execute gl lockShader t c).calls
      (execute gl lockShader t c).rendering.programId := by
  cases c with
  | delete => exact absurd rfl hc
  | link glShaders =>
    unfold execute
    dsimp only
    split
    · exact .refl ..
    · rename_i hzero
      rw [not_not] at hzero
      have hlinked := hsucceeds hzero
      simp only [Thread.calls_issue, Thread.calls_issueAll, List.append_assoc, List.cons_append,
        List.nil_append] at hlinked ⊢
      rw [if_neg (not_not_intro hlinked)]
      simp only [Thread.calls_assign, Thread.calls_issue, Thread.calls_issueAll, List.append_assoc,
        List.cons_append, List.nil_append]
      refine .created hzero rfl rfl rfl (usesOnly_append.mpr ⟨?_, ?_⟩)
      · intro c hattach
        obtain ⟨n, hn, rfl⟩ := List.mem_map.mp hattach
        obtain ⟨p, -, hp⟩ := List.mem_filterMap.mp hn
        simpa using hlock p n hp
      · simp

end GlProgram.Command

theorem GlBuffer.Command.nameStep {gl : Driver} {t : Thread RenderingState} {c : Command} (hc : c ≠ .delete)
    (P : GlName → Prop) :
    NameStep gl .glBuffers P t.calls t.rendering.bufferId (execute gl t c).calls
      (execute gl t c).rendering.bufferId := by
  cases c with
  | delete => exact absurd rfl hc
  | bufferData data target size usage =>
    unfold execute
    dsimp only
    split
    · rename_i hzero
      simp only [Thread.calls_assign, Thread.calls_issue, List.append_assoc, List.cons_append, List.nil_append]
      exact .created hzero rfl rfl rfl (by simp [Thread.assign])
    · simp only [Thread.calls_assign, Thread.calls_issue, List.append_assoc, List.cons_append, List.nil_append]
      exact .kept (by simp)

namespace GlVertexArray

theorem usesOnly_attributeCalls {lockBuffer : WeakPtr → Option (UInt32 × GLuint)} {P : GlName → Prop}
    (hlock : ∀ p target n, lockBuffer p = some (target, n) → n = 0 ∨ P (.glBuffers, n)) (index : UInt32)
    (a : VertexAttrib) : UsesOnly P (attributeCalls lockBuffer index a) := by
  have htoggle : ∀ c, c = (if a.enabled then GlCall.enableVertexAttribArray index
      else .disableVertexAttribArray index) → UsesOnly P [c] := by
    rintro c rfl
    split <;> simp
  unfold attributeCalls
  split
  · exact usesOnly_nil
  · refine usesOnly_cons.mpr ⟨(usesOnly_cons.mp (htoggle _ rfl)).1, ?_⟩
    split
    · exact usesOnly_nil
    · split
      · exact usesOnly_nil
      · rename_i target n hbuffer
        simpa using hlock a.glBuffer target n hbuffer

theorem Command.nameStep {gl : Driver} {lockBuffer : WeakPtr → Option (UInt32 × GLuint)}
    {t : Thread RenderingState} {c : Command} (hc : c ≠ .delete) {P : GlName → Prop}
    (hlock : ∀ p target n, lockBuffer p = some (target, n) → n = 0 ∨ P (.glBuffers, n)) :
    NameStep gl .glVertexArrays P t.calls t.rendering.vertexArrayId (execute gl lockBuffer t c).calls
      (execute gl lockBuffer t c).rendering.vertexArrayId := by
  cases c with
  | delete => exact absurd rfl hc
  | replay attributes =>
    have hattributes : UsesOnly P (attributes.entries.flatMap fun e => attributeCalls lockBuffer e.1 e.2) :=
      usesOnly_flatMap fun e _ => usesOnly_attributeCalls hlock e.1 e.2
    have hcalls : ∀ n, UsesOnly (fun u => u = (.glVertexArrays, n) ∨ P u)
        (.bindVertexArray n :: (attributes.entries.flatMap fun e => attributeCalls lockBuffer e.1 e.2) ++
          [.bindVertexArray 0]) := fun n => by
      simp [hattributes.mono fun _ => Or.inr]
    unfold execute
    dsimp only
    split
    · rename_i hzero
      simp only [Thread.calls_assign, Thread.calls_issue, Thread.calls_issueAll, List.append_assoc,
        List.cons_append, List.nil_append]
      exact .created hzero rfl rfl rfl (hcalls _)
    · simp only [Thread.calls_issue, Thread.calls_issueAll, List.append_assoc, List.cons_append,
        List.nil_append]
      exact .kept (hcalls _)

end GlVertexArray

namespace GlTexture

theorem usesOnly_dataCalls (n : GLuint) (P : GlName → Prop) (c : Sum Image2D SubImage2D × Bytes) :
    UsesOnly (fun u => u = (.glTextures, n) ∨ P u) (dataCalls n c) := by
  obtain ⟨args | args, data⟩ := c <;> simp [dataCalls]

theorem Command.nameStep {gl : Driver} {t : Thread RenderingState} {c : Command} (hc : c ≠ .delete)
    (P : GlName → Prop) :
    NameStep gl .glTextures P t.calls t.rendering.textureId (execute gl t c).calls
      (execute gl t c).rendering.textureId := by
  cases c with
  | delete => exact absurd rfl hc
  | replay dataCommands target =>
    have hcalls : ∀ n, UsesOnly (fun u => u = (.glTextures, n) ∨ P u)
        (dataCommands.flatMap (dataCalls n) ++ if target = 0 then [] else
          [.bindTexture target n, .generateMipmap target, .bindTexture target 0]) := by
      intro n
      refine usesOnly_append.mpr ⟨usesOnly_flatMap fun c _ => usesOnly_dataCalls n P c, ?_⟩
      split <;> simp
    have hmipmap : ∀ (t : Thread RenderingState) cs cs', (if target = 0 then t.issueAll cs else
        (t.issueAll cs).issueAll cs') = t.issueAll (cs ++ if target = 0 then [] else cs') := by
      intro t cs cs'
      split <;> simp [Thread.issueAll]
    unfold execute
    dsimp only
    rw [hmipmap]
    split
    · rename_i hzero
      simp only [Thread.calls_issueAll, Thread.calls_assign, Thread.calls_issue, List.append_assoc,
        List.cons_append, List.nil_append]
      exact .created hzero rfl rfl rfl (hcalls _)
    · exact .kept (hcalls _)

end GlTexture

theorem GlSampler.Command.nameStep {gl : Driver} {t : Thread RenderingState} {c : Command}
    (hc : c ≠ .delete) (P : GlName → Prop) :
    NameStep gl .glSamplers P t.calls t.rendering.samplerId (execute gl t c).calls
      (execute gl t c).rendering.samplerId := by
  cases c with
  | delete => exact absurd rfl hc
  | gen =>
    unfold execute
    dsimp only
    split
    · rename_i hzero
      exact .created hzero rfl rfl rfl usesOnly_nil
    · exact .refl ..
  | parameters cs =>
    refine .kept fun c hc => ?_
    obtain ⟨p, -, rfl⟩ := List.mem_map.mp hc
    unfold parameterCall
    split <;> simp

namespace GlBaseTechnique

variable {gl : Driver} {P : GlName → Prop}

/-- `t'` comes from `t` by calls that only use zero and the names in `P`. -/
def IssuesOnly (P : GlName → Prop) (t t' : Thread RenderingState) : Prop :=
  ∃ cs, t'.calls = t.calls ++ cs ∧ UsesOnly P cs

theorem IssuesOnly.refl (t : Thread RenderingState) : IssuesOnly P t t :=
  ⟨[], (List.append_nil _).symm, usesOnly_nil⟩

theorem IssuesOnly.trans {t t' t'' : Thread RenderingState} (h : IssuesOnly P t t')
    (h' : IssuesOnly P t' t'') : IssuesOnly P t t'' := by
  obtain ⟨cs, hcalls, hcs⟩ := h
  obtain ⟨cs', hcalls', hcs'⟩ := h'
  refine ⟨cs ++ cs', ?_, usesOnly_append.mpr ⟨hcs, hcs'⟩⟩
  rw [hcalls', hcalls, List.append_assoc]

theorem IssuesOnly.issueAll {t t' : Thread RenderingState} (h : IssuesOnly P t t') {cs : List GlCall}
    (hcs : UsesOnly P cs) : IssuesOnly P t (t'.issueAll cs) :=
  h.trans ⟨cs, rfl, hcs⟩

theorem IssuesOnly.foldl {τ : Type} {f : Thread RenderingState → τ → Thread RenderingState} {xs : List τ}
    (hf : ∀ t, ∀ x ∈ xs, IssuesOnly P t (f t x)) (t : Thread RenderingState) :
    IssuesOnly P t (xs.foldl f t) :=
  List.foldlRecOn xs f (.refl t) fun t' ht' x hx => ht'.trans (hf t' x hx)

theorem issuesOnly_setUniform {programId : GLuint} (hprogram : programId = 0 ∨ P (.glPrograms, programId))
    (t : Thread RenderingState) (u : UniformVariable) :
    IssuesOnly P t (Command.setUniform gl programId t u) := by
  unfold Command.setUniform
  dsimp only
  have hlocation : UsesOnly P [.getUniformLocation programId u.name] := by
    simpa using hprogram
  split
  · split
    · exact .refl t
    · exact .refl t
  · split
    · exact ⟨_, rfl, hlocation⟩
    · exact ⟨_, rfl, hlocation⟩

theorem Command.issuesOnly_execute {lockProgram : WeakPtr → Option GLuint}
    (hlock : ∀ p n, lockProgram p = some n → n = 0 ∨ P (.glPrograms, n)) (t : Thread RenderingState)
    (c : Command) : IssuesOnly P t (execute gl lockProgram t c) := by
  cases c with
  | drawMethod _ _ _ | program _ | vertexArray _ | textures _ | delete => exact .refl t
  | uniforms us =>
    unfold execute
    dsimp only
    split
    · exact .refl t
    · rename_i programId hprogram
      split
      · exact .refl t
      · exact .foldl (fun t u _ => issuesOnly_setUniform (hlock _ _ hprogram) t u) t

/-- What a technique locks has names in `P`. -/
structure Locks.Only (P : GlName → Prop) (locks : Locks) : Prop where
  vertexArray : ∀ p n, locks.vertexArray p = some n → n = 0 ∨ P (.glVertexArrays, n)
  program : ∀ p n, locks.program p = some n → n = 0 ∨ P (.glPrograms, n)
  elementArrayBuffer : ∀ p n, locks.elementArrayBuffer p = some n → n = 0 ∨ P (.glBuffers, n)
  texture : ∀ p n, locks.texture p = some n → n = 0 ∨ P (.glTextures, n)
  sampler : ∀ p n, locks.sampler p = some n → n = 0 ∨ P (.glSamplers, n)

theorem issuesOnly_applyUniformVariables (gl : Driver) {programId : GLuint}
    (hprogram : programId = 0 ∨ P (.glPrograms, programId)) (m : Matrices) (t : Thread RenderingState) :
    IssuesOnly P t (applyUniformVariables gl m programId t) := by
  unfold applyUniformVariables
  refine .trans (.foldl (fun t u _ => ⟨_, rfl, ?_⟩) t) ⟨_, rfl, usesOnly_flatMap fun e _ => ?_⟩
  · simpa using hprogram
  · unfold uniformCalls
    split
    · split <;> simp
    · simp

theorem issuesOnly_setupTexture {locks : Locks} (hlocks : locks.Only P) {programId : GLuint}
    (hprogram : programId = 0 ∨ P (.glPrograms, programId)) (t : Thread RenderingState)
    (e : Σ _ : UInt32, TextureBinding) : IssuesOnly P t (setupTexture gl locks programId t e) := by
  unfold setupTexture
  split
  · rename_i textureId samplerId htexture hsampler
    have hbind : UsesOnly P [.activeTexture (0x84C0 + e.1), .bindTexture e.2.target textureId,
        .bindSampler e.1 samplerId] := by
      simpa using
        ⟨hlocks.texture _ _ htexture, hlocks.sampler _ _ hsampler⟩
    dsimp only
    split
    · exact ⟨_, rfl, hbind⟩
    · refine ⟨_, (List.append_assoc ..), usesOnly_append.mpr ⟨?_, hbind⟩⟩
      simpa using hprogram
  · exact .refl t

theorem issuesOnly_setupTextures (gl : Driver) {locks : Locks} (hlocks : locks.Only P) {programId : GLuint}
    (hprogram : programId = 0 ∨ P (.glPrograms, programId)) (t : Thread RenderingState) :
    IssuesOnly P t (setupTextures gl locks programId t) :=
  .foldl (fun t e _ => issuesOnly_setupTexture hlocks hprogram t e) t

theorem issuesOnly_render {locks : Locks} (hlocks : locks.Only P) (m : Matrices)
    (t : Thread RenderingState) : IssuesOnly P t (render gl locks m t) := by
  unfold render
  dsimp only
  split
  · exact .refl t
  split
  · rename_i vertexArrayId programId hvertexArray hprogram
    have hprogram := hlocks.program _ _ hprogram
    have hvertexArray := hlocks.vertexArray _ _ hvertexArray
    split
    · exact .refl t
    split
    · exact .refl t
    have huse : UsesOnly P [.useProgram programId] := by
      simpa using hprogram
    have hbind : UsesOnly P [.bindVertexArray vertexArrayId] := by
      simpa using hvertexArray
    have hdraw : UsesOnly P (drawCalls (locks.elementArrayBuffer t.rendering.elementArrayBuffer)
        t.rendering) := by
      unfold drawCalls
      split
      · simp
      · rename_i hbuffer
        simpa using hlocks.elementArrayBuffer _ _ hbuffer
      · exact usesOnly_nil
    have huniforms := ((IssuesOnly.refl t).issueAll huse).trans
      (issuesOnly_applyUniformVariables gl hprogram m _)
    have htextures := huniforms.trans (issuesOnly_setupTextures gl hlocks hprogram _)
    refine ((htextures.issueAll hbind).issueAll hdraw).issueAll ?_
    simp
  · exact .refl t

end GlBaseTechnique

-- ---------------------------------------------------------------------------
-- Closures and their resources
-- ---------------------------------------------------------------------------

/-- The name in a rendering state. -/
def RenderingState.name : {k : Kind} → RenderingState k → GLuint
  | .glBuffers, r => GlBuffer.RenderingState.bufferId r
  | .glShaders, r => GlShader.RenderingState.shaderId r
  | .glPrograms, r => GlProgram.RenderingState.programId r
  | .glTextures, r => GlTexture.RenderingState.textureId r
  | .glSamplers, r => GlSampler.RenderingState.samplerId r
  | .glVertexArrays, r => GlVertexArray.RenderingState.vertexArrayId r
  | .virtualObjects, _ | .renderingUnits, _ | .glBaseTechniques, _ => 0

/-- The closure of a destructor. It takes no notice of `cancel`; the others return at once. -/
def Command.isDelete : {k : Kind} → Command k → Bool
  | .virtualObjects, VirtualObject.Command.delete => true
  | .renderingUnits, RenderingUnit.Command.delete => true
  | .glBuffers, GlBuffer.Command.delete => true
  | .glShaders, GlShader.Command.delete => true
  | .glPrograms, GlProgram.Command.delete => true
  | .glTextures, GlTexture.Command.delete => true
  | .glSamplers, GlSampler.Command.delete => true
  | .glVertexArrays, GlVertexArray.Command.delete => true
  | .glBaseTechniques, GlBaseTechnique.Command.delete => true
  | _, _ => false

def Command.Succeeds (gl : Driver) (h : Heap Object) (R : Rendering) :
    {k : Kind} → Thread (RenderingState k) → Command k → Prop
  | .glShaders, t, c => GlShader.Command.Succeeds gl t c
  | .glPrograms, t, c =>
    GlProgram.Command.Succeeds gl (R.lock h .glShaders GlShader.RenderingState.shaderId) t c
  | _, _, _ => True

namespace Closure

/-- The resource that a closure was made for. -/
def resource (c : Closure) : Kind × Nat := (c.kind, c.address)

def isDelete (c : Closure) : Bool := c.command.isDelete

def cancel (gl : Driver) (h : Heap Object) (R : Rendering) (c : Closure) : Rendering :=
  if c.isDelete then c.execute gl h R else R

/-- Compilation and linking do not fail. -/
def Succeeds (gl : Driver) (h : Heap Object) (R : Rendering) (c : Closure) : Prop :=
  Command.Succeeds gl h R { calls := R.calls, rendering := R.states c.kind c.address } c.command

end Closure

namespace Rendering

variable {R : Rendering} {h : Heap Object} {k : Kind}

def name (R : Rendering) (k : Kind) (a : Nat) : GLuint := (R.states k a).name

/-- The names of what is alive. -/
def Live (R : Rendering) (h : Heap Object) (u : GlName) : Prop :=
  ∃ b, h.get u.1 b ≠ none ∧ R.name u.1 b = u.2

theorem exists_of_lock {τ : Type} {f : RenderingState k → τ} {p : WeakPtr} {x : τ}
    (hlock : R.lock h k f p = some x) : ∃ b, h.get k b ≠ none ∧ f (R.states k b) = x := by
  obtain ⟨b, -, hget⟩ := Option.bind_eq_some_iff.mp hlock
  obtain ⟨y, hy, hx⟩ := Option.map_eq_some_iff.mp hget
  exact ⟨b, by simp [hy], hx⟩

theorem locks_only (R : Rendering) (h : Heap Object) : (R.locks h).Only (R.Live h) where
  vertexArray := fun _ _ hlock => .inr (exists_of_lock hlock)
  program := fun _ _ hlock => .inr (exists_of_lock hlock)
  elementArrayBuffer := fun _ _ hlock => .inr (exists_of_lock hlock)
  texture := fun _ _ hlock => .inr (exists_of_lock hlock)
  sampler := fun _ _ hlock => .inr (exists_of_lock hlock)

theorem name_onState_of_ne {f : Thread (RenderingState k) → Thread (RenderingState k)} {a b : Nat}
    {k' : Kind} (hne : (k', b) ≠ (k, a)) : (R.onState k a f).name k' b = R.name k' b := by
  rw [name, states_onState_of_ne, name]
  by_contra heq
  push Not at heq
  exact hne (Prod.ext heq.1 heq.2)

end Rendering

/-- A command other than a destructor's. -/
theorem Command.nameStep {gl : Driver} {h : Heap Object} {R : Rendering} :
    ∀ {k : Kind} {t : Thread (RenderingState k)} {c : Command k}, ¬ c.isDelete →
      Command.Succeeds gl h R t c →
      NameStep gl k (R.Live h) t.calls t.rendering.name (Command.execute gl h R t c).calls
        (Command.execute gl h R t c).rendering.name
  | .virtualObjects, t, c, _, _ => by
    have hcalls : (VirtualObject.Command.execute t c).calls = t.calls := by
      cases c with
      | commit units =>
        unfold VirtualObject.Command.execute
        dsimp only
        split <;> rfl
      | _ => rfl
    rw [Command.execute, hcalls]
    exact .refl ..
  | .renderingUnits, t, c, _, _ => by
    have hcalls : (RenderingUnit.Command.execute t c).calls = t.calls := by
      cases c with
      | _ => rfl
    rw [Command.execute, hcalls]
    exact .refl ..
  | .glBuffers, _, c, hc, _ =>
    GlBuffer.Command.nameStep (c := c) (fun heq => hc (by rw [heq]; rfl)) _
  | .glShaders, _, c, hc, hsucceeds =>
    GlShader.Command.nameStep (c := c) (fun heq => hc (by rw [heq]; rfl)) hsucceeds _
  | .glPrograms, _, c, hc, hsucceeds =>
    GlProgram.Command.nameStep (c := c) (fun heq => hc (by rw [heq]; rfl)) hsucceeds
      fun _ _ hlock => .inr (Rendering.exists_of_lock hlock)
  | .glTextures, _, c, hc, _ =>
    GlTexture.Command.nameStep (c := c) (fun heq => hc (by rw [heq]; rfl)) _
  | .glSamplers, _, c, hc, _ =>
    GlSampler.Command.nameStep (c := c) (fun heq => hc (by rw [heq]; rfl)) _
  | .glVertexArrays, _, c, hc, _ => by
    refine GlVertexArray.Command.nameStep (c := c) (fun heq => hc (by rw [heq]; rfl)) ?_
    intro p target n hlock
    obtain ⟨b, hb, hx⟩ := Rendering.exists_of_lock hlock
    exact .inr ⟨b, hb, (Prod.ext_iff.mp hx).2⟩
  | .glBaseTechniques, t, c, _, _ => by
    have hissues : GlBaseTechnique.IssuesOnly (R.Live h) t (Command.execute gl h R t c) :=
      GlBaseTechnique.Command.issuesOnly_execute (R.locks_only h).program t c
    obtain ⟨cs, hcalls, hcs⟩ := hissues
    rw [hcalls]
    exact .kept (hcs.mono fun _ => Or.inr)

/-- What a destructor's closure does with the name of its resource. -/
structure NameDeleted {ρ : Type} (k : Kind) (name : GLuint) (t t' : Thread ρ) : Prop where
  rendering : t'.rendering = t.rendering
  calls : name = 0 ∧ t'.calls = t.calls ∨ name ≠ 0 ∧ ∃ d : GlCall, d.creates = none ∧
    d.deletes = some (k, name) ∧ d.uses = [] ∧ t'.calls = t.calls ++ [d]

theorem nameDeleted_of_ne_zero {ρ : Type} {k : Kind} {name : GLuint} {t : Thread ρ} {d : GlCall}
    (hcreates : d.creates = none) (hdeletes : d.deletes = some (k, name)) (huses : d.uses = []) :
    NameDeleted k name t (if name = 0 then t else t.issue d) := by
  split
  · rename_i hname
    exact ⟨rfl, .inl ⟨hname, rfl⟩⟩
  · rename_i hname
    exact ⟨rfl, .inr ⟨hname, d, hcreates, hdeletes, huses, rfl⟩⟩

theorem Command.nameDeleted (gl : Driver) (h : Heap Object) (R : Rendering) :
    ∀ {k : Kind} {t : Thread (RenderingState k)} {c : Command k}, c.isDelete →
      NameDeleted k t.rendering.name t (Command.execute gl h R t c)
  | .virtualObjects, _, VirtualObject.Command.delete, _ => ⟨rfl, .inl ⟨rfl, rfl⟩⟩
  | .renderingUnits, _, RenderingUnit.Command.delete, _ => ⟨rfl, .inl ⟨rfl, rfl⟩⟩
  | .glBaseTechniques, _, GlBaseTechnique.Command.delete, _ => ⟨rfl, .inl ⟨rfl, rfl⟩⟩
  | .glBuffers, _, GlBuffer.Command.delete, _ => nameDeleted_of_ne_zero rfl rfl rfl
  | .glShaders, _, GlShader.Command.delete, _ => nameDeleted_of_ne_zero rfl rfl rfl
  | .glPrograms, _, GlProgram.Command.delete, _ => nameDeleted_of_ne_zero rfl rfl rfl
  | .glTextures, _, GlTexture.Command.delete, _ => nameDeleted_of_ne_zero rfl rfl rfl
  | .glSamplers, _, GlSampler.Command.delete, _ => nameDeleted_of_ne_zero rfl rfl rfl
  | .glVertexArrays, _, GlVertexArray.Command.delete, _ => nameDeleted_of_ne_zero rfl rfl rfl

theorem Closure.nameStep {gl : Driver} {h : Heap Object} {R : Rendering} {c : Closure}
    (hc : ¬ c.isDelete) (hsucceeds : c.Succeeds gl h R) :
    NameStep gl c.kind (R.Live h) R.calls (R.name c.kind c.address) (c.execute gl h R).calls
      ((c.execute gl h R).name c.kind c.address) := by
  rw [Closure.execute_eq_onState, Rendering.name, Rendering.name, Rendering.states_onState_self]
  exact Command.nameStep hc hsucceeds

theorem Closure.name_execute_of_ne {gl : Driver} {h : Heap Object} {R : Rendering} {c : Closure}
    {k : Kind} {a : Nat} (hne : (k, a) ≠ c.resource) : (c.execute gl h R).name k a = R.name k a := by
  rw [Closure.execute_eq_onState]
  exact Rendering.name_onState_of_ne hne

theorem Closure.nameDeleted (gl : Driver) (h : Heap Object) (R : Rendering) {c : Closure}
    (hc : c.isDelete) : (∀ k a, (c.execute gl h R).name k a = R.name k a) ∧
      (R.name c.kind c.address = 0 ∧ (c.execute gl h R).calls = R.calls ∨
        R.name c.kind c.address ≠ 0 ∧ ∃ d : GlCall, d.creates = none ∧
          d.deletes = some (c.kind, R.name c.kind c.address) ∧ d.uses = [] ∧
            (c.execute gl h R).calls = R.calls ++ [d]) := by
  have hdeleted := Command.nameDeleted gl h R
    (t := { calls := R.calls, rendering := R.states c.kind c.address }) hc
  refine ⟨fun k a => ?_, ?_⟩
  · by_cases hne : (k, a) = c.resource
    · cases hne
      rw [Closure.execute_eq_onState, Rendering.name, Rendering.states_onState_self, hdeleted.rendering]
      rfl
    · exact name_execute_of_ne hne
  · rw [Closure.execute_eq_onState]
    exact hdeleted.calls

end ZenRemote.Client
