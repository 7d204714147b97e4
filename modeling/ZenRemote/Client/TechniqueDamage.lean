-- SUMMARY: The damage flags of a technique: skipping what has not changed is as good as copying everything.
import ZenRemote.Client.TechniqueRun

/-!
# The damage of a technique

Four flags decide what a commit copies to the rendering state. What is not damaged is
as it was at the last commit, so the copies of any number of commits add up to the
pending state at the last of them. Rendering forgets texture bindings, but only those
whose texture or sampler has gone.
-/

namespace ZenRemote.Client.GlBaseTechnique

/-- The same is drawn, as far as the textures and samplers are alive. -/
structure SameDrawing (e : Surroundings) (r r' : RenderingState) : Prop where
  drawMethod : r.drawMethod = r'.drawMethod
  drawArgs : r.drawArgs = r'.drawArgs
  elementArrayBuffer : r.elementArrayBuffer = r'.elementArrayBuffer
  program : r.program = r'.program
  vertexArray : r.vertexArray = r'.vertexArray
  textureBindings : ∀ binding, (r.textureBindings.lookup binding).filter e.alive =
    (r'.textureBindings.lookup binding).filter e.alive

/-- A rendering state into which all of a pending state has been copied. -/
def copied (t : GlBaseTechnique) : RenderingState where
  drawArgs := t.drawArgs
  drawMethod := t.drawMethod
  elementArrayBuffer := t.elementArrayBuffer
  vertexArray := t.vertexArray
  program := t.program
  textureBindings := t.textureBindings

/-- What a closure copies, the uniform variables apart. -/
def Command.copy (r : RenderingState) : Command → RenderingState
  | .drawMethod args method buffer =>
    { r with drawArgs := args, drawMethod := method, elementArrayBuffer := buffer }
  | .program p => { r with program := p }
  | .vertexArray v => { r with vertexArray := v }
  | .textures bindings => { r with textureBindings := bindings }
  | .uniforms _ => r
  | .delete => r

variable {gl : Driver} {e e' : Surroundings} {r r' r'' : RenderingState}

namespace SameDrawing

@[refl] theorem refl (e : Surroundings) (r : RenderingState) : SameDrawing e r r :=
  ⟨rfl, rfl, rfl, rfl, rfl, fun _ => rfl⟩

theorem trans (h : SameDrawing e r r') (h' : SameDrawing e r' r'') : SameDrawing e r r'' :=
  ⟨h.drawMethod.trans h'.drawMethod, h.drawArgs.trans h'.drawArgs,
    h.elementArrayBuffer.trans h'.elementArrayBuffer, h.program.trans h'.program,
    h.vertexArray.trans h'.vertexArray,
    fun binding => (h.textureBindings binding).trans (h'.textureBindings binding)⟩

theorem copy (h : SameDrawing e r r') (c : Command) : SameDrawing e (c.copy r) (c.copy r') := by
  cases c with
  | drawMethod args method buffer =>
    exact ⟨rfl, rfl, rfl, h.program, h.vertexArray, h.textureBindings⟩
  | program p => exact { h with program := rfl }
  | vertexArray v => exact { h with vertexArray := rfl }
  | textures bindings => exact { h with textureBindings := fun _ => rfl }
  | uniforms us => exact h
  | delete => exact h

theorem foldl_copy (h : SameDrawing e r r') (cs : List Command) :
    SameDrawing e (cs.foldl Command.copy r) (cs.foldl Command.copy r') := by
  induction cs generalizing r r' with
  | nil => exact h
  | cons c cs ih => exact ih (h.copy c)

/-- Textures and samplers that have gone count no longer. -/
theorem later (h : SameDrawing e r r') (he : e.Later e') : SameDrawing e' r r' := by
  refine { h with textureBindings := fun binding => ?_ }
  have hfilter : ∀ b : Option TextureBinding, b.filter e'.alive = (b.filter e.alive).filter e'.alive := by
    intro b
    rw [Option.filter_filter]
    congr 1
    funext x
    cases hx : e'.alive x with
    | false => simp
    | true => simp [he.alive hx]
  rw [hfilter, h.textureBindings binding, ← hfilter]

end SameDrawing

-- ---------------------------------------------------------------------------
-- The rendering thread
-- ---------------------------------------------------------------------------

theorem sameDrawing_setUniform (programId : GLuint) (t : Thread RenderingState) (u : UniformVariable) :
    SameDrawing e (Command.setUniform gl programId t u).rendering t.rendering := by
  rw [rendering_setUniform]
  exact ⟨rfl, rfl, rfl, rfl, rfl, fun _ => rfl⟩

theorem sameDrawing_execute (c : Command) (lockProgram : WeakPtr → Option GLuint)
    (t : Thread RenderingState) :
    SameDrawing e (c.execute gl lockProgram t).rendering (c.copy t.rendering) := by
  cases c with
  | drawMethod args method buffer => exact .refl e _
  | program p => exact .refl e _
  | vertexArray v => exact .refl e _
  | textures bindings => exact .refl e _
  | delete => exact .refl e _
  | uniforms us =>
    rw [Command.execute]
    split
    · exact .refl e _
    · rename_i programId hprogram
      clear hprogram
      split
      · exact .refl e _
      · show SameDrawing e (us.foldl (Command.setUniform gl programId) t).rendering t.rendering
        exact List.foldlRecOn (motive := fun t' : Thread RenderingState => SameDrawing e t'.rendering t.rendering)
          us _ (.refl e _) fun t' ht' u _ => (sameDrawing_setUniform programId t' u).trans ht'

theorem sameDrawing_setupTexture (programId : GLuint) (t : Thread RenderingState)
    {b : Σ _ : UInt32, TextureBinding} (hb : SameDrawing e t.rendering r)
    (hmem : r.textureBindings.lookup b.1 = some b.2) :
    SameDrawing e (setupTexture gl e.locks programId t b).rendering r := by
  unfold setupTexture
  split
  · dsimp only
    split
    · exact hb
    · exact hb
  · rename_i hgone
    refine { hb with textureBindings := fun binding => ?_ }
    show ((t.rendering.textureBindings.erase b.1).lookup binding).filter _ = _
    cases Decidable.em (binding = b.1) with
    | inr hne =>
      rw [AList.lookup_erase_ne hne]
      exact hb.textureBindings binding
    | inl heq =>
      -- what is forgotten has gone
      have hdead : e.alive b.2 = false := by
        apply Bool.eq_false_iff.mpr
        intro halive
        rw [Surroundings.alive, Bool.and_eq_true, Surroundings.expired, Surroundings.expired,
          Option.not_isNone, Option.not_isNone] at halive
        obtain ⟨textureId, htexture⟩ := Option.isSome_iff_exists.mp halive.1
        obtain ⟨samplerId, hsampler⟩ := Option.isSome_iff_exists.mp halive.2
        exact hgone _ _ htexture hsampler
      rw [heq, AList.lookup_erase, hmem, Option.filter_none, Option.filter_some, hdead]
      rfl

theorem sameDrawing_setupTextures (programId : GLuint) (t : Thread RenderingState) :
    SameDrawing e (setupTextures gl e.locks programId t).rendering t.rendering :=
  setupTextures_invariant (I := fun t' => SameDrawing e t'.rendering t.rendering) (.refl e _)
    fun t' ht' _ hb => sameDrawing_setupTexture programId t' ht' (AList.mem_lookup_iff.mpr hb)

theorem sameDrawing_render (m : Matrices) (t : Thread RenderingState) :
    SameDrawing e (render gl e.locks m t).rendering t.rendering := by
  rcases render_cases gl e.locks m t with ⟨-, heq⟩ | ⟨programId, vertexArrayId, -, heq⟩
  · rw [heq]
  · rw [heq]
    exact sameDrawing_setupTextures programId _

-- ---------------------------------------------------------------------------
-- The update thread
-- ---------------------------------------------------------------------------

/-- What is not damaged is as it was at the last commit. -/
structure UndamagedSame (t t' : GlBaseTechnique) : Prop where
  drawMethod : t.drawMethodDamaged = false → t.drawMethod = t'.drawMethod ∧ t.drawArgs = t'.drawArgs ∧
    t.elementArrayBuffer = t'.elementArrayBuffer
  program : t.programDamaged = false → t.program = t'.program
  vertexArray : t.vertexArrayDamaged = false → t.vertexArray = t'.vertexArray
  textureBindings : t.textureDamaged = false → t.textureBindings = t'.textureBindings

variable {t t' t'' : GlBaseTechnique}

theorem undamagedSame_committed (t : GlBaseTechnique) (expired : WeakPtr → Bool) :
    UndamagedSame (t.committed expired) t :=
  ⟨fun _ => ⟨rfl, rfl, rfl⟩, fun _ => rfl, fun _ => rfl, fun _ => rfl⟩

theorem UndamagedSame.update (h : UndamagedSame t t'') {o : Update}
    (hupdate : update e t o = some (e', t')) : UndamagedSame t' t'' := by
  cases o with
  | bindProgram program =>
    cases hupdate
    exact { h with program := nofun }
  | bindVertexArray vertexArray =>
    cases hupdate
    exact { h with vertexArray := nofun }
  | bindTexture binding name texture target sampler =>
    cases hupdate
    exact { h with textureBindings := nofun }
  | glDrawArrays mode first count =>
    cases hupdate
    exact { h with drawMethod := nofun }
  | glDrawElements mode count type offset elementArrayBuffer =>
    cases hupdate
    exact { h with drawMethod := nofun }
  | glUniform u =>
    cases hupdate
    unfold glUniform
    split
    · exact ⟨h.drawMethod, h.program, h.vertexArray, h.textureBindings⟩
    · exact h
  | destroy a =>
    cases hupdate
    exact h
  | create a name =>
    rw [GlBaseTechnique.update] at hupdate
    split at hupdate
    · cases hupdate
      exact h
    · contradiction

/-- A part that is copied if it is damaged. -/
theorem SameDrawing.copyIf {damaged : Bool} {c : Command} (hdamaged : SameDrawing e (c.copy r) r')
    (hsame : damaged = false → SameDrawing e r r') :
    SameDrawing e ((if damaged then [c] else []).foldl Command.copy r) r' := by
  cases damaged with
  | true => exact hdamaged
  | false => exact hsame rfl

/-- The closures of a commit copy what is damaged, and then all is as if copied. -/
theorem UndamagedSame.sameDrawing (h : UndamagedSame t t') (hr : SameDrawing e r (copied t'))
    (expired : WeakPtr → Bool) :
    SameDrawing e ((t.commitCommands expired).foldl Command.copy r) (copied t) := by
  have hmethod : SameDrawing e
      ((if t.drawMethodDamaged then
          [Command.drawMethod t.drawArgs t.drawMethod t.elementArrayBuffer] else []).foldl Command.copy r)
      { copied t' with
        drawMethod := t.drawMethod
        drawArgs := t.drawArgs
        elementArrayBuffer := t.elementArrayBuffer } := by
    refine .copyIf ⟨rfl, rfl, rfl, hr.program, hr.vertexArray, hr.textureBindings⟩ fun hdamaged => ?_
    obtain ⟨hm, ha, hb⟩ := h.drawMethod hdamaged
    exact { hr with
      drawMethod := hr.drawMethod.trans hm.symm
      drawArgs := hr.drawArgs.trans ha.symm
      elementArrayBuffer := hr.elementArrayBuffer.trans hb.symm }
  have hprogram : SameDrawing e
      ((if t.programDamaged then [Command.program t.program] else []).foldl Command.copy _)
      { copied t with vertexArray := t'.vertexArray, textureBindings := t'.textureBindings } :=
    .copyIf { hmethod with program := rfl } fun hdamaged =>
      { hmethod with program := hmethod.program.trans (h.program hdamaged).symm }
  have hvertexArray : SameDrawing e
      ((if t.vertexArrayDamaged then [Command.vertexArray t.vertexArray] else []).foldl Command.copy _)
      { copied t with textureBindings := t'.textureBindings } :=
    .copyIf { hprogram with vertexArray := rfl } fun hdamaged =>
      { hprogram with vertexArray := hprogram.vertexArray.trans (h.vertexArray hdamaged).symm }
  have htextures : SameDrawing e
      ((if t.textureDamaged then [Command.textures t.textureBindings] else []).foldl Command.copy _)
      (copied t) :=
    .copyIf { hvertexArray with textureBindings := fun _ => rfl } fun hdamaged =>
      have heq : (copied t).textureBindings = t'.textureBindings := h.textureBindings hdamaged
      { hvertexArray with textureBindings := heq ▸ hvertexArray.textureBindings }
  rw [commitCommands, List.foldl_append, List.foldl_append, List.foldl_append, List.foldl_append]
  exact .copyIf htextures fun _ => htextures

-- ---------------------------------------------------------------------------
-- Runs
-- ---------------------------------------------------------------------------

/-- The closures on the way lead to a rendering state into which all has been copied. -/
def damageTracking (gl : Driver) (id : UInt64) :
    (pipeline gl id).Tracking (fun _ _ _ => True) fun _ _ => True where
  Leads := fun e r cs t => SameDrawing e (cs.foldl Command.copy r.rendering) (copied t)
  Tracks := fun _ t t' => UndamagedSame t t'
  leads_init := .refl _ _
  tracks_init := ⟨fun _ => ⟨rfl, rfl, rfl⟩, fun _ => rfl, fun _ => rfl, fun _ => rfl⟩
  leads_update := fun hupdate _ hleads => hleads.later (later_update hupdate)
  tracks_update := fun hupdate _ htracks => htracks.update hupdate
  leads_commit := by
    intro e r cs t t' _ htracks hleads
    rw [List.foldl_append]
    exact htracks.sameDrawing hleads e.expired
  tracks_commit := fun _ _ => undamagedSame_committed _ _
  leads_execute := by
    intro e r c cs t hleads
    exact ((sameDrawing_execute c e.lock r.thread).foldl_copy cs).trans hleads
  leads_render := by
    intro e r cs t m hleads
    exact ((sameDrawing_render m r.thread).foldl_copy cs).trans hleads

/-- The rendering state draws what was pending at a commit. -/
structure DrawsPending (e : Surroundings) (r : RenderingState) (t : GlBaseTechnique) : Prop where
  drawMethod : r.drawMethod = t.drawMethod
  draws : t.drawMethod ≠ .none →
    r.drawArgs = t.drawArgs ∧ r.elementArrayBuffer = t.elementArrayBuffer
  program : r.program = t.program
  vertexArray : r.vertexArray = t.vertexArray
  textureBindings : ∀ binding, (r.textureBindings.lookup binding).filter e.alive =
    (t.textureBindings.lookup binding).filter e.alive

/-- The damage flags lose nothing: after the closures of the first `k` commits the
rendering state is the pending state at the last of them. -/
theorem drawsPending_run {gl : Driver} {id : UInt64} {ls : List Label} {s : State} {k : Nat}
    (hrun : (pipeline gl id).machine.run ls = some s) (hk : s.HasExecuted k) :
    DrawsPending s.env s.rendering.rendering ((pipeline gl id).snapshot (s.commits.take k)) := by
  have halong : (pipeline gl id).machine.Along (damageTracking gl id).Meets ls := by
    apply Machine.alongFrom_of_mem
    intro l _ s
    cases l with
    | _ => trivial
  obtain ⟨hmethod, hargs, hbuffer, hprogram, hvertexArray, htextures⟩ :
      SameDrawing s.env s.rendering.rendering _ := (damageTracking gl id).leads_run halong hrun hk
  exact ⟨hmethod, fun _ => ⟨hargs, hbuffer⟩, hprogram, hvertexArray, htextures⟩

/-- The second commit is on its way when the closures of the first have been executed;
by then the sampler of a texture binding has gone, which rendering forgets. -/
def oneCommitAhead : List Label :=
  [.update (.glDrawArrays 4 0 3), .update (.bindTexture 0 [] (some 1) 0x0DE1 (some 2)), .commit,
    .update (.glDrawElements 4 6 0x1405 0 (some 3)), .update (.destroy 2), .commit, .execute, .execute,
    .render ⟨[], [], [], [], []⟩]

theorem drawsPending_oneCommitAhead : ∃ s : State,
    (pipeline constantDriver 1).machine.run oneCommitAhead = some s ∧ s.HasExecuted 1 ∧
      DrawsPending s.env s.rendering.rendering
        ((pipeline constantDriver 1).snapshot (s.commits.take 1)) := by
  obtain ⟨s, hs⟩ : ∃ s, (pipeline constantDriver 1).machine.run oneCommitAhead = some s := ⟨_, rfl⟩
  have hexecuted : s.HasExecuted 1 := by
    cases hs
    exact ⟨Nat.le_succ 1, rfl⟩
  exact ⟨s, hs, hexecuted, drawsPending_run hs hexecuted⟩

end ZenRemote.Client.GlBaseTechnique
