-- SUMMARY: What frames draw: a function of the state that is the same for every frame.
import ZenRemote.Client.FrameIsolation

/-!
# The calls of a frame

The loops forget what has expired while they go on, and a frame stands between any two of
its steps. What it draws is still a function of the state that it begins in, and frames
draw the same until closures are executed.
-/

namespace ZenRemote.Client

/-- A program is created, linked or deleted. -/
def GlCall.changesProgram : GlCall → Bool
  | .createProgram | .linkProgram _ | .deleteProgram _ => true
  | _ => false

/-- The locations of uniform variables stay as they are as long as programs do. -/
def Driver.KeepsLocations (gl : Driver) : Prop :=
  ∀ cs new programId name, (∀ c ∈ new, GlCall.changesProgram c = false) →
    gl.value (cs ++ new) (.getUniformLocation programId name) =
      gl.value cs (.getUniformLocation programId name)

/-- The driver that answers every call as `gl` does behind `cs`. -/
def Driver.frozen (gl : Driver) (cs : List GlCall) : Driver := ⟨fun _ => gl.name cs, fun _ => gl.value cs⟩

/-- No program has been changed behind `cs`. -/
def KeptPrograms (cs calls : List GlCall) : Prop :=
  ∃ new, calls = cs ++ new ∧ ∀ c ∈ new, GlCall.changesProgram c = false

theorem KeptPrograms.refl (cs : List GlCall) : KeptPrograms cs cs := ⟨[], (List.append_nil cs).symm, nofun⟩

theorem KeptPrograms.append {cs calls new : List GlCall} (h : KeptPrograms cs calls)
    (hnew : ∀ c ∈ new, GlCall.changesProgram c = false) : KeptPrograms cs (calls ++ new) := by
  obtain ⟨old, rfl, hold⟩ := h
  refine ⟨old ++ new, List.append_assoc .., fun c hc => ?_⟩
  cases List.mem_append.mp hc with
  | inl hc => exact hold c hc
  | inr hc => exact hnew c hc

namespace GlBaseTechnique

/-- What a technique issues, with the locations behind `cs`. -/
def drawn (gl : Driver) (cs : List GlCall) (locks : Locks) (m : Matrices) (r : RenderingState) :
    List GlCall :=
  (render (gl.frozen cs) locks m { calls := [], rendering := r }).calls

theorem changesProgram_uniformCalls {location : UInt32} {u : UniformVariable} :
    ∀ c ∈ uniformCalls location u, GlCall.changesProgram c = false := by
  unfold uniformCalls
  split
  · split
    · simp [GlCall.changesProgram]
    · exact nofun
  · simp [GlCall.changesProgram]

theorem changesProgram_drawCalls {elementArrayBuffer : Option GLuint} {r : RenderingState} :
    ∀ c ∈ drawCalls elementArrayBuffer r, GlCall.changesProgram c = false := by
  unfold drawCalls
  split
  · simp [GlCall.changesProgram]
  · simp [GlCall.changesProgram]
  · exact nofun

-- ---------------------------------------------------------------------------
-- Threads that have issued more
-- ---------------------------------------------------------------------------

/-- The first thread has issued `base` before, and no program has been changed behind `cs`. -/
structure Extends (cs base : List GlCall) (t t' : Thread RenderingState) : Prop where
  calls : t.calls = base ++ t'.calls
  rendering : t.rendering = t'.rendering
  programs : KeptPrograms cs t.calls

namespace Extends

variable {gl : Driver} {cs base : List GlCall} {t t' : Thread RenderingState} {locks : Locks} {m : Matrices}
  {programId : GLuint}

theorem issueAll (h : Extends cs base t t') (new : List GlCall)
    (hnew : ∀ c ∈ new, GlCall.changesProgram c = false) :
    Extends cs base (t.issueAll new) (t'.issueAll new) where
  calls := by rw [Thread.calls_issueAll, Thread.calls_issueAll, h.calls, List.append_assoc]
  rendering := h.rendering
  programs := h.programs.append hnew

theorem location (h : Extends cs base t t') (hgl : gl.KeepsLocations) (name : Bytes) :
    gl.value t.calls (.getUniformLocation programId name) =
      (gl.frozen cs).value t'.calls (.getUniformLocation programId name) := by
  obtain ⟨new, hcalls, hnew⟩ := h.programs
  rw [hcalls]
  exact hgl cs new programId name hnew

theorem uniformBuiltIn (h : Extends cs base t t') (hgl : gl.KeepsLocations) (programId : GLuint)
    (u : String × Bytes) :
    Extends cs base (uniformBuiltIn gl programId t u) (uniformBuiltIn (gl.frozen cs) programId t' u) := by
  unfold GlBaseTechnique.uniformBuiltIn
  dsimp only
  rw [h.location hgl]
  apply h.issueAll
  simp [GlCall.changesProgram]

theorem applyUniformVariables (h : Extends cs base t t') (hgl : gl.KeepsLocations) (m : Matrices)
    (programId : GLuint) :
    Extends cs base (applyUniformVariables gl m programId t)
      (applyUniformVariables (gl.frozen cs) m programId t') := by
  unfold GlBaseTechnique.applyUniformVariables
  dsimp only
  have hbuiltIn := List.foldl_rel (r := Extends cs base) h
    (l := [("zModel", m.model), ("zView", m.view), ("zProjection", m.projection), ("zVP", m.vp),
      ("zMVP", m.mvp)]) fun u _ _ _ h => h.uniformBuiltIn hgl programId u
  rw [hbuiltIn.rendering]
  apply hbuiltIn.issueAll
  intro c hc
  obtain ⟨e, -, he⟩ := List.mem_flatMap.mp hc
  exact changesProgram_uniformCalls c he

theorem setupTexture (h : Extends cs base t t') (hgl : gl.KeepsLocations) (locks : Locks) (programId : GLuint)
    (e : Σ _ : UInt32, TextureBinding) :
    Extends cs base (setupTexture gl locks programId t e)
      (setupTexture (gl.frozen cs) locks programId t' e) := by
  unfold GlBaseTechnique.setupTexture
  split
  · dsimp only
    rw [h.location hgl]
    split
    · exact h.issueAll _ (by simp [GlCall.changesProgram])
    · exact (h.issueAll _ (by simp [GlCall.changesProgram])).issueAll _ (by simp [GlCall.changesProgram])
  · exact ⟨h.calls, by rw [Thread.assign, Thread.assign, h.rendering], h.programs⟩

theorem setupTextures (h : Extends cs base t t') (hgl : gl.KeepsLocations) (locks : Locks)
    (programId : GLuint) :
    Extends cs base (setupTextures gl locks programId t)
      (setupTextures (gl.frozen cs) locks programId t') := by
  unfold GlBaseTechnique.setupTextures
  rw [h.rendering]
  exact List.foldl_rel h fun e _ _ _ h => h.setupTexture hgl locks programId e

theorem render (h : Extends cs base t t') (hgl : gl.KeepsLocations) (locks : Locks) (m : Matrices) :
    Extends cs base (render gl locks m t) (render (gl.frozen cs) locks m t') := by
  unfold GlBaseTechnique.render
  dsimp only
  rw [h.rendering]
  split
  · exact h
  split
  · split
    · exact h
    split
    · exact h
    · rename_i vertexArrayId programId _ _ _ _
      have hused : Extends cs base (t.issue (.useProgram programId)) (t'.issue (.useProgram programId)) :=
        h.issueAll _ (by simp [GlCall.changesProgram])
      have htextures := (hused.applyUniformVariables hgl m programId).setupTextures hgl locks programId
      have hbound := htextures.issueAll [.bindVertexArray vertexArrayId] (by simp [GlCall.changesProgram])
      exact (hbound.issueAll _ changesProgram_drawCalls).issueAll _ (by simp [GlCall.changesProgram])
  · exact h

end Extends

variable {gl : Driver} {cs : List GlCall} {locks : Locks} {m m' : Matrices} {programId : GLuint}
  {t t' : Thread RenderingState} {r r' : RenderingState}

theorem calls_render (hgl : gl.KeepsLocations) (ht : KeptPrograms cs t.calls) :
    (render gl locks m t).calls = t.calls ++ drawn gl cs locks m t.rendering ∧
      KeptPrograms cs (render gl locks m t).calls := by
  have hempty : Extends cs t.calls t { calls := [], rendering := t.rendering } :=
    ⟨(List.append_nil _).symm, rfl, ht⟩
  have hrender := hempty.render hgl locks m
  exact ⟨hrender.calls, hrender.programs⟩

-- ---------------------------------------------------------------------------
-- Bindings that are forgotten
-- ---------------------------------------------------------------------------

/-- The texture and the sampler of a binding are there. -/
def isBound (locks : Locks) (e : Σ _ : UInt32, TextureBinding) : Bool :=
  (locks.texture e.2.texture).isSome && (locks.sampler e.2.sampler).isSome

theorem setupTexture_of_not_isBound {e : Σ _ : UInt32, TextureBinding} (he : isBound locks e = false) :
    setupTexture gl locks programId t e =
      t.assign fun r => { r with textureBindings := r.textureBindings.erase e.1 } := by
  unfold setupTexture
  split
  · rename_i htexture hsampler
    rw [isBound, htexture, hsampler] at he
    cases he
  · rfl

/-- The calls of an iteration depend on those before it only. -/
theorem calls_setupTexture (h : t.calls = t'.calls) (e : Σ _ : UInt32, TextureBinding) :
    (setupTexture gl locks programId t e).calls = (setupTexture gl locks programId t' e).calls := by
  unfold setupTexture
  split
  · dsimp only
    rw [h]
    split
    · rw [Thread.calls_issueAll, Thread.calls_issueAll, h]
    · simp only [Thread.calls_issueAll, h]
  · exact h

theorem calls_foldl_setupTexture (es : List (Σ _ : UInt32, TextureBinding)) (h : t.calls = t'.calls) :
    (es.foldl (setupTexture gl locks programId) t).calls =
      ((es.filter (isBound locks)).foldl (setupTexture gl locks programId) t').calls := by
  induction es generalizing t t' with
  | nil => exact h
  | cons e es ih =>
    cases he : isBound locks e with
    | true =>
      rw [List.filter_cons_of_pos he]
      exact ih (calls_setupTexture h e)
    | false =>
      rw [List.filter_cons_of_neg (by rw [he]; exact Bool.false_ne_true)]
      apply ih
      rw [setupTexture_of_not_isBound he]
      exact h

theorem calls_setupTextures (hcalls : t.calls = t'.calls)
    (h : t.rendering.textureBindings.entries.filter (isBound locks) =
      t'.rendering.textureBindings.entries.filter (isBound locks)) :
    (setupTextures gl locks programId t).calls = (setupTextures gl locks programId t').calls := by
  unfold setupTextures
  rw [calls_foldl_setupTexture _ rfl, h, calls_foldl_setupTexture _ hcalls.symm]

/-- What is drawn does not depend on bindings that are not used. -/
theorem drawn_of_filter_eq {bindings : AList fun _ : UInt32 => TextureBinding}
    (h : bindings.entries.filter (isBound locks) = r.textureBindings.entries.filter (isBound locks)) :
    drawn gl cs locks m { r with textureBindings := bindings } = drawn gl cs locks m r := by
  unfold drawn render
  dsimp only
  split
  · rfl
  split
  · split
    · rfl
    split
    · rfl
    · rename_i vertexArrayId programId _ _ _ _
      let bound (bindings : AList fun _ : UInt32 => TextureBinding) : Thread RenderingState :=
        applyUniformVariables (gl.frozen cs) m programId
          (Thread.issue { calls := [], rendering := { r with textureBindings := bindings } }
            (.useProgram programId))
      have hcalls : (setupTextures (gl.frozen cs) locks programId (bound bindings)).calls =
          (setupTextures (gl.frozen cs) locks programId (bound r.textureBindings)).calls :=
        calls_setupTextures rfl h
      simp only [Thread.calls_issueAll, Thread.calls_issue]
      rw [hcalls]
      rfl
  · rfl

/-- Bindings have been forgotten that are not used, and nothing else has changed. -/
def ForgetsUnbound (locks : Locks) (r r' : RenderingState) : Prop :=
  ∃ bindings : AList fun _ : UInt32 => TextureBinding, r' = { r with textureBindings := bindings } ∧
    bindings.entries ⊆ r.textureBindings.entries ∧
    bindings.entries.filter (isBound locks) = r.textureBindings.entries.filter (isBound locks)

theorem ForgetsUnbound.refl (locks : Locks) (r : RenderingState) : ForgetsUnbound locks r r :=
  ⟨r.textureBindings, rfl, List.Subset.refl _, rfl⟩

theorem ForgetsUnbound.drawn (h : ForgetsUnbound locks r r') : drawn gl cs locks m r' = drawn gl cs locks m r := by
  obtain ⟨bindings, rfl, -, hfilter⟩ := h
  exact drawn_of_filter_eq hfilter

theorem rendering_setupTexture_of_isBound {e : Σ _ : UInt32, TextureBinding} (he : isBound locks e) :
    (setupTexture gl locks programId t e).rendering = t.rendering := by
  unfold setupTexture
  split
  · dsimp only
    split
    · rfl
    · rfl
  · rename_i hnone
    obtain ⟨htexture, hsampler⟩ := Bool.and_eq_true_iff.mp he
    obtain ⟨_, htexture⟩ := Option.isSome_iff_exists.mp htexture
    obtain ⟨_, hsampler⟩ := Option.isSome_iff_exists.mp hsampler
    exact absurd hsampler (hnone _ _ htexture)

theorem ForgetsUnbound.setupTexture (h : ForgetsUnbound locks r t.rendering)
    {e : Σ _ : UInt32, TextureBinding} (he : e ∈ r.textureBindings.entries) :
    ForgetsUnbound locks r (setupTexture gl locks programId t e).rendering := by
  cases hbound : isBound locks e with
  | true => exact (rendering_setupTexture_of_isBound hbound).symm ▸ h
  | false =>
    obtain ⟨bindings, hrendering, hsub, hfilter⟩ := h
    refine ⟨bindings.erase e.1, ?_, ?_, ?_⟩
    · rw [setupTexture_of_not_isBound hbound, Thread.assign, hrendering]
    · exact List.Subset.trans (List.kerase_sublist _ _).subset hsub
    -- keys are unique, so that what is erased is the binding that is not used
    · refine (AList.filter_entries_erase fun e' he' hkey => ?_).trans hfilter
      rw [r.textureBindings.nodupKeys.eq_of_fst_eq (hsub he') he hkey, hbound]

theorem forgetsUnbound_render (gl : Driver) (locks : Locks) (m : Matrices) (t : Thread RenderingState) :
    ForgetsUnbound locks t.rendering (render gl locks m t).rendering := by
  rcases render_cases gl locks m t with ⟨-, heq⟩ | ⟨programId, vertexArrayId, -, heq⟩
  · rw [heq]
    exact .refl locks t.rendering
  · rw [heq]
    exact setupTextures_invariant (I := fun t' => ForgetsUnbound locks t.rendering t'.rendering)
      (.refl locks t.rendering) fun _ ht' _ he => ht'.setupTexture he

/-- Rendering changes nothing that is drawn. -/
theorem drawn_render :
    drawn gl cs locks m (render gl locks m' t).rendering = drawn gl cs locks m t.rendering :=
  (forgetsUnbound_render gl locks m' t).drawn

end GlBaseTechnique

-- ---------------------------------------------------------------------------
-- Units and objects
-- ---------------------------------------------------------------------------

namespace PoolState

/-- What a rendering unit draws. -/
def unitCalls (gl : Driver) (cs : List GlCall) (s : PoolState) (m : Matrices) (p : WeakPtr) : List GlCall :=
  (s.rendering.technique s.heap p).elim [] fun b =>
    GlBaseTechnique.drawn gl cs (s.rendering.locks s.heap) m (s.rendering.states .glBaseTechniques b)

/-- What a virtual object draws. -/
def objectCalls (gl : Driver) (cs : List GlCall) (s : PoolState) (camera : Camera) (a : Nat) : List GlCall :=
  let r : VirtualObject.RenderingState := s.rendering.states .virtualObjects a
  r.renderingUnits.flatMap (s.unitCalls gl cs (camera r.position r.quaternion))

/-- What a frame draws that begins in a state, with the locations behind `cs`. -/
def frameCalls (gl : Driver) (cs : List GlCall) (s : PoolState) (camera : Camera) : List GlCall :=
  s.rendered.flatMap (s.objectCalls gl cs camera)

/-- The same is drawn in two states. -/
structure DrawsSame (gl : Driver) (cs : List GlCall) (s s' : PoolState) : Prop where
  units : s'.unitCalls gl cs = s.unitCalls gl cs
  objects : s'.objectCalls gl cs = s.objectCalls gl cs
  rendered : s'.rendered = s.rendered

/-- Units and techniques find the same. -/
structure SameSources (s s' : PoolState) : Prop where
  get : ∀ k, k ≠ .virtualObjects → ∀ a, s'.heap.get k a = s.heap.get k a
  states : ∀ k, k ≠ .virtualObjects → k ≠ .glBaseTechniques → ∀ a,
    s'.rendering.states k a = s.rendering.states k a

variable {gl : Driver} {cs : List GlCall} {s s' s'' : PoolState} {m : Matrices} {p : WeakPtr}

theorem DrawsSame.trans (h : DrawsSame gl cs s s') (h' : DrawsSame gl cs s' s'') : DrawsSame gl cs s s'' :=
  ⟨h'.units.trans h.units, h'.objects.trans h.objects, h'.rendered.trans h.rendered⟩

theorem DrawsSame.frameCalls (h : DrawsSame gl cs s s') : s'.frameCalls gl cs = s.frameCalls gl cs := by
  funext camera
  rw [PoolState.frameCalls, PoolState.frameCalls, h.objects, h.rendered]

namespace SameSources

variable (h : SameSources s s')
include h

theorem lock {k : Kind} (hk : k ≠ .virtualObjects) (hk' : k ≠ .glBaseTechniques) {τ : Type}
    (f : RenderingState k → τ) : s'.rendering.lock s'.heap k f = s.rendering.lock s.heap k f := by
  funext p
  unfold Rendering.lock
  simp only [h.get k hk, h.states k hk hk']

theorem locks : s'.rendering.locks s'.heap = s.rendering.locks s.heap := by
  unfold Rendering.locks
  rw [h.lock (by decide) (by decide), h.lock (by decide) (by decide), h.lock (by decide) (by decide),
    h.lock (by decide) (by decide), h.lock (by decide) (by decide)]

theorem technique (p : WeakPtr) : s'.rendering.technique s'.heap p = s.rendering.technique s.heap p := by
  unfold Rendering.technique
  simp only [h.lock (k := .renderingUnits) (by decide) (by decide), h.get .glBaseTechniques (by decide)]

theorem unitCalls (hdrawn : ∀ m b,
    GlBaseTechnique.drawn gl cs (s.rendering.locks s.heap) m (s'.rendering.states .glBaseTechniques b) =
      GlBaseTechnique.drawn gl cs (s.rendering.locks s.heap) m (s.rendering.states .glBaseTechniques b)) :
    s'.unitCalls gl cs = s.unitCalls gl cs := by
  funext m p
  unfold PoolState.unitCalls
  rw [h.technique, h.locks]
  cases s.rendering.technique s.heap p with
  | none => rfl
  | some b => exact hdrawn m b

end SameSources

theorem objectCalls_congr {a : Nat} (hunits : s'.unitCalls gl cs = s.unitCalls gl cs)
    (hobject : s'.rendering.states .virtualObjects a = s.rendering.states .virtualObjects a)
    (camera : Camera) :
    s'.objectCalls gl cs camera a = s.objectCalls gl cs camera a := by
  unfold PoolState.objectCalls
  rw [hobject, hunits]

theorem drawsSame_renderRenderingUnit : DrawsSame gl cs s (s.renderRenderingUnit gl m p) := by
  have hunits : (s.renderRenderingUnit gl m p).unitCalls gl cs = s.unitCalls gl cs := by
    rcases renderRenderingUnit_cases gl s m p with ⟨-, heq⟩ | ⟨b, -, heq⟩
    · rw [heq]
    · rw [heq]
      apply SameSources.unitCalls
      · exact ⟨fun _ _ _ => rfl, fun k _ hk a => Rendering.states_onState_of_ne (.inl hk)⟩
      · intro m' b'
        by_cases hb : b' = b
        · subst hb
          rw [Rendering.states_onState_self]
          exact GlBaseTechnique.drawn_render
        · rw [Rendering.states_onState_of_ne (.inr hb)]
  refine ⟨hunits, ?_, ?_⟩
  · funext camera a
    exact objectCalls_congr hunits (virtualObject_renderRenderingUnit a) camera
  · unfold rendered
    simp only [virtualObjects_renderRenderingUnit, virtualObject_renderRenderingUnit]

theorem unitCalls_of_lock_eq_none (hexpired : s.heap.lock .renderingUnits p = none) :
    s.unitCalls gl cs m p = [] := by
  have hnone : s.rendering.technique s.heap p = none := by
    apply Option.eq_none_iff_forall_ne_some.mpr
    intro b hb
    obtain ⟨a, rfl, halive, -⟩ := Rendering.technique_eq_some.mp hb
    rw [show s.heap.get .renderingUnits a = none by simpa [Heap.lock] using hexpired] at halive
    cases halive
  rw [unitCalls, hnone]
  rfl

/-- A unit that has expired draws nothing, and can be forgotten. -/
theorem drawsSame_setRenderingUnits {a : Nat} {kept rest : List WeakPtr}
    (hunits : VirtualObject.RenderingState.renderingUnits (s.rendering.states .virtualObjects a) =
      kept ++ p :: rest)
    (hexpired : s.heap.lock .renderingUnits p = none) :
    DrawsSame gl cs s (s.setRenderingUnits a (kept ++ rest)) := by
  have hsame : (s.setRenderingUnits a (kept ++ rest)).unitCalls gl cs = s.unitCalls gl cs := by
    apply SameSources.unitCalls
    · refine ⟨fun _ _ _ => rfl, fun k hk _ b => ?_⟩
      rw [setRenderingUnits, Rendering.states_onState_of_ne (.inl hk)]
    · intro m b
      rw [setRenderingUnits, Rendering.states_onState_of_ne (.inl (by decide))]
  have hself : (s.setRenderingUnits a (kept ++ rest)).rendering.states .virtualObjects a =
      ({ (s.rendering.states .virtualObjects a : VirtualObject.RenderingState) with
        renderingUnits := kept ++ rest } : VirtualObject.RenderingState) := by
    rw [setRenderingUnits, Rendering.states_onState_self]
    rfl
  have hother : ∀ b, b ≠ a → (s.setRenderingUnits a (kept ++ rest)).rendering.states .virtualObjects b =
      s.rendering.states .virtualObjects b := by
    intro b hb
    rw [setRenderingUnits, Rendering.states_onState_of_ne (.inr hb)]
  refine ⟨hsame, ?_, ?_⟩
  · funext camera b
    by_cases hb : b = a
    · subst hb
      unfold objectCalls
      dsimp only
      rw [hself, hsame, hunits, List.flatMap_append, List.flatMap_append, List.flatMap_cons,
        unitCalls_of_lock_eq_none hexpired, List.nil_append]
    · exact objectCalls_congr hsame (hother b hb) camera
  · unfold rendered
    apply List.filter_congr
    intro b _
    by_cases hb : b = a
    · subst hb
      rw [hself]
    · rw [hother b hb]

/-- What a traversal removes is not rendered any more. -/
theorem drawsSame_forEachVirtualObject (h : s.Owned) : DrawsSame gl cs s s.forEachVirtualObject := by
  have hrendering := (grows_forEachVirtualObject s).rendering
  have hunits : s.forEachVirtualObject.unitCalls gl cs = s.unitCalls gl cs := by
    apply SameSources.unitCalls
    · refine ⟨fun k hk a => ?_, fun k _ _ a => by rw [hrendering]⟩
      rw [Frames.get_forEachVirtualObject]
      split
      · rename_i hremoved
        obtain ⟨e, he, rfl⟩ := List.mem_map.mp hremoved
        obtain ⟨o, ho⟩ := h.virtualObjects e (List.mem_of_mem_filter he)
        exact (Option.eq_none_iff_forall_ne_some.mpr fun x hx => hk (Heap.kind_eq_of_get hx ho)).symm
      · rfl
    · intro m b
      rw [hrendering]
  refine ⟨hunits, ?_, ?_⟩
  · funext camera a
    exact objectCalls_congr hunits (by rw [hrendering]) camera
  · unfold rendered
    rw [hrendering]
    congr 2
    rw [virtualObjects_forEachVirtualObject]
    simp [LoopContainer.applyChanges, LoopContainer.owned]

theorem calls_renderRenderingUnit (hgl : gl.KeepsLocations) (hcs : KeptPrograms cs s.rendering.calls) :
    (s.renderRenderingUnit gl m p).rendering.calls = s.rendering.calls ++ s.unitCalls gl cs m p ∧
      KeptPrograms cs (s.renderRenderingUnit gl m p).rendering.calls := by
  rcases renderRenderingUnit_cases gl s m p with ⟨hnone, heq⟩ | ⟨b, hb, heq⟩
  · rw [heq, unitCalls, hnone]
    exact ⟨(List.append_nil _).symm, hcs⟩
  · rw [heq, unitCalls, hb]
    exact GlBaseTechnique.calls_render
      (t := ⟨s.rendering.calls, s.rendering.states .glBaseTechniques b, []⟩) hgl hcs

end PoolState

-- ---------------------------------------------------------------------------
-- Frames
-- ---------------------------------------------------------------------------

/-- What is left to be drawn in a frame. -/
def Frame.rest (gl : Driver) (cs : List GlCall) (s : PoolState) (f : Frame) : List GlCall :=
  (f.units.elim [] fun u => u.rest.flatMap (s.unitCalls gl cs u.matrices)) ++
    f.objects.flatMap (s.objectCalls gl cs f.camera)

theorem PoolState.DrawsSame.rest {gl : Driver} {cs : List GlCall} {s s' : PoolState}
    (h : s.DrawsSame gl cs s') (f : Frame) : f.rest gl cs s' = f.rest gl cs s := by
  rw [Frame.rest, Frame.rest, h.units, h.objects]

namespace Frames

def State.rest (gl : Driver) (cs : List GlCall) (s : State) : List GlCall :=
  s.frame.elim [] (Frame.rest gl cs s.pool)

/-- A step of a frame, or a frame that begins. -/
def Label.isOfFrame : Label → Bool
  | .render _ | .next => true
  | .request _ | .newSession | .executeNext => false

def Label.camera : Label → Option Camera
  | .render camera => some camera
  | .request _ | .newSession | .executeNext | .next => none

variable {gl : Driver} {cs : List GlCall} {s s' : State} {l : Label}

theorem isOfFrame_of_isRendering (hrendering : l.isRendering) (hexecute : l.isExecuteNext = false) :
    l.isOfFrame := by
  cases l with
  | request _ | newSession => cases hrendering
  | executeNext => cases hexecute
  | render _ | next => rfl

theorem filterMap_camera_filter (ls : List Label) :
    (ls.filter Label.isRendering).filterMap Label.camera = ls.filterMap Label.camera := by
  rw [List.filterMap_filter]
  apply List.filterMap_congr
  intro l _
  cases l with
  | request _ | newSession | executeNext | render _ | next => rfl

/-- An iteration issues what it takes away from what is left. -/
theorem calls_iterated (hgl : gl.KeepsLocations) {p : PoolState} {f : Frame} (hf : f.Sound p)
    (hcs : KeptPrograms cs p.rendering.calls) {out : PoolState × Option Frame} (hout : f.Iterated gl p out) :
    p.DrawsSame gl cs out.1 ∧ KeptPrograms cs out.1.rendering.calls ∧
      out.1.rendering.calls ++ State.rest gl cs ⟨out.1, out.2⟩ = p.rendering.calls ++ f.rest gl cs p := by
  have hrefl : p.DrawsSame gl cs p := ⟨rfl, rfl, rfl⟩
  cases hout with
  | @render u unit rest hunits hrest halive =>
    have hsame : p.DrawsSame gl cs (p.renderRenderingUnit gl u.matrices unit) :=
      PoolState.drawsSame_renderRenderingUnit
    obtain ⟨hcalls, hprograms⟩ := PoolState.calls_renderRenderingUnit hgl hcs
    refine ⟨hsame, hprograms, ?_⟩
    show _ ++ Frame.rest gl cs _ _ = _
    rw [hsame.rest, hcalls, Frame.rest, Frame.rest, hunits]
    simp only [Option.elim_some, hrest, List.flatMap_cons, List.append_assoc]
  | @forget u unit rest hunits hrest hexpired =>
    have hsame : p.DrawsSame gl cs (p.setRenderingUnits u.object (u.kept ++ rest)) := by
      apply PoolState.drawsSame_setRenderingUnits _ hexpired
      rw [hf.units u hunits, hrest]
    refine ⟨hsame, hcs, ?_⟩
    show _ ++ Frame.rest gl cs _ _ = _
    rw [hsame.rest, Frame.rest, Frame.rest, hunits]
    simp only [Option.elim_some, hrest, List.flatMap_cons, PoolState.unitCalls_of_lock_eq_none hexpired,
      List.nil_append]
    rfl
  | @close u hunits hrest =>
    refine ⟨hrefl, hcs, ?_⟩
    show _ ++ Frame.rest gl cs _ _ = _
    rw [Frame.rest, Frame.rest, hunits]
    simp only [Option.elim_some, Option.elim_none, hrest, List.flatMap_nil]
  | @openObject a objects hunits hobjects =>
    refine ⟨hrefl, hcs, ?_⟩
    show _ ++ Frame.rest gl cs _ _ = _
    rw [Frame.rest, Frame.rest, hunits, hobjects]
    simp only [Option.elim_some, Option.elim_none, List.flatMap_cons, List.nil_append]
    rfl
  | finish hunits hobjects =>
    refine ⟨hrefl, hcs, ?_⟩
    show _ ++ [] = _
    rw [Frame.rest, hunits, hobjects]
    rfl

/-- Frames have gone on since `s`. -/
structure Draws (gl : Driver) (cs : List GlCall) (s s' : State) : Prop where
  inv : Inv s'
  same : s.pool.DrawsSame gl cs s'.pool
  programs : KeptPrograms cs s'.pool.rendering.calls

theorem Draws.step {s₀ : State} (hgl : gl.KeepsLocations) (h : Draws gl cs s₀ s) (hl : l.isOfFrame)
    (hstep : (machine gl).step s l = some s') : Draws gl cs s₀ s' ∧
      s'.pool.rendering.calls ++ s'.rest gl cs = s.pool.rendering.calls ++ s.rest gl cs ++
        l.camera.elim [] (s₀.pool.frameCalls gl cs) := by
  have hinv := h.inv.step hstep
  cases step_iff.mp hstep with
  | request _ | newSession _ | executeNext _ _ => cases hl
  | render hframe camera =>
    have hrendering := (PoolState.grows_forEachVirtualObject s.pool).rendering
    have hsame : s.pool.DrawsSame gl cs s.pool.forEachVirtualObject :=
      PoolState.drawsSame_forEachVirtualObject h.inv.owned
    refine ⟨⟨hinv, h.same.trans hsame, hrendering ▸ h.programs⟩, ?_⟩
    have hrest : State.rest gl cs ⟨s.pool.forEachVirtualObject,
        some { camera := camera, objects := s.pool.rendered }⟩ = s₀.pool.frameCalls gl cs camera := by
      show Frame.rest gl cs _ _ = _
      rw [hsame.rest, ← h.same.frameCalls]
      rfl
    rw [hrest, hrendering, State.rest, hframe, Option.elim_none, List.append_nil]
    rfl
  | @next f hframe =>
    obtain ⟨hsame, hprograms, hcalls⟩ :=
      calls_iterated hgl (h.inv.frame f hframe) h.programs (f.iterated_next gl s.pool)
    refine ⟨⟨hinv, h.same.trans hsame, hprograms⟩, ?_⟩
    rw [hcalls, State.rest, hframe]
    exact (List.append_nil _).symm

theorem Draws.run {s₀ : State} (hgl : gl.KeepsLocations) {ls : List Label} (h : Draws gl cs s₀ s)
    (hls : ∀ l ∈ ls, l.isOfFrame) (hrun : (machine gl).runFrom s ls = some s') :
    s'.pool.rendering.calls ++ s'.rest gl cs = s.pool.rendering.calls ++ s.rest gl cs ++
      (ls.filterMap Label.camera).flatMap (s₀.pool.frameCalls gl cs) := by
  induction ls generalizing s with
  | nil =>
    cases hrun
    exact (List.append_nil _).symm
  | cons l ls ih =>
    obtain ⟨t, ht, hrest⟩ := Option.bind_eq_some_iff.mp hrun
    obtain ⟨hl, hls⟩ := List.forall_mem_cons.mp hls
    obtain ⟨hdraws, hcalls⟩ := h.step hgl hl ht
    rw [ih hdraws hls hrest, hcalls]
    cases hcamera : l.camera with
    | none => rw [List.filterMap_cons_none hcamera, Option.elim_none, List.append_nil]
    | some camera =>
      rw [List.filterMap_cons_some hcamera, List.flatMap_cons, Option.elim_some]
      simp only [List.append_assoc]

/-- What frames draw is a function of the state that the first of them begins in and of their
cameras. Requests that delete nothing may be handled meanwhile. -/
theorem draws_run {before ls : List Label} (hgl : gl.KeepsLocations)
    (hreach : (machine gl).run before = some s) (hframe : s.frame = none)
    (hkeeps : ∀ l ∈ ls, ¬ l.Deletes) (hexecutes : ∀ l ∈ ls, l.isExecuteNext = false)
    (hrun : (machine gl).runFrom s ls = some s') :
    ∃ rest, s'.pool.rendering.calls ++ rest = s.pool.rendering.calls ++
        (ls.filterMap Label.camera).flatMap (s.pool.frameCalls gl s.pool.rendering.calls) ∧
      (s'.frame = none → rest = []) := by
  have hnone : ls.countP Label.isExecuteNext = 0 :=
    List.countP_eq_zero.mpr fun l hl hexecute => Bool.false_ne_true ((hexecutes l hl).symm.trans hexecute)
  have hahead : Ahead ls s s := ⟨.refl (inv_run hreach), hkeeps, hnone ▸ Nat.zero_le _⟩
  obtain ⟨t, halone, ht⟩ := hahead.run hrun
  have hdraws : Draws gl s.pool.rendering.calls s s := ⟨inv_run hreach, ⟨rfl, rfl, rfl⟩, .refl _⟩
  have hofFrame : ∀ l ∈ ls.filter Label.isRendering, l.isOfFrame := by
    intro l hl
    obtain ⟨hmem, hrendering⟩ := List.mem_filter.mp hl
    exact isOfFrame_of_isRendering hrendering (hexecutes l hmem)
  have hcalls := hdraws.run hgl hofFrame halone
  have hrest : s.rest gl s.pool.rendering.calls = [] := by rw [State.rest, hframe, Option.elim_none]
  refine ⟨t.rest gl s.pool.rendering.calls, ?_, fun hframe' => ?_⟩
  · rw [ht.follows.rendering, hcalls, hrest, List.append_nil, filterMap_camera_filter]
  · rw [State.rest, ← ht.follows.frame, hframe', Option.elim_none]

theorem keepsLocations_numberingDriver : numberingDriver.KeepsLocations := by
  intro cs new programId name hnew
  have hkept : .linkProgram programId ∉ new := fun hmem => Bool.noConfusion (hnew _ hmem)
  show (if .linkProgram programId ∈ cs ++ new then name.length.toInt32 else -1) =
    if .linkProgram programId ∈ cs then name.length.toInt32 else -1
  simp only [List.mem_append, hkept, or_false]

/-- Two cameras see the triangle, one of them while another unit is added to it. The first
frame forgets what is gone. -/
def drawnTwice : List Label :=
  [.render fun _ _ => ⟨[], [], [], [], []⟩, .next, .next, .request (.renderingUnitNew 13 1), .next, .next,
    .next, .render fun p q => ⟨p, q, [], [], []⟩, .next, .next, .next, .next]

theorem draws_drawnTwice : ∃ s s',
    (machine numberingDriver).run (triangleCommitted ++ List.replicate 16 .executeNext) = some s ∧
    (machine numberingDriver).runFrom s drawnTwice = some s' ∧
    s'.pool.rendering.calls.count (.drawArrays 4 0 3) = 2 ∧ s'.frame = none ∧
    ∃ rest, s'.pool.rendering.calls ++ rest = s.pool.rendering.calls ++ (drawnTwice.filterMap Label.camera).flatMap
        (s.pool.frameCalls numberingDriver s.pool.rendering.calls) ∧
      (s'.frame = none → rest = []) := by
  have hreach : (machine numberingDriver).run (triangleCommitted ++ List.replicate 16 .executeNext) = some _ := rfl
  have hkeeps : ∀ l ∈ drawnTwice, ¬ l.Deletes := by
    simp [drawnTwice, Label.Deletes, Request.deletes]
  have hexecutes : ∀ l ∈ drawnTwice, l.isExecuteNext = false := by
    simp [drawnTwice, Label.isExecuteNext]
  exact ⟨_, _, rfl, rfl, by decide, rfl, draws_run keepsLocations_numberingDriver hreach rfl hkeeps hexecutes rfl⟩

end Frames

end ZenRemote.Client
