-- SUMMARY: Frames: how the rendering thread goes through virtual objects and their units while requests come in.
import ZenRemote.Client.Additions
import ZenRemote.Client.Render
import ZenRemote.Lib.Machine

/-!
# Frames

`Remote::Render` traverses the virtual objects and renders those that have been committed,
and a virtual object goes through its rendering units and forgets those that have expired.
The update thread handles requests meanwhile, while closures are executed by the rendering
thread itself, between two frames.
-/

namespace ZenRemote.Client

/-- A `Camera`, by the matrices that it gives for a position and a quaternion. -/
abbrev Camera := Bytes → Bytes → Matrices

/-- `VirtualObject::Render`: `ForEachWeakPtr` has come to `rest`, and has kept `kept`. -/
structure UnitLoop where
  object : Nat
  matrices : Matrices
  kept : List WeakPtr := []
  rest : List WeakPtr

/-- `Remote::Render`, from the first call of the argument of `ForEach`. The
`glEnable(GL_DEPTH_TEST)` before it concerns no object of a session and is left out. -/
structure Frame where
  camera : Camera
  /-- The objects that are left to be rendered. -/
  objects : List Nat
  units : Option UnitLoop := none

namespace PoolState

/-- The virtual objects that a traversal renders. Only closures change `commited`, so it does
not matter at which time of the traversal it is read. -/
def rendered (s : PoolState) : List Nat :=
  (s.virtualObjects.applyChanges.resources.map Prod.snd).filter fun a =>
    VirtualObject.RenderingState.commited (s.rendering.states .virtualObjects a)

def setRenderingUnits (s : PoolState) (a : Nat) (units : List WeakPtr) : PoolState :=
  { s with
    rendering := s.rendering.onState .virtualObjects a fun t =>
      t.assign fun r : VirtualObject.RenderingState => { r with renderingUnits := units } }

end PoolState

namespace Frame

def openObject (s : PoolState) (camera : Camera) (a : Nat) : UnitLoop :=
  let r : VirtualObject.RenderingState := s.rendering.states .virtualObjects a
  { object := a, matrices := camera r.position r.quaternion, rest := r.renderingUnits }

/-- An iteration of one of the loops, or the end of one. -/
def next (gl : Driver) (s : PoolState) (f : Frame) : PoolState × Option Frame :=
  match f.units with
  | some u =>
    match u.rest with
    | p :: rest =>
      if (s.heap.lock .renderingUnits p).isSome then
        (s.renderRenderingUnit gl u.matrices p,
          some { f with units := some { u with kept := u.kept ++ [p], rest := rest } })
      else
        (s.setRenderingUnits u.object (u.kept ++ rest),
          some { f with units := some { u with rest := rest } })
    | [] => (s, some { f with units := none })
  | none =>
    match f.objects with
    | a :: objects => (s, some { f with objects := objects, units := some (openObject s f.camera a) })
    | [] => (s, none)

end Frame

/-- What `next` does. -/
inductive Frame.Iterated (gl : Driver) (s : PoolState) (f : Frame) : PoolState × Option Frame → Prop
  | render {u : UnitLoop} {p : WeakPtr} {rest : List WeakPtr} (hunits : f.units = some u)
      (hrest : u.rest = p :: rest) (halive : (s.heap.lock .renderingUnits p).isSome) :
      Iterated gl s f (s.renderRenderingUnit gl u.matrices p,
        some { f with units := some { u with kept := u.kept ++ [p], rest := rest } })
  | forget {u : UnitLoop} {p : WeakPtr} {rest : List WeakPtr} (hunits : f.units = some u)
      (hrest : u.rest = p :: rest) (hexpired : s.heap.lock .renderingUnits p = none) :
      Iterated gl s f (s.setRenderingUnits u.object (u.kept ++ rest),
        some { f with units := some { u with rest := rest } })
  | close {u : UnitLoop} (hunits : f.units = some u) (hrest : u.rest = []) :
      Iterated gl s f (s, some { f with units := none })
  | openObject {a : Nat} {objects : List Nat} (hunits : f.units = none)
      (hobjects : f.objects = a :: objects) : Iterated gl s f
        (s, some { f with objects := objects, units := some (openObject s f.camera a) })
  | finish (hunits : f.units = none) (hobjects : f.objects = []) : Iterated gl s f (s, none)

theorem Frame.iterated_next (gl : Driver) (s : PoolState) (f : Frame) : f.Iterated gl s (f.next gl s) := by
  unfold next
  split
  · rename_i u hunits
    split
    · rename_i p rest hrest
      split
      · rename_i halive
        exact .render hunits hrest halive
      · rename_i hexpired
        exact .forget hunits hrest (Option.not_isSome_iff_eq_none.mp hexpired)
    · rename_i hrest
      exact .close hunits hrest
  · rename_i hunits
    split
    · rename_i a objects hobjects
      exact .openObject hunits hobjects
    · rename_i hobjects
      exact .finish hunits hobjects

namespace Frames

structure State where
  pool : PoolState
  /-- The frame that the rendering thread is in. -/
  frame : Option Frame := none

inductive Label where
  | request (r : Request)
  /-- The session is replaced. A frame goes on with the pool that it has begun with, which no
  request reaches any more, so a session that is replaced during a frame is replaced after it. -/
  | newSession
  | executeNext
  /-- `ForEach` begins. Its two sections with the new objects and the removals are one step. -/
  | render (camera : Camera)
  | next

namespace State

def step (gl : Driver) (s : State) : Label → Option State
  | .request r => (s.pool.handle r).toOption.map fun pool => { s with pool := pool }
  | .newSession =>
    match s.frame with
    | none => some { s with pool := s.pool.destroyPool }
    | some _ => none
  | .executeNext =>
    match s.frame with
    | none => (s.pool.executeNext gl).map fun pool => { s with pool := pool }
    | some _ => none
  | .render camera =>
    match s.frame with
    | none => some ⟨s.pool.forEachVirtualObject, some { camera := camera, objects := s.pool.rendered }⟩
    | some _ => none
  | .next => s.frame.map fun f => ⟨(f.next gl s.pool).1, (f.next gl s.pool).2⟩

end State

def machine (gl : Driver) : Machine State Label where
  init := { pool := (poolMachine gl).init }
  step s l := s.step gl l

/-- What a step can do. -/
inductive Stepped (gl : Driver) (s : State) : Label → State → Prop
  | request {r : Request} {pool : PoolState} (h : s.pool.handle r = .ok pool) :
      Stepped gl s (.request r) { s with pool := pool }
  | newSession (hframe : s.frame = none) : Stepped gl s .newSession { s with pool := s.pool.destroyPool }
  | executeNext (hframe : s.frame = none) {pool : PoolState} (h : s.pool.executeNext gl = some pool) :
      Stepped gl s .executeNext { s with pool := pool }
  | render (hframe : s.frame = none) (camera : Camera) : Stepped gl s (.render camera)
      ⟨s.pool.forEachVirtualObject, some { camera := camera, objects := s.pool.rendered }⟩
  | next {f : Frame} (hframe : s.frame = some f) :
      Stepped gl s .next ⟨(f.next gl s.pool).1, (f.next gl s.pool).2⟩

variable {gl : Driver} {s s' : State} {l : Label}

theorem step_iff : (machine gl).step s l = some s' ↔ Stepped gl s l s' := by
  constructor
  · intro h
    change s.step gl l = some s' at h
    cases l with
    | request r =>
      obtain ⟨pool, hpool, rfl⟩ := Option.map_eq_some_iff.mp h
      exact .request (PoolState.toOption_eq_some hpool)
    | newSession =>
      cases hframe : s.frame with
      | none =>
        simp only [State.step, hframe, Option.some.injEq] at h
        exact h ▸ hframe ▸ .newSession hframe
      | some f => simp [State.step, hframe] at h
    | executeNext =>
      cases hframe : s.frame with
      | none =>
        simp only [State.step, hframe] at h
        obtain ⟨pool, hpool, rfl⟩ := Option.map_eq_some_iff.mp h
        exact hframe ▸ .executeNext hframe hpool
      | some f => simp [State.step, hframe] at h
    | render camera =>
      cases hframe : s.frame with
      | none =>
        simp only [State.step, hframe, Option.some.injEq] at h
        exact h ▸ .render hframe camera
      | some f => simp [State.step, hframe] at h
    | next =>
      obtain ⟨f, hframe, rfl⟩ := Option.map_eq_some_iff.mp h
      exact .next hframe
  · intro h
    show s.step gl l = some s'
    cases h with
    | request h => simp [State.step, h, Except.toOption]
    | newSession hframe => simp [State.step, hframe]
    | executeNext hframe h => simp [State.step, hframe, h]
    | render hframe camera => simp [State.step, hframe]
    | next hframe => simp [State.step, hframe]

end Frames

-- ---------------------------------------------------------------------------
-- What a technique draws
-- ---------------------------------------------------------------------------

namespace GlBaseTechnique

variable {gl : Driver} {locks locks' : Locks} {m : Matrices} {t : Thread RenderingState}

/-- The same is found for what a rendering state refers to. -/
structure Locks.AgreeOn (locks locks' : Locks) (r : RenderingState) : Prop where
  vertexArray : locks.vertexArray r.vertexArray = locks'.vertexArray r.vertexArray
  program : locks.program r.program = locks'.program r.program
  elementArrayBuffer :
    locks.elementArrayBuffer r.elementArrayBuffer = locks'.elementArrayBuffer r.elementArrayBuffer
  texture : ∀ e ∈ r.textureBindings.entries, locks.texture e.2.texture = locks'.texture e.2.texture
  sampler : ∀ e ∈ r.textureBindings.entries, locks.sampler e.2.sampler = locks'.sampler e.2.sampler

theorem render_congr (h : locks.AgreeOn locks' t.rendering) : render gl locks m t = render gl locks' m t := by
  have htextures : ∀ programId (t' : Thread RenderingState), t'.rendering = t.rendering →
      setupTextures gl locks programId t' = setupTextures gl locks' programId t' := by
    intro programId t' ht'
    apply List.foldl_ext
    intro t'' e he
    rw [ht'] at he
    unfold setupTexture
    rw [h.texture e he, h.sampler e he]
  unfold render
  dsimp only
  rw [h.vertexArray, h.program, h.elementArrayBuffer]
  cases locks'.vertexArray t.rendering.vertexArray with
  | none => rfl
  | some vertexArrayId =>
    cases locks'.program t.rendering.program with
    | none => rfl
    | some programId =>
      dsimp only
      rw [htextures programId (applyUniformVariables gl m programId (t.issue (.useProgram programId))) rfl]

end GlBaseTechnique

namespace Rendering

variable {R : Rendering} {h h' : Heap Object} {k : Kind} {τ : Type} {f : RenderingState k → τ} {p : WeakPtr}

/-- The locks of a technique find the same. -/
theorem locks_carried (hh' : Carried h h') {r : GlBaseTechnique.RenderingState}
    (hr : Below h.next (RenderingState.pointers (k := .glBaseTechniques) r)) :
    (R.locks h').AgreeOn (R.locks h) r := by
  have hbinding : ∀ e ∈ r.textureBindings.entries, ∀ p ∈ [e.2.texture, e.2.sampler],
      Below h.next [p] := fun e he p hp =>
    hr.of_mem (List.mem_append_right _ (List.mem_flatMap.mpr ⟨e, he, hp⟩))
  refine ⟨lock_carried hh' ?_, lock_carried hh' ?_, lock_carried hh' ?_,
    fun e he => lock_carried hh' (hbinding e he _ (by simp)),
    fun e he => lock_carried hh' (hbinding e he _ (by simp))⟩
  · exact hr.of_mem (mem_pointers_renderingState.mpr (.inr (.inr (.inl rfl))))
  · exact hr.of_mem (mem_pointers_renderingState.mpr (.inr (.inl rfl)))
  · exact hr.of_mem (mem_pointers_renderingState.mpr (.inl rfl))

/-- The technique that a rendering unit renders. -/
def technique (R : Rendering) (h : Heap Object) (p : WeakPtr) : Option Nat :=
  (R.lock h .renderingUnits RenderingUnit.RenderingState.glBaseTechnique p).join.filter fun b =>
    (h.get .glBaseTechniques b).isSome

theorem technique_eq_some {b : Nat} : R.technique h p = some b ↔
    ∃ a, p = some a ∧ (h.get .renderingUnits a).isSome ∧
      RenderingUnit.RenderingState.glBaseTechnique (R.states .renderingUnits a) = some b ∧
      (h.get .glBaseTechniques b).isSome := by
  rw [technique, Option.filter_eq_some_iff, Option.join_eq_some_iff, lock_eq_some]
  constructor
  · rintro ⟨⟨a, ha, hunit, heq⟩, htechnique⟩
    exact ⟨a, ha, hunit, heq, htechnique⟩
  · rintro ⟨a, ha, hunit, heq, htechnique⟩
    exact ⟨⟨a, ha, hunit, heq⟩, htechnique⟩

theorem technique_carried (hh' : Carried h h') (hp : Below h.next [p])
    (hR : ∀ a, Below h.next (R.states .renderingUnits a).pointers) :
    R.technique h' p = R.technique h p := by
  rw [technique, technique, lock_carried hh' hp]
  cases htechnique : (R.lock h .renderingUnits RenderingUnit.RenderingState.glBaseTechnique p).join with
  | none => rfl
  | some b =>
    obtain ⟨a, -, -, hb⟩ := lock_eq_some.mp (Option.join_eq_some_iff.mp htechnique)
    rw [Option.filter_some, Option.filter_some, hh'.isSome_get (hR a b (List.mem_singleton.mpr hb.symm))]

end Rendering

namespace PoolState

variable {gl : Driver} {s s' : PoolState} {m : Matrices} {p : WeakPtr}

/-- Rendering a unit renders its technique, or does nothing. -/
theorem renderRenderingUnit_cases (gl : Driver) (s : PoolState) (m : Matrices) (p : WeakPtr) :
    (s.rendering.technique s.heap p = none ∧ s.renderRenderingUnit gl m p = s) ∨
    ∃ b, s.rendering.technique s.heap p = some b ∧ s.renderRenderingUnit gl m p = { s with
      rendering := s.rendering.onState .glBaseTechniques b
        (GlBaseTechnique.render gl (s.rendering.locks s.heap) m) } := by
  cases htechnique : s.rendering.technique s.heap p with
  | some b =>
    obtain ⟨a, rfl, hunit, hpointer, halive⟩ := Rendering.technique_eq_some.mp htechnique
    obtain ⟨x, hx⟩ := Option.isSome_iff_exists.mp hunit
    obtain ⟨y, hy⟩ := Option.isSome_iff_exists.mp halive
    refine .inr ⟨b, rfl, ?_⟩
    rw [renderRenderingUnit, withLock_of_get rfl hx, renderGlBaseTechnique, withLock_of_get hpointer hy]
  | none =>
    refine .inl ⟨rfl, ?_⟩
    apply withLock_induction (motive := (· = s)) rfl
    intro a x hp hx
    apply withLock_induction (motive := (· = s)) rfl
    intro b y hpointer hy
    have hsome := Rendering.technique_eq_some.mpr
      ⟨a, hp, Option.isSome_iff_exists.mpr ⟨x, hx⟩, hpointer, Option.isSome_iff_exists.mpr ⟨y, hy⟩⟩
    cases htechnique.symm.trans hsome

theorem rendering_renderRenderingUnit_carried (h : Pointed s) (hh' : Carried s.heap s'.heap)
    (hrendering : s'.rendering = s.rendering) (hp : Below s.heap.next [p]) :
    (s'.renderRenderingUnit gl m p).rendering = (s.renderRenderingUnit gl m p).rendering := by
  have htechnique := Rendering.technique_carried hh' hp (h.rendering .renderingUnits)
  rcases renderRenderingUnit_cases gl s m p with ⟨hnone, heq⟩ | ⟨b, hb, heq⟩
  · rcases renderRenderingUnit_cases gl s' m p with ⟨-, heq'⟩ | ⟨b', hb', -⟩
    · rw [heq, heq', hrendering]
    · rw [hrendering, htechnique, hnone] at hb'
      cases hb'
  · rcases renderRenderingUnit_cases gl s' m p with ⟨hnone', -⟩ | ⟨b', hb', heq'⟩
    · rw [hrendering, htechnique, hb] at hnone'
      cases hnone'
    · rw [hrendering, htechnique, hb] at hb'
      cases hb'
      rw [heq, heq', hrendering]
      refine Rendering.onState_eq_iff.mpr (GlBaseTechnique.render_congr ?_)
      exact Rendering.locks_carried hh' (h.rendering .glBaseTechniques b)

end PoolState

-- ---------------------------------------------------------------------------
-- What a frame refers to
-- ---------------------------------------------------------------------------

/-- A frame goes through what has been made, and a loop over units through those of its object. -/
structure Frame.Sound (s : PoolState) (f : Frame) : Prop where
  objects : ∀ a ∈ f.objects, a < s.heap.next
  object : ∀ u ∈ f.units, u.object < s.heap.next
  units : ∀ u ∈ f.units, VirtualObject.RenderingState.renderingUnits
    (s.rendering.states .virtualObjects u.object) = u.kept ++ u.rest

namespace GlBaseTechnique

/-- Rendering forgets bindings, and changes nothing else. -/
theorem pointers_render (gl : Driver) (locks : Locks) (m : Matrices) (t : Thread RenderingState) :
    RenderingState.pointers (k := .glBaseTechniques) (render gl locks m t).rendering ⊆
      RenderingState.pointers (k := .glBaseTechniques) t.rendering := by
  rcases render_cases gl locks m t with ⟨-, heq⟩ | ⟨programId, vertexArrayId, -, heq⟩
  · rw [heq]
    exact List.Subset.refl _
  · have htextures : ∀ t₁ : Thread RenderingState, t₁.rendering = t.rendering →
        RenderingState.pointers (k := .glBaseTechniques) (setupTextures gl locks programId t₁).rendering ⊆
          RenderingState.pointers (k := .glBaseTechniques) t.rendering := by
      intro t₁ ht₁
      apply setupTextures_invariant (I := fun t' : Thread RenderingState =>
        RenderingState.pointers (k := .glBaseTechniques) t'.rendering ⊆
          RenderingState.pointers (k := .glBaseTechniques) t.rendering)
      · rw [ht₁]
        exact List.Subset.refl _
      intro t' ht' e _
      unfold setupTexture
      split
      · dsimp only
        split
        · exact ht'
        · exact ht'
      · refine List.Subset.trans (fun p hp => ?_) ht'
        rcases List.mem_append.mp hp with hhead | hbindings
        · exact List.mem_append_left _ hhead
        · exact List.mem_append_right _ (bindingPointers_erase _ _ hbindings)
    rw [heq]
    exact htextures _ rfl

end GlBaseTechnique

namespace PoolState

variable {gl : Driver} {s s' : PoolState} {m : Matrices} {p : WeakPtr}

theorem Owned.of_rendering (h : Owned s) (R : Rendering) : Owned { s with rendering := R } :=
  ⟨h.noVirtualObjects, h.containers, h.virtualObjects, h.nodup⟩

theorem Pointed.renderRenderingUnit (h : Pointed s) : Pointed (s.renderRenderingUnit gl m p) := by
  rcases renderRenderingUnit_cases gl s m p with ⟨-, heq⟩ | ⟨b, hb, heq⟩
  · rw [heq]
    exact h
  · rw [heq]
    obtain ⟨a, -, -, -, halive⟩ := Rendering.technique_eq_some.mp hb
    obtain ⟨x, hx⟩ := Option.isSome_iff_exists.mp halive
    apply h.onState (Heap.lt_next_of_get hx)
    intro t ht
    have hold := h.rendering .glBaseTechniques b
    rw [← ht] at hold
    exact hold.of_subset (GlBaseTechnique.pointers_render gl _ m t)

theorem Pointed.setRenderingUnits (h : Pointed s) {a : Nat} (ha : a < s.heap.next) {units : List WeakPtr}
    (hunits : Below s.heap.next units) : Pointed (s.setRenderingUnits a units) :=
  h.onState ha fun _ _ => hunits

/-- Rendering states are changed at most. -/
theorem exists_rendering_renderRenderingUnit (gl : Driver) (s : PoolState) (m : Matrices) (p : WeakPtr) :
    ∃ R, s.renderRenderingUnit gl m p = { s with rendering := R } := by
  rcases renderRenderingUnit_cases gl s m p with ⟨-, heq⟩ | ⟨b, -, heq⟩
  · exact ⟨s.rendering, heq⟩
  · exact ⟨_, heq⟩

/-- Virtual objects are left as they are. -/
theorem virtualObject_renderRenderingUnit (a : Nat) :
    (s.renderRenderingUnit gl m p).rendering.states .virtualObjects a =
      s.rendering.states .virtualObjects a := by
  rcases renderRenderingUnit_cases gl s m p with ⟨-, heq⟩ | ⟨b, -, heq⟩
  · rw [heq]
  · rw [heq]
    exact Rendering.states_onState_of_ne (.inl (by decide))

theorem heap_renderRenderingUnit : (s.renderRenderingUnit gl m p).heap = s.heap := by
  obtain ⟨R, heq⟩ := exists_rendering_renderRenderingUnit gl s m p
  rw [heq]

theorem virtualObjects_renderRenderingUnit :
    (s.renderRenderingUnit gl m p).virtualObjects = s.virtualObjects := by
  obtain ⟨R, heq⟩ := exists_rendering_renderRenderingUnit gl s m p
  rw [heq]

theorem Counted.renderRenderingUnit (h : Counted s) : Counted (s.renderRenderingUnit gl m p) := by
  obtain ⟨R, heq⟩ := exists_rendering_renderRenderingUnit gl s m p
  rw [heq]
  exact h

theorem Owned.renderRenderingUnit (h : Owned s) : Owned (s.renderRenderingUnit gl m p) := by
  obtain ⟨R, heq⟩ := exists_rendering_renderRenderingUnit gl s m p
  rw [heq]
  exact h.of_rendering R

end PoolState

theorem Frame.Sound.of_same {s s' : PoolState} {f : Frame} (h : f.Sound s)
    (hnext : s.heap.next ≤ s'.heap.next) (hrendering : s'.rendering = s.rendering) : f.Sound s' := by
  refine ⟨fun a ha => Nat.lt_of_lt_of_le (h.objects a ha) hnext,
    fun u hu => Nat.lt_of_lt_of_le (h.object u hu) hnext, ?_⟩
  rw [hrendering]
  exact h.units

namespace Frames

/-- What holds between any two steps. -/
structure Inv (s : State) : Prop where
  owned : s.pool.Owned
  counted : s.pool.Counted
  pointed : s.pool.Pointed
  frame : ∀ f ∈ s.frame, f.Sound s.pool

variable {gl : Driver} {s s' : State} {l : Label}

theorem lt_next_of_rendered {s : PoolState} (h : s.Owned) {a : Nat} (ha : a ∈ s.rendered) :
    a < s.heap.next := by
  obtain ⟨e, he, rfl⟩ := List.mem_map.mp (List.mem_of_mem_filter ha)
  exact h.virtualObject_lt_next (List.mem_of_mem_filter he)

/-- What an iteration keeps. -/
theorem Inv.iterated {f : Frame} (h : Inv s) (hframe : s.frame = some f) {out : PoolState × Option Frame}
    (hout : f.Iterated gl s.pool out) : Inv ⟨out.1, out.2⟩ := by
  have hf := h.frame f hframe
  cases hout with
  | @render u p rest hunits hrest halive =>
    refine ⟨h.owned.renderRenderingUnit, h.counted.renderRenderingUnit, h.pointed.renderRenderingUnit, ?_⟩
    rintro _ ⟨⟩
    have hheap : (s.pool.renderRenderingUnit gl u.matrices p).heap = s.pool.heap :=
      PoolState.heap_renderRenderingUnit
    refine ⟨hheap ▸ hf.objects, ?_, ?_⟩
    · rintro _ ⟨⟩
      exact hheap ▸ hf.object u hunits
    · rintro _ ⟨⟩
      rw [PoolState.virtualObject_renderRenderingUnit, hf.units u hunits, hrest, List.append_assoc]
      rfl
  | @forget u p rest hunits hrest hexpired =>
    have hunit : u.object < s.pool.heap.next := hf.object u hunits
    have hbelow : Below s.pool.heap.next (u.kept ++ rest) := by
      have hall := h.pointed.rendering .virtualObjects u.object
      rw [RenderingState.pointers, hf.units u hunits, hrest] at hall
      apply hall.of_subset
      exact (List.Sublist.append_left (List.sublist_cons_self p rest) u.kept).subset
    refine ⟨h.owned.of_rendering _, h.counted, h.pointed.setRenderingUnits hunit hbelow, ?_⟩
    rintro _ ⟨⟩
    refine ⟨hf.objects, ?_, ?_⟩
    · rintro _ ⟨⟩
      exact hunit
    · rintro _ ⟨⟩
      rw [PoolState.setRenderingUnits, Rendering.states_onState_self]
      rfl
  | close hunits hrest =>
    refine ⟨h.owned, h.counted, h.pointed, ?_⟩
    rintro _ ⟨⟩
    refine ⟨hf.objects, ?_, ?_⟩
    · rintro u ⟨⟩
    · rintro u ⟨⟩
  | @openObject a objects hunits hobjects =>
    refine ⟨h.owned, h.counted, h.pointed, ?_⟩
    rintro _ ⟨⟩
    have hobject := hf.objects
    rw [hobjects] at hobject
    refine ⟨fun b hb => hobject b (List.mem_cons_of_mem _ hb), ?_, ?_⟩
    · rintro _ ⟨⟩
      exact hobject a List.mem_cons_self
    · rintro _ ⟨⟩
      rfl
  | finish hunits hobjects =>
    refine ⟨h.owned, h.counted, h.pointed, ?_⟩
    rintro f' ⟨⟩

theorem Inv.step (h : Inv s) (hstep : (machine gl).step s l = some s') : Inv s' := by
  cases step_iff.mp hstep with
  | @request r pool hr =>
    refine ⟨h.owned.handled (PoolState.handle_cases hr), h.counted.handled (PoolState.handle_cases hr),
      h.pointed.handle h.owned hr, fun f hf => ?_⟩
    exact (h.frame f hf).of_same (PoolState.later_handled (PoolState.handle_cases hr)).next_le
      (PoolState.grows_handled (PoolState.handle_cases hr)).rendering
  | newSession hframe =>
    refine ⟨PoolState.owned_destroyPool _, h.counted.pushes (PoolState.pushes_destroyPool _),
      h.pointed.destroyPool, ?_⟩
    rw [hframe]
    exact nofun
  | @executeNext hframe pool hexecuted =>
    have hpool : (poolMachine gl).step s.pool .executeNext = some pool := hexecuted
    refine ⟨h.owned.step hpool, h.counted.executeNext hexecuted, h.pointed.executeNext hexecuted, ?_⟩
    rw [hframe]
    exact nofun
  | render hframe camera =>
    refine ⟨h.owned.forEachVirtualObject, h.counted.pushes (PoolState.pushes_forEachVirtualObject _),
      h.pointed.forEachVirtualObject, ?_⟩
    rintro f ⟨⟩
    refine ⟨fun a ha => ?_, nofun, nofun⟩
    rw [PoolState.next_forEachVirtualObject]
    exact lt_next_of_rendered h.owned ha
  | @next f hframe => exact h.iterated hframe (f.iterated_next gl s.pool)

theorem inv_init (gl : Driver) : Inv (machine gl).init :=
  ⟨@PoolState.owned_run _ gl [] rfl, rfl, ⟨nofun, nofun, fun k _ _ hb => absurd hb (RenderingState.pointers_initial k),
    fun _ _ _ => rfl⟩, nofun⟩

theorem inv_run {ls : List Label} (hrun : (machine gl).run ls = some s) : Inv s :=
  Machine.run_invariant (inv_init gl) (fun _ _ _ h hstep => h.step hstep) hrun

end Frames

end ZenRemote.Client
