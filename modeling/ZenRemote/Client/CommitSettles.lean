-- SUMMARY: What a commit leaves pending: the data of a buffer that only undamaged vertex arrays refer to.
import ZenRemote.Client.Services

/-!
# What a commit settles

A commit is meant to take along every change of what the object draws with. A
vertex array that has not changed returns early, though, and does not commit its
buffers. Whether data is left behind depends on whether the walk comes to the
buffer by another way.
-/

namespace ZenRemote.Client

/-- The bindings stay, and no flag is set. -/
structure GlBaseTechnique.Clears (t t' : GlBaseTechnique) : Prop where
  program : t'.program = t.program
  vertexArray : t'.vertexArray = t.vertexArray
  elementArrayBuffer : t'.elementArrayBuffer = t.elementArrayBuffer
  drawMethod : t'.drawMethod = t.drawMethod
  textureBindings : t'.textureBindings = t.textureBindings
  drawMethodDamaged : t.drawMethodDamaged = false → t'.drawMethodDamaged = false
  programDamaged : t.programDamaged = false → t'.programDamaged = false
  vertexArrayDamaged : t.vertexArrayDamaged = false → t'.vertexArrayDamaged = false
  textureDamaged : t.textureDamaged = false → t'.textureDamaged = false

theorem GlBaseTechnique.Clears.trans {t t' t'' : GlBaseTechnique} (h : t.Clears t')
    (h' : t'.Clears t'') : t.Clears t'' where
  program := h'.program.trans h.program
  vertexArray := h'.vertexArray.trans h.vertexArray
  elementArrayBuffer := h'.elementArrayBuffer.trans h.elementArrayBuffer
  drawMethod := h'.drawMethod.trans h.drawMethod
  textureBindings := h'.textureBindings.trans h.textureBindings
  drawMethodDamaged := fun ht => h'.drawMethodDamaged (h.drawMethodDamaged ht)
  programDamaged := fun ht => h'.programDamaged (h.programDamaged ht)
  vertexArrayDamaged := fun ht => h'.vertexArrayDamaged (h.vertexArrayDamaged ht)
  textureDamaged := fun ht => h'.textureDamaged (h.textureDamaged ht)

/-- What can become of an object in the walk of a commit. -/
def Object.Clears : {k : Kind} → Object k → Object k → Prop
  | .virtualObjects, o, o' =>
    ∀ p ∈ VirtualObject.renderingUnits o', p ∈ VirtualObject.renderingUnits o
  | .renderingUnits, u, u' => u' = u
  | .glBuffers, b, b' => GlBuffer.dataDamaged b = false → GlBuffer.dataDamaged b' = false
  | .glShaders, _, _ => True
  | .glPrograms, x, x' => GlProgram.shouldLink x = false → GlProgram.shouldLink x' = false
  | .glTextures, t, t' => GlTexture.Clean t → GlTexture.Clean t'
  | .glSamplers, x, x' =>
    GlSampler.parameterCommands x = [] → GlSampler.parameterCommands x' = []
  | .glVertexArrays, v, v' => GlVertexArray.buffers v' = GlVertexArray.buffers v ∧
    (GlVertexArray.damaged v = false → GlVertexArray.damaged v' = false)
  | .glBaseTechniques, t, t' => GlBaseTechnique.Clears t t'

theorem Object.clears_refl : ∀ (k : Kind) (x : Object k), x.Clears x
  | .virtualObjects, _ => fun _ hp => hp
  | .renderingUnits, _ => rfl
  | .glShaders, _ => trivial
  | .glBuffers, _ | .glPrograms, _ | .glTextures, _ | .glSamplers, _ => fun hx => hx
  | .glVertexArrays, _ => ⟨rfl, fun hx => hx⟩
  | .glBaseTechniques, _ => ⟨rfl, rfl, rfl, rfl, rfl, fun hx => hx, fun hx => hx, fun hx => hx,
    fun hx => hx⟩

theorem Object.clears_trans : ∀ (k : Kind) (x y z : Object k), x.Clears y → y.Clears z → x.Clears z
  | .virtualObjects, _, _, _ => fun hxy hyz p hp => hxy p (hyz p hp)
  | .renderingUnits, _, _, _ => fun hxy hyz => Eq.trans hyz hxy
  | .glShaders, _, _, _ => fun _ _ => trivial
  | .glBuffers, _, _, _ | .glPrograms, _, _, _ | .glTextures, _, _, _ | .glSamplers, _, _, _ =>
    fun hxy hyz hx => hyz (hxy hx)
  | .glVertexArrays, _, _, _ => fun hxy hyz =>
    ⟨hyz.1.trans hxy.1, fun hx => hyz.2 (hxy.2 hx)⟩
  | .glBaseTechniques, _, _, _ => GlBaseTechnique.Clears.trans

theorem Object.clears_committed (h : Heap Object) :
    ∀ {k : Kind} (x : Object k), x.Clears (x.committed h)
  | .virtualObjects, _ => fun _ hp => List.mem_of_mem_filter hp
  | .renderingUnits, _ => rfl
  | .glShaders, _ => trivial
  | .glBuffers, b => fun _ => GlBuffer.dataDamaged_committed b
  | .glPrograms, x => fun _ => GlProgram.shouldLink_committed x
  | .glTextures, t => fun _ => GlTexture.clean_committed t
  | .glSamplers, _ => fun _ => rfl
  | .glVertexArrays, v => ⟨GlVertexArray.buffers_committed v, fun _ => GlVertexArray.damaged_committed v⟩
  | .glBaseTechniques, _ =>
    ⟨rfl, rfl, rfl, rfl, rfl, fun _ => rfl, fun _ => rfl, fun _ => rfl, fun _ => rfl⟩

namespace PoolState

variable {s s' : PoolState} {k : Kind} {a : Nat} {h₀ h h' : Heap Object}

/-- A later heap in the walk of a commit. -/
abbrev Clears : Heap Object → Heap Object → Prop := Heap.Related fun _ x y => Object.Clears x y

theorem clears_commitOne (s : PoolState) (k : Kind) (a : Nat) :
    Clears s.heap (s.commitOne k a).heap := by
  rw [heap_commitOne]
  exact Heap.related_modify Object.clears_refl _ fun x _ => Object.clears_committed s.heap x

theorem Walk.clears {K : Kind → Prop} (hwalk : Walk K s s') : Clears s.heap s'.heap := by
  apply hwalk.invariant (I := fun t => Clears s.heap t.heap)
  · intro t k a ht
    exact ht.trans Object.clears_trans (clears_commitOne t k a)
  · exact Heap.Related.refl Object.clears_refl s.heap

-- ---------------------------------------------------------------------------
-- What an object draws with
-- ---------------------------------------------------------------------------

/-- The technique of a live rendering unit of the virtual object at `o`. -/
def DrawsBy (h : Heap Object) (o : Nat) (technique : Nat) (t : GlBaseTechnique) : Prop :=
  ∃ object p u, h.get .virtualObjects o = some object ∧ p ∈ VirtualObject.renderingUnits object ∧
    h.lock .renderingUnits p = some u ∧ RenderingUnit.glBaseTechnique u = some technique ∧
    h.get .glBaseTechniques technique = some t

/-- Nothing is pending of a technique and what it refers to, but for the buffers of
the attributes. -/
structure Done (h : Heap Object) (t : GlBaseTechnique) : Prop where
  drawMethod : t.drawMethodDamaged = false
  program : t.programDamaged = false
  vertexArray : t.vertexArrayDamaged = false
  texture : t.textureDamaged = false
  linked : ∀ x, h.lock .glPrograms t.program = some x → GlProgram.shouldLink x = false
  replayed : ∀ v, h.lock .glVertexArrays t.vertexArray = some v → GlVertexArray.damaged v = false
  elements : t.drawMethod = .elements →
    ∀ b, h.lock .glBuffers t.elementArrayBuffer = some b → GlBuffer.dataDamaged b = false
  textures : ∀ e ∈ t.textureBindings.entries,
    ∀ x, h.lock .glTextures e.2.texture = some x → GlTexture.Clean x
  samplers : ∀ e ∈ t.textureBindings.entries,
    ∀ x, h.lock .glSamplers e.2.sampler = some x → GlSampler.parameterCommands x = []

/-- No live buffer of an attribute has data pending. -/
def Uploaded (h : Heap Object) (v : GlVertexArray) : Prop :=
  ∀ p ∈ v.buffers, ∀ b, h.lock .glBuffers p = some b → GlBuffer.dataDamaged b = false

/-- No change is pending in anything live that the object at `o` draws with. -/
def Settled (h : Heap Object) (o : Nat) : Prop :=
  ∀ technique t, DrawsBy h o technique t → Done h t ∧
    ∀ v, h.lock .glVertexArrays t.vertexArray = some v → Uploaded h v

/-- The walk from the object at `o` comes to the buffer at `b`: through an attribute
of a vertex array that has changed, or as an element buffer. -/
def Reached (h : Heap Object) (o b : Nat) : Prop :=
  ∃ technique t, DrawsBy h o technique t ∧
    ((∃ v, h.lock .glVertexArrays t.vertexArray = some v ∧ GlVertexArray.damaged v = true ∧
      some b ∈ GlVertexArray.buffers v) ∨
    (t.drawMethod = .elements ∧ t.elementArrayBuffer = some b))

/-- The walk comes to every buffer with pending data that an unchanged vertex array
refers to. -/
def ReachesBuffers (h : Heap Object) (o : Nat) : Prop :=
  ∀ technique t v b buffer, DrawsBy h o technique t →
    h.lock .glVertexArrays t.vertexArray = some v → GlVertexArray.damaged v = false →
    some b ∈ GlVertexArray.buffers v → h.get .glBuffers b = some buffer →
    GlBuffer.dataDamaged buffer = true → Reached h o b

/-- A pointer that is locked during the walk could be locked at its start. -/
theorem Clears.lock_of {p : WeakPtr} {y : Object k} (hh : Clears h h') (hy : h'.lock k p = some y) :
    ∃ x, h.lock k p = some x ∧ Object.Clears x y := by
  obtain ⟨a, rfl, hy⟩ := Heap.lock_eq_some.mp hy
  obtain ⟨x, hx, hxy⟩ := hh.exists_get_of hy
  exact ⟨x, Heap.lock_eq_some.mpr ⟨a, rfl, hx⟩, hxy⟩

theorem Clears.exists_lock {p : WeakPtr} {x : Object k} (hh : Clears h h') (hx : h.lock k p = some x) :
    ∃ y, h'.lock k p = some y ∧ Object.Clears x y := by
  obtain ⟨a, rfl, hx⟩ := Heap.lock_eq_some.mp hx
  obtain ⟨y, hy, hxy⟩ := hh.exists_get hx
  exact ⟨y, Heap.lock_eq_some.mpr ⟨a, rfl, hy⟩, hxy⟩

theorem Uploaded.mono {v v' : GlVertexArray} (hv : Uploaded h v) (hh : Clears h h')
    (hbuffers : v'.buffers = v.buffers) : Uploaded h' v' := by
  intro p hp b hb
  obtain ⟨b₀, hb₀, hclears⟩ := hh.lock_of hb
  exact hclears (hv p (hbuffers ▸ hp) b₀ hb₀)

theorem Done.mono {t t' : GlBaseTechnique} (ht : Done h t) (hh : Clears h h')
    (htt' : Object.Clears (k := .glBaseTechniques) t t') : Done h' t' := by
  have hkept : GlBaseTechnique.Clears t t' := htt'
  refine ⟨hkept.drawMethodDamaged ht.drawMethod, hkept.programDamaged ht.program,
    hkept.vertexArrayDamaged ht.vertexArray, hkept.textureDamaged ht.texture, ?_, ?_, ?_, ?_, ?_⟩
  · intro x hx
    rw [hkept.program] at hx
    obtain ⟨x₀, hx₀, hclears⟩ := hh.lock_of hx
    exact hclears (ht.linked x₀ hx₀)
  · intro v hv
    rw [hkept.vertexArray] at hv
    obtain ⟨v₀, hv₀, -, hclears⟩ := hh.lock_of hv
    exact hclears (ht.replayed v₀ hv₀)
  · intro hdraw b hb
    rw [hkept.elementArrayBuffer] at hb
    obtain ⟨b₀, hb₀, hclears⟩ := hh.lock_of hb
    exact hclears (ht.elements (hkept.drawMethod ▸ hdraw) b₀ hb₀)
  · intro e he x hx
    obtain ⟨x₀, hx₀, hclears⟩ := hh.lock_of hx
    exact hclears (ht.textures e (hkept.textureBindings ▸ he) x₀ hx₀)
  · intro e he x hx
    obtain ⟨x₀, hx₀, hclears⟩ := hh.lock_of hx
    exact hclears (ht.samplers e (hkept.textureBindings ▸ he) x₀ hx₀)

-- ---------------------------------------------------------------------------
-- The walk
-- ---------------------------------------------------------------------------

/-- A loop that keeps an invariant and settles one element after the other. -/
theorem foldl_forall {σ τ : Type*} {f : σ → τ → σ} {P : σ → Prop} {Q : τ → σ → Prop} {l : List τ}
    (hP : ∀ s, ∀ x ∈ l, P s → P (f s x)) (hQ : ∀ s, ∀ x ∈ l, P s → Q x (f s x))
    (hkeep : ∀ s x y, Q x s → Q x (f s y)) {s : σ} (hs : P s) :
    P (l.foldl f s) ∧ ∀ x ∈ l, Q x (l.foldl f s) := by
  have hkeeps : ∀ {x} (ys : List τ) {s}, Q x s → Q x (ys.foldl f s) :=
    fun {x} ys {_} hx => List.foldlRecOn ys f hx fun s hx y _ => hkeep s x y hx
  induction l generalizing s with
  | nil => exact ⟨hs, nofun⟩
  | cons x xs ih =>
    have hx := hP s x List.mem_cons_self hs
    have hrest := ih (fun s y hy => hP s y (List.mem_cons_of_mem _ hy))
      (fun s y hy => hQ s y (List.mem_cons_of_mem _ hy)) hx
    refine ⟨hrest.1, fun y hy => ?_⟩
    cases hy with
    | head => exact hkeeps xs (hQ s x List.mem_cons_self hs)
    | tail _ hy => exact hrest.2 y hy

/-- What the walk from the object at `o` has done to the heap `h₀`. -/
structure Progress (h₀ : Heap Object) (o : Nat) (h : Heap Object) : Prop where
  clears : Clears h₀ h
  uploaded : ∀ a v₀ v, h₀.get .glVertexArrays a = some v₀ → GlVertexArray.damaged v₀ = true →
    h.get .glVertexArrays a = some v → GlVertexArray.damaged v = false → Uploaded h v
  untouched : ∀ b, ¬ Reached h₀ o b → h.get .glBuffers b = h₀.get .glBuffers b

variable {o : Nat} {p : WeakPtr} {K : Kind → Prop}

theorem progress_refl (h : Heap Object) (o : Nat) : Progress h o h := by
  refine ⟨Heap.Related.refl Object.clears_refl h, ?_, fun _ _ => rfl⟩
  intro a v₀ v hv₀ hdamaged hv hclean
  rw [hv₀] at hv
  cases hv
  rw [hdamaged] at hclean
  cases hclean

/-- Steps that are not about vertex arrays and buffers. -/
theorem Progress.walk (hs : Progress h₀ o s.heap) (hwalk : Walk K s s') (harrays : ¬ K .glVertexArrays)
    (hbuffers : ¬ K .glBuffers) : Progress h₀ o s'.heap := by
  refine ⟨hs.clears.trans Object.clears_trans hwalk.clears, ?_, fun b hb => ?_⟩
  · intro a v₀ v hv₀ hdamaged hv hclean
    rw [hwalk.get_eq harrays] at hv
    exact (hs.uploaded a v₀ v hv₀ hdamaged hv hclean).mono hwalk.clears rfl
  · rw [hwalk.get_eq hbuffers]
    exact hs.untouched b hb

/-- What a commit of one resource leaves. -/
theorem committed_of_lock {x : Object k}
    (hx : (s.withLock k p fun a _ => s.commitOne k a).heap.lock k p = some x) :
    ∃ x₀, x = Object.committed s.heap x₀ := by
  obtain ⟨a, rfl, hx⟩ := Heap.lock_eq_some.mp hx
  cases hget : s.heap.get k a with
  | none =>
    have hsame : s.withLock k (some a) (fun a _ => s.commitOne k a) = s := by
      apply withLock_induction (motive := fun t => t = s) rfl
      rintro a' x' ⟨⟩ hx'
      rw [hget] at hx'
      cases hx'
    rw [hsame, hget] at hx
    cases hx
  | some x₀ =>
    rw [withLock_of_get rfl hget, heap_commitOne, Heap.get_modify_self, hget] at hx
    exact ⟨x₀, (Option.some.inj hx).symm⟩

theorem Progress.commitGlBuffer (hs : Progress h₀ o s.heap)
    (hreached : ∀ b, p = some b → Reached h₀ o b) : Progress h₀ o (s.commitGlBuffer p).heap := by
  have hwalk := walk_commitGlBuffer s p
  refine ⟨hs.clears.trans Object.clears_trans hwalk.clears, ?_, fun b hb => ?_⟩
  · intro a v₀ v hv₀ hdamaged hv hclean
    rw [hwalk.get_eq (by decide)] at hv
    exact (hs.uploaded a v₀ v hv₀ hdamaged hv hclean).mono hwalk.clears rfl
  · rw [← hs.untouched b hb]
    apply withLock_induction (motive := fun t => t.heap.get .glBuffers b = s.heap.get .glBuffers b) rfl
    intro a x ha _
    have hne : b ≠ a := fun heq => hb (hreached b (heq ▸ ha))
    rw [heap_commitOne, Heap.get_modify_of_ne _ hne]

theorem clean_commitGlBuffer (s : PoolState) (p : WeakPtr) :
    ∀ b, (s.commitGlBuffer p).heap.lock .glBuffers p = some b → GlBuffer.dataDamaged b = false := by
  intro b hb
  obtain ⟨b₀, rfl⟩ := committed_of_lock hb
  exact GlBuffer.dataDamaged_committed b₀

/-- The buffers of a vertex array that has changed. -/
theorem Progress.commitBuffers (hs : Progress h₀ o s.heap) (v : GlVertexArray)
    (hreached : ∀ b, some b ∈ v.buffers → Reached h₀ o b) :
    Progress h₀ o (v.buffers.foldl PoolState.commitGlBuffer s).heap ∧
      Uploaded (v.buffers.foldl PoolState.commitGlBuffer s).heap v := by
  refine foldl_forall (f := PoolState.commitGlBuffer) (P := fun s : PoolState => Progress h₀ o s.heap)
    (Q := fun p (s : PoolState) =>
      ∀ b, s.heap.lock .glBuffers p = some b → GlBuffer.dataDamaged b = false) ?_ ?_ ?_ hs
  · intro s p hp hs
    exact hs.commitGlBuffer fun b hb => hreached b (hb ▸ hp)
  · intro s p _ _
    exact clean_commitGlBuffer s p
  · intro s p q hclean b hb
    obtain ⟨b₀, hb₀, hclears⟩ := (walk_commitGlBuffer s q).clears.lock_of hb
    exact hclears (hclean b₀ hb₀)

/-- A vertex array that has changed, after its buffers. -/
theorem Progress.commitOne_glVertexArrays (hs : Progress h₀ o s.heap)
    (huploaded : ∀ v, s.heap.get .glVertexArrays a = some v → Uploaded s.heap v) :
    Progress h₀ o (s.commitOne .glVertexArrays a).heap := by
  have hclears := clears_commitOne s .glVertexArrays a
  refine ⟨hs.clears.trans Object.clears_trans hclears, ?_, fun b hb => ?_⟩
  · intro a' v₀ v hv₀ hdamaged hv hclean
    obtain ⟨v', hv', hbuffers, -⟩ := hclears.exists_get_of hv
    cases Decidable.em (a' = a) with
    | inl heq => exact (huploaded v' (heq ▸ hv')).mono hclears hbuffers
    | inr hne =>
      have hsame : s.heap.get .glVertexArrays a' = some v := by
        rwa [heap_commitOne, Heap.get_modify_of_ne _ hne] at hv
      exact (hs.uploaded a' v₀ v hv₀ hdamaged hsame hclean).mono hclears rfl
  · rw [heap_commitOne, Heap.get_modify_of_ne_kind _ (by decide)]
    exact hs.untouched b hb

theorem Progress.commitGlVertexArray (hs : Progress h₀ o s.heap)
    (hreached : ∀ v, h₀.lock .glVertexArrays p = some v → GlVertexArray.damaged v = true →
      ∀ b, some b ∈ GlVertexArray.buffers v → Reached h₀ o b) :
    Progress h₀ o (s.commitGlVertexArray p).heap := by
  apply withLock_induction (motive := fun t => Progress h₀ o t.heap) hs
  intro a v hp hv
  split
  · rename_i hdamaged
    obtain ⟨v₀, hv₀, hbuffers, hclears⟩ := hs.clears.exists_get_of hv
    have hdamaged₀ : GlVertexArray.damaged v₀ = true := by
      by_contra hclean
      rw [hclears (Bool.eq_false_iff.mpr hclean)] at hdamaged
      cases hdamaged
    obtain ⟨hfold, huploaded⟩ := hs.commitBuffers v fun b hb =>
      hreached v₀ (Heap.lock_eq_some.mpr ⟨a, hp, hv₀⟩) hdamaged₀ b (hbuffers ▸ hb)
    apply hfold.commitOne_glVertexArrays
    intro v' hv'
    rw [(Walk.foldl walk_commitGlBuffer s v.buffers).get_eq (by decide), hv] at hv'
    cases hv'
    exact huploaded
  · exact hs

theorem replayed_commitGlVertexArray (s : PoolState) (p : WeakPtr) :
    ∀ v, (s.commitGlVertexArray p).heap.lock .glVertexArrays p = some v →
      GlVertexArray.damaged v = false := by
  intro v hv
  obtain ⟨v₀, hv₀, -⟩ := (walk_commitGlVertexArray s p).clears.lock_of hv
  obtain ⟨a, rfl, hget⟩ := Heap.lock_eq_some.mp hv₀
  obtain ⟨a', ha', hv⟩ := Heap.lock_eq_some.mp hv
  cases ha'
  rw [commitGlVertexArray, withLock_of_get rfl hget] at hv
  split at hv
  · rw [heap_commitOne, Heap.get_modify_self] at hv
    obtain ⟨v₁, -, rfl⟩ := Option.map_eq_some_iff.mp hv
    exact GlVertexArray.damaged_committed v₁
  · rename_i hclean
    rw [hget] at hv
    cases hv
    exact Bool.eq_false_iff.mpr hclean

theorem linked_commitGlProgram (s : PoolState) (p : WeakPtr) :
    ∀ x, (s.commitGlProgram p).heap.lock .glPrograms p = some x → GlProgram.shouldLink x = false := by
  intro x hx
  obtain ⟨x₀, hx₀, -⟩ := (walk_commitGlProgram s p).clears.lock_of hx
  obtain ⟨a, rfl, hget⟩ := Heap.lock_eq_some.mp hx₀
  obtain ⟨a', ha', hx⟩ := Heap.lock_eq_some.mp hx
  cases ha'
  rw [commitGlProgram, withLock_of_get rfl hget] at hx
  split at hx
  · rw [heap_commitOne, Heap.get_modify_self] at hx
    obtain ⟨x₁, -, rfl⟩ := Option.map_eq_some_iff.mp hx
    exact GlProgram.shouldLink_committed x₁
  · rename_i hclean
    rw [hget] at hx
    cases hx
    exact Bool.eq_false_iff.mpr hclean

theorem clean_commitElementArrayBuffer (s : PoolState) (t : GlBaseTechnique)
    (hdraw : t.drawMethod = .elements) :
    ∀ b, (s.commitElementArrayBuffer t).heap.lock .glBuffers t.elementArrayBuffer = some b →
      GlBuffer.dataDamaged b = false := by
  rw [commitElementArrayBuffer, if_pos hdraw]
  exact clean_commitGlBuffer s t.elementArrayBuffer

/-- The texture and the sampler of a binding. -/
def BindingClean (h : Heap Object) (b : TextureBinding) : Prop :=
  (∀ x, h.lock .glTextures b.texture = some x → GlTexture.Clean x) ∧
    ∀ x, h.lock .glSamplers b.sampler = some x → GlSampler.parameterCommands x = []

theorem BindingClean.mono {b : TextureBinding} (hb : BindingClean h b) (hh : Clears h h') :
    BindingClean h' b := by
  constructor
  · intro x hx
    obtain ⟨x₀, hx₀, hclears⟩ := hh.lock_of hx
    exact hclears (hb.1 x₀ hx₀)
  · intro x hx
    obtain ⟨x₀, hx₀, hclears⟩ := hh.lock_of hx
    exact hclears (hb.2 x₀ hx₀)

theorem bindingClean_commitTextureBinding (s : PoolState) (b : TextureBinding) :
    BindingClean (s.commitTextureBinding b).heap b := by
  constructor
  · intro x hx
    obtain ⟨x₁, hx₁, hclears⟩ := (walk_commitGlSampler _ b.sampler).clears.lock_of hx
    obtain ⟨x₀, rfl⟩ := committed_of_lock hx₁
    exact hclears (GlTexture.clean_committed x₀)
  · intro x hx
    obtain ⟨x₀, rfl⟩ := committed_of_lock hx
    rfl

/-- All bindings of a technique. -/
theorem bindingsClean (s : PoolState) (bs : List TextureBinding) :
    ∀ b ∈ bs, BindingClean (bs.foldl commitTextureBinding s).heap b := by
  refine (foldl_forall (f := commitTextureBinding) (P := fun _ => True)
    (Q := fun b (s : PoolState) => BindingClean s.heap b) ?_ ?_ ?_ trivial).2
  · exact fun _ _ _ _ => trivial
  · exact fun s b _ _ => bindingClean_commitTextureBinding s b
  · exact fun s b b' hb => hb.mono (walk_commitTextureBinding s b').clears

theorem Progress.commitElementArrayBuffer (hs : Progress h₀ o s.heap) {t : GlBaseTechnique}
    (hreached : t.drawMethod = .elements → ∀ b, t.elementArrayBuffer = some b → Reached h₀ o b) :
    Progress h₀ o (s.commitElementArrayBuffer t).heap := by
  unfold PoolState.commitElementArrayBuffer
  split
  · rename_i hdraw
    exact hs.commitGlBuffer (hreached hdraw)
  · exact hs

/-- The walk below a technique of the object. -/
theorem Progress.commitGlBaseTechnique (hs : Progress h₀ o s.heap) {technique : Nat}
    (hdraws : ∀ t, h₀.get .glBaseTechniques technique = some t → DrawsBy h₀ o technique t) :
    Progress h₀ o (s.commitGlBaseTechnique (some technique)).heap := by
  apply withLock_induction (motive := fun t => Progress h₀ o t.heap) hs
  rintro a t ⟨⟩ ht
  obtain ⟨t₀, ht₀, hclears⟩ := hs.clears.exists_get_of ht
  have hkept : GlBaseTechnique.Clears t₀ t := hclears
  have hprogram := hs.walk (walk_commitGlProgram s t.program) (by decide) (by decide)
  have harray := hprogram.commitGlVertexArray (p := t.vertexArray) fun v hv hdamaged b hb =>
    ⟨technique, t₀, hdraws t₀ ht₀, .inl ⟨v, hkept.vertexArray ▸ hv, hdamaged, hb⟩⟩
  have htextures := harray.walk
    (Walk.foldl walk_commitTextureBinding _ (t.textureBindings.entries.map Sigma.snd))
    (by decide) (by decide)
  have helements := htextures.commitElementArrayBuffer (t := t) fun hdraw b hb =>
    ⟨technique, t₀, hdraws t₀ ht₀, .inr ⟨hkept.drawMethod ▸ hdraw, hkept.elementArrayBuffer ▸ hb⟩⟩
  exact helements.walk (.commitOne (K := (· = .glBaseTechniques)) .refl rfl technique)
    (by decide) (by decide)

/-- Nothing is pending of a technique after its commit, whatever the state was. -/
theorem done_commitGlBaseTechnique (s : PoolState) {technique : Nat} {t : GlBaseTechnique}
    (ht : (s.commitGlBaseTechnique (some technique)).heap.get .glBaseTechniques technique = some t) :
    Done (s.commitGlBaseTechnique (some technique)).heap t := by
  obtain ⟨t₀, ht₀, hclears⟩ := (walk_commitGlBaseTechnique s _).clears.exists_get_of ht
  have hkept : GlBaseTechnique.Clears t₀ t := hclears
  rw [commitGlBaseTechnique, withLock_of_get rfl ht₀] at ht ⊢
  dsimp only at ht ⊢
  -- the states of the walk, and the walks from each to the end
  generalize hs₁ : s.commitGlProgram (GlBaseTechnique.program t₀) = s₁ at ht ⊢
  generalize hs₂ : s₁.commitGlVertexArray (GlBaseTechnique.vertexArray t₀) = s₂ at ht ⊢
  generalize hs₃ : ((GlBaseTechnique.textureBindings t₀).entries.map Sigma.snd).foldl
    commitTextureBinding s₂ = s₃ at ht ⊢
  generalize hs₄ : s₃.commitElementArrayBuffer t₀ = s₄ at ht ⊢
  have hwalk₄ : UnitWalk s₄ (s₄.commitOne .glBaseTechniques technique) :=
    .commitOne .refl (by decide) technique
  have hwalk₃ := ((hs₄ ▸ walk_commitElementArrayBuffer s₃ t₀).unitWalk (by decide)).trans hwalk₄
  have hwalk₂ := ((hs₃ ▸ Walk.foldl walk_commitTextureBinding s₂ _).unitWalk (by decide)).trans hwalk₃
  have hwalk₁ := ((hs₂ ▸ walk_commitGlVertexArray s₁ _).unitWalk (by decide)).trans hwalk₂
  have hget : s₄.heap.get .glBaseTechniques technique = some t₀ := by
    rw [← hs₄, (walk_commitElementArrayBuffer s₃ t₀).get_eq (by decide), ← hs₃,
      (Walk.foldl walk_commitTextureBinding s₂ _).get_eq (by decide), ← hs₂,
      (walk_commitGlVertexArray s₁ _).get_eq (by decide), ← hs₁,
      (walk_commitGlProgram s _).get_eq (by decide), ht₀]
  rw [heap_commitOne, Heap.get_modify_self, hget] at ht
  cases ht
  refine ⟨rfl, rfl, rfl, rfl, ?_, ?_, ?_, ?_, ?_⟩
  · intro x hx
    obtain ⟨x₁, hx₁, hkept⟩ := hwalk₁.clears.lock_of hx
    exact hkept (linked_commitGlProgram s _ x₁ (hs₁ ▸ hx₁))
  · intro v hv
    obtain ⟨v₁, hv₁, -, hkept⟩ := hwalk₂.clears.lock_of hv
    exact hkept (replayed_commitGlVertexArray s₁ _ v₁ (hs₂ ▸ hv₁))
  · intro hdraw b hb
    obtain ⟨b₁, hb₁, hkept⟩ := hwalk₄.clears.lock_of hb
    exact hkept (clean_commitElementArrayBuffer s₃ t₀ hdraw b₁ (hs₄ ▸ hb₁))
  · intro e he
    have hclean := bindingsClean s₂ _ e.2 (List.mem_map_of_mem he)
    exact ((hs₃ ▸ hclean).mono hwalk₃.clears).1
  · intro e he
    have hclean := bindingsClean s₂ _ e.2 (List.mem_map_of_mem he)
    exact ((hs₃ ▸ hclean).mono hwalk₃.clears).2

-- ---------------------------------------------------------------------------
-- The commit of an object
-- ---------------------------------------------------------------------------

/-- Nothing is pending of the technique of a rendering unit. -/
def UnitDone (h : Heap Object) (p : WeakPtr) : Prop :=
  ∀ u technique t, h.lock .renderingUnits p = some u →
    RenderingUnit.glBaseTechnique u = some technique →
    h.get .glBaseTechniques technique = some t → Done h t

theorem UnitDone.mono (hp : UnitDone h p) (hh : Clears h h') : UnitDone h' p := by
  intro u technique t hu htechnique ht
  obtain ⟨u₀, hu₀, hclears⟩ := hh.lock_of hu
  obtain rfl : u = u₀ := hclears
  obtain ⟨t₀, ht₀, hkept⟩ := hh.exists_get_of ht
  exact (hp u technique t₀ hu₀ htechnique ht₀).mono hh hkept

theorem unitDone_commitRenderingUnit (s : PoolState) (p : WeakPtr) :
    UnitDone (s.commitRenderingUnit p).heap p := by
  intro u technique t hu htechnique ht
  obtain ⟨u₀, hu₀, hclears⟩ := (walk_commitRenderingUnit s p).clears.lock_of hu
  obtain rfl : u = u₀ := hclears
  obtain ⟨a, rfl, hget⟩ := Heap.lock_eq_some.mp hu₀
  have hwalk : UnitWalk (s.commitGlBaseTechnique (some technique))
      ((s.commitGlBaseTechnique (some technique)).commitOne .renderingUnits a) :=
    .commitOne .refl (by decide) a
  rw [commitRenderingUnit, withLock_of_get rfl hget, htechnique] at ht ⊢
  obtain ⟨t₁, ht₁, hkept⟩ := hwalk.clears.exists_get_of ht
  exact (done_commitGlBaseTechnique s ht₁).mono hwalk.clears hkept

theorem Progress.commitRenderingUnit (hs : Progress h₀ o s.heap) {object : VirtualObject}
    (ho : h₀.get .virtualObjects o = some object) (hp : p ∈ object.renderingUnits) :
    Progress h₀ o (s.commitRenderingUnit p).heap := by
  apply withLock_induction (motive := fun t => Progress h₀ o t.heap) hs
  intro a u ha hu
  obtain ⟨u₀, hu₀, hclears⟩ := hs.clears.exists_get_of hu
  obtain rfl : u = u₀ := hclears
  have htechnique : Progress h₀ o (s.commitGlBaseTechnique (RenderingUnit.glBaseTechnique u)).heap := by
    cases hpointer : RenderingUnit.glBaseTechnique u with
    | none => exact hs
    | some technique =>
      apply hs.commitGlBaseTechnique
      intro t ht
      exact ⟨object, p, u, ho, hp, Heap.lock_eq_some.mpr ⟨a, ha, hu₀⟩, hpointer, ht⟩
  exact htechnique.walk (.commitOne (K := (· = .renderingUnits)) .refl rfl a) (by decide) (by decide)

/-- The whole walk of the commit of an object. -/
theorem progress_commitVirtualObject (s : PoolState) (o : Nat) :
    Progress s.heap o (s.commitVirtualObject o).heap ∧
      ∀ object, s.heap.get .virtualObjects o = some object → ∀ p ∈ VirtualObject.renderingUnits object,
        UnitDone (s.commitVirtualObject o).heap p := by
  cases ho : s.heap.get .virtualObjects o with
  | none =>
    have hsame : s.commitVirtualObject o = s := by
      apply withLock_induction (motive := fun t => t = s) rfl
      rintro a x ⟨⟩ hx
      rw [ho] at hx
      cases hx
    rw [hsame]
    exact ⟨progress_refl s.heap o, nofun⟩
  | some object =>
    rw [commitVirtualObject, withLock_of_get rfl ho]
    obtain ⟨hunits, hdone⟩ := foldl_forall (f := PoolState.commitRenderingUnit)
      (P := fun t : PoolState => Progress s.heap o t.heap) (Q := fun p (t : PoolState) => UnitDone t.heap p)
      (l := VirtualObject.renderingUnits object) (fun t p hp ht => ht.commitRenderingUnit ho hp)
      (fun t p _ _ => unitDone_commitRenderingUnit t p)
      (fun t p q hp => hp.mono (walk_commitRenderingUnit t q).clears) (progress_refl s.heap o)
    have hclears := clears_commitOne
      ((VirtualObject.renderingUnits object).foldl PoolState.commitRenderingUnit s) .virtualObjects o
    have hobject := hunits.walk (.commitOne (K := (· = .virtualObjects)) .refl rfl o)
      (by decide) (by decide)
    constructor
    · exact hobject
    · rintro _ ⟨⟩ p hp
      exact (hdone p hp).mono hclears

theorem Clears.drawsBy_of {o technique : Nat} {t : GlBaseTechnique} (hh : Clears h h')
    (ht : DrawsBy h' o technique t) : ∃ t₀, DrawsBy h o technique t₀ ∧ GlBaseTechnique.Clears t₀ t := by
  obtain ⟨object, p, u, ho, hp, hu, htechnique, ht⟩ := ht
  obtain ⟨object₀, ho₀, hunits⟩ := hh.exists_get_of ho
  obtain ⟨u₀, hu₀, hclears⟩ := hh.lock_of hu
  obtain rfl : u = u₀ := hclears
  obtain ⟨t₀, ht₀, hkept⟩ := hh.exists_get_of ht
  exact ⟨t₀, ⟨object₀, p, u, ho₀, hunits p hp, hu₀, htechnique, ht₀⟩, hkept⟩

/-- A commit keeps the rendering units that are alive. -/
theorem drawsBy_commitVirtualObject {o technique : Nat} {t : GlBaseTechnique}
    (ht : DrawsBy s.heap o technique t) : ∃ t', DrawsBy (s.commitVirtualObject o).heap o technique t' ∧
      GlBaseTechnique.Clears t t' := by
  have hclears := (progress_commitVirtualObject s o).1.clears
  obtain ⟨object, p, u, ho, hp, hu, htechnique, ht⟩ := ht
  obtain ⟨t', ht', hkept⟩ := hclears.exists_get ht
  obtain ⟨a, rfl, hget⟩ := Heap.lock_eq_some.mp hu
  obtain ⟨u', hu', hsame⟩ := hclears.exists_get hget
  obtain rfl : u' = u := hsame
  have hwalk := Walk.foldl walk_commitRenderingUnit s (VirtualObject.renderingUnits object)
  obtain ⟨u₁, hu₁, -⟩ := hwalk.clears.exists_get hget
  have hobject : (s.commitVirtualObject o).heap.get .virtualObjects o = some (VirtualObject.committed
      object fun p => (((VirtualObject.renderingUnits object).foldl commitRenderingUnit s).heap.lock
        .renderingUnits p).isNone) := by
    rw [commitVirtualObject, withLock_of_get rfl ho]
    show (commitOne _ .virtualObjects o).heap.get .virtualObjects o = _
    rw [heap_commitOne, Heap.get_modify_self, hwalk.get_eq (by decide), ho]
    rfl
  refine ⟨t', ⟨_, some a, u', hobject, ?_, Heap.lock_eq_some.mpr ⟨a, rfl, hu'⟩, htechnique, ht'⟩, hkept⟩
  apply List.mem_filter.mpr
  refine ⟨hp, ?_⟩
  show (!(Heap.lock (β := Object) _ Kind.renderingUnits (some a)).isNone) = true
  rw [Heap.lock_eq_some.mpr ⟨a, rfl, hu₁⟩]
  rfl

theorem done_commitVirtualObject {o technique : Nat} {t : GlBaseTechnique}
    (ht : DrawsBy (s.commitVirtualObject o).heap o technique t) :
    Done (s.commitVirtualObject o).heap t := by
  obtain ⟨hprogress, hdone⟩ := progress_commitVirtualObject s o
  obtain ⟨object, p, u, ho, hp, hu, htechnique, ht⟩ := ht
  obtain ⟨object₀, ho₀, hunits⟩ := hprogress.clears.exists_get_of ho
  exact hdone object₀ ho₀ p (hunits p hp) u technique t hu htechnique ht

/-- A vertex array that had changed. -/
theorem uploaded_of_damaged {o technique : Nat} {t : GlBaseTechnique} {v v₀ : GlVertexArray}
    (ht : DrawsBy (s.commitVirtualObject o).heap o technique t)
    (hv : (s.commitVirtualObject o).heap.lock .glVertexArrays t.vertexArray = some v)
    (hv₀ : s.heap.lock .glVertexArrays t.vertexArray = some v₀) (hdamaged : v₀.damaged = true) :
    Uploaded (s.commitVirtualObject o).heap v := by
  obtain ⟨a, ha, hget₀⟩ := Heap.lock_eq_some.mp hv₀
  obtain ⟨a', ha', hget⟩ := Heap.lock_eq_some.mp hv
  obtain rfl := Option.some.inj (ha.symm.trans ha')
  exact (progress_commitVirtualObject s o).1.uploaded a v₀ v hget₀ hdamaged hget
    ((done_commitVirtualObject ht).replayed v hv)

/-- The walk uploads what it comes to. -/
theorem uploaded_of_reached {o b : Nat} (hreached : Reached s.heap o b) :
    ∀ buffer, (s.commitVirtualObject o).heap.get .glBuffers b = some buffer →
      GlBuffer.dataDamaged buffer = false := by
  intro buffer hbuffer
  have hclears := (progress_commitVirtualObject s o).1.clears
  have hlock := Heap.lock_eq_some.mpr ⟨b, rfl, hbuffer⟩
  obtain ⟨technique, t, ht, hway⟩ := hreached
  obtain ⟨t', ht', hkept⟩ := drawsBy_commitVirtualObject ht
  cases hway with
  | inl harray =>
    obtain ⟨v, hv, hdamaged, hmem⟩ := harray
    obtain ⟨v', hv', hbuffers, -⟩ := hclears.exists_lock hv
    have huploaded := uploaded_of_damaged ht' (hkept.vertexArray ▸ hv') (hkept.vertexArray ▸ hv) hdamaged
    exact huploaded (some b) (hbuffers ▸ hmem) buffer hlock
  | inr helement =>
    obtain ⟨hdraw, hpointer⟩ := helement
    have hmethod := hkept.drawMethod.trans hdraw
    have hbuffer' := hkept.elementArrayBuffer.trans hpointer
    exact (done_commitVirtualObject ht').elements hmethod buffer (hbuffer' ▸ hlock)

/-- A commit settles everything the object draws with, exactly when the walk comes to
every buffer with pending data of the vertex arrays that have not changed. -/
theorem settled_commitVirtualObject_iff (s : PoolState) (o : Nat) :
    Settled (s.commitVirtualObject o).heap o ↔ ReachesBuffers s.heap o := by
  have hprogress := (progress_commitVirtualObject s o).1
  constructor
  · intro hsettled technique t v b buffer ht hv _ hb hbuffer hdamaged
    obtain ⟨t', ht', hkept⟩ := drawsBy_commitVirtualObject ht
    obtain ⟨v', hv', hbuffers, -⟩ := hprogress.clears.exists_lock hv
    have huploaded := (hsettled technique t' ht').2 v' (hkept.vertexArray ▸ hv')
    by_contra hunreached
    -- a buffer that is not reached keeps its data
    have hsame := (hprogress.untouched b hunreached).trans hbuffer
    have hclean := huploaded (some b) (hbuffers ▸ hb) buffer (Heap.lock_eq_some.mpr ⟨b, rfl, hsame⟩)
    rw [hdamaged] at hclean
    cases hclean
  · intro hreaches technique t ht
    refine ⟨done_commitVirtualObject ht, fun v hv => ?_⟩
    obtain ⟨t₀, ht₀, hkept⟩ := hprogress.clears.drawsBy_of ht
    obtain ⟨v₀, hv₀, hbuffers, -⟩ := hprogress.clears.lock_of hv
    cases hdamaged : GlVertexArray.damaged v₀ with
    | true => exact uploaded_of_damaged ht hv hv₀ hdamaged
    | false =>
      intro p hp buffer hbuffer
      obtain ⟨buffer₀, hbuffer₀, hclears⟩ := hprogress.clears.lock_of hbuffer
      cases hdata : GlBuffer.dataDamaged buffer₀ with
      | false => exact hclears hdata
      | true =>
        obtain ⟨b, rfl, hget₀⟩ := Heap.lock_eq_some.mp hbuffer₀
        obtain ⟨b', hb', hget⟩ := Heap.lock_eq_some.mp hbuffer
        cases hb'
        have hreached := hreaches technique t₀ v₀ b buffer₀ ht₀ (hkept.vertexArray ▸ hv₀) hdamaged
          (hbuffers ▸ hp) hget₀ hdata
        exact uploaded_of_reached hreached buffer hget

/-- The data of a buffer is replaced after the vertex array that refers to it has been
committed. -/
def replacedData : List PoolLabel :=
  [.request (.virtualObjectNew 1), .request (.renderingUnitNew 2 1),
    .request (.glBaseTechniqueNew 3 2), .request (.glVertexArrayNew 4), .request (.glBufferNew 5),
    .request (.glVertexAttribPointer 4 0 3 0x1406 false 0 0 5),
    .request (.glBufferData 5 [1, 2, 3, 4] 0x8892 0x88e4), .request (.bindVertexArray 3 4),
    .request (.virtualObjectCommit 1), .request (.glBufferData 5 [5, 6, 7, 8] 0x8892 0x88e4)]

theorem not_settled_replacedData :
    ∃ s, (poolMachine constantDriver).run replacedData = some s ∧
      s.handle (.virtualObjectCommit 1) = .ok (s.commitVirtualObject 0) ∧
      ¬ Settled (s.commitVirtualObject 0).heap 0 := by
  refine ⟨_, rfl, rfl, fun hsettled => ?_⟩
  have hdraws := (hsettled 2 _ ⟨_, some 1, _, rfl, List.mem_singleton_self _, rfl, rfl, rfl⟩).2 _ rfl
  cases hdraws (some 4) (List.mem_singleton_self _) _ rfl

end PoolState

end ZenRemote.Client
