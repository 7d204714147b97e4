-- SUMMARY: A technique with its two threads and its surroundings: other resources get their names and go.
import ZenRemote.Client.Render
import ZenRemote.Lib.Pipeline

/-!
# Runs of a technique

The update thread calls the methods of a technique and commits it; the rendering
thread executes the closures and renders. Both lock what the technique refers to,
which gets its GL name at some time and goes at another.
-/

namespace ZenRemote.Client.GlBaseTechnique

/-- The resources around a technique, by their addresses. -/
structure Surroundings where
  gone : List Nat := []
  /-- Zero until the resource has been created in GL, or the program has been linked. -/
  names : Nat → GLuint := fun _ => 0

namespace Surroundings

def lock (e : Surroundings) (p : WeakPtr) : Option GLuint :=
  p.bind fun a => if a ∈ e.gone then none else some (e.names a)

def locks (e : Surroundings) : Locks := ⟨e.lock, e.lock, e.lock, e.lock, e.lock⟩

def expired (e : Surroundings) (p : WeakPtr) : Bool := (e.lock p).isNone

/-- `program_id()` of a program that is alive and has been linked. -/
def linked (e : Surroundings) (p : WeakPtr) : Option GLuint := (e.lock p).filter (· ≠ 0)

/-- The texture and the sampler are alive. -/
def alive (e : Surroundings) (b : TextureBinding) : Bool := !e.expired b.texture && !e.expired b.sampler

end Surroundings

inductive Update where
  | bindProgram (program : WeakPtr)
  | bindVertexArray (vertexArray : WeakPtr)
  | bindTexture (binding : UInt32) (name : Bytes) (texture : WeakPtr) (target : UInt32)
      (sampler : WeakPtr)
  | glDrawArrays (mode : UInt32) (first : Int32) (count : UInt32)
  | glDrawElements (mode count type : UInt32) (offset : UInt64) (elementArrayBuffer : WeakPtr)
  | glUniform (u : UniformVariable)
  /-- Another resource is destroyed. -/
  | destroy (a : Nat)
  /-- Another resource gets its name. -/
  | create (a : Nat) (name : GLuint)
  deriving DecidableEq

def update (e : Surroundings) (t : GlBaseTechnique) : Update → Option (Surroundings × GlBaseTechnique)
  | .bindProgram program => some (e, t.bindProgram program)
  | .bindVertexArray vertexArray => some (e, t.bindVertexArray vertexArray)
  | .bindTexture binding name texture target sampler =>
    some (e, t.bindTexture binding name texture target sampler)
  | .glDrawArrays mode first count => some (e, t.glDrawArrays mode first count)
  | .glDrawElements mode count type offset elementArrayBuffer =>
    some (e, t.glDrawElements mode count type offset elementArrayBuffer)
  | .glUniform u => some (e, t.glUniform u)
  | .destroy a => some ({ e with gone := a :: e.gone }, t)
  | .create a name =>
    if e.names a = 0 ∧ name ≠ 0 then some ({ e with names := Function.update e.names a name }, t)
    else none

/-- The rendering thread in a technique. The last field records the uniform variables
in the closures that were executed, each with the linked program that was found. -/
structure Rendered where
  thread : Thread RenderingState
  assigned : List (Option GLuint × UniformVariable) := []

namespace Rendered

def rendering (r : Rendered) : RenderingState := r.thread.rendering

/-- What a closure has to assign. -/
def assignments (e : Surroundings) (r : RenderingState) : Command → List (Option GLuint × UniformVariable)
  | .uniforms us => us.map fun u => (e.linked r.program, u)
  | .drawMethod _ _ _ => []
  | .program _ => []
  | .vertexArray _ => []
  | .textures _ => []
  | .delete => []

def execute (gl : Driver) (e : Surroundings) (r : Rendered) (c : Command) : Rendered where
  thread := c.execute gl e.lock r.thread
  assigned := r.assigned ++ assignments e r.rendering c

def render (gl : Driver) (e : Surroundings) (r : Rendered) (m : Matrices) : Rendered :=
  { r with thread := GlBaseTechnique.render gl e.locks m r.thread }

end Rendered

def pipeline (gl : Driver) (id : UInt64) :
    Pipeline Surroundings GlBaseTechnique Update Command Rendered Matrices where
  env := {}
  pending := { id := id }
  rendering := { thread := { calls := [], rendering := {} } }
  update := update
  commands := fun e t => t.commitCommands e.expired
  committed := fun e t => t.committed e.expired
  execute := Rendered.execute gl
  render := Rendered.render gl

abbrev State := Pipeline.State Surroundings GlBaseTechnique Command Rendered

abbrev Label := Pipeline.Label Update Matrices

-- ---------------------------------------------------------------------------
-- Surroundings
-- ---------------------------------------------------------------------------

/-- What has gone stays away, and a name stays as it is. -/
structure Surroundings.Later (e e' : Surroundings) : Prop where
  gone : e.gone ⊆ e'.gone
  names : ∀ a, e.names a ≠ 0 → e'.names a = e.names a

theorem later_update {e e' : Surroundings} {t t' : GlBaseTechnique} {o : Update}
    (hupdate : update e t o = some (e', t')) : e.Later e' := by
  have hsame : ∀ {t'' : GlBaseTechnique}, some (e, t'') = some (e', t') → e.Later e' := by
    rintro t'' ⟨⟩
    exact ⟨List.Subset.refl _, fun _ _ => rfl⟩
  cases o with
  | bindProgram program => exact hsame hupdate
  | bindVertexArray vertexArray => exact hsame hupdate
  | bindTexture binding name texture target sampler => exact hsame hupdate
  | glDrawArrays mode first count => exact hsame hupdate
  | glDrawElements mode count type offset elementArrayBuffer => exact hsame hupdate
  | glUniform u => exact hsame hupdate
  | destroy a =>
    cases hupdate
    exact ⟨List.subset_cons_self _ _, fun _ _ => rfl⟩
  | create a name =>
    rw [update] at hupdate
    split at hupdate
    · rename_i hname
      cases hupdate
      refine ⟨List.Subset.refl _, fun b hb => Function.update_of_ne ?_ ..⟩
      rintro rfl
      exact hb hname.1
    · contradiction

namespace Surroundings

variable {e e' : Surroundings}

theorem Later.expired (h : e.Later e') {p : WeakPtr} (hp : e.expired p) : e'.expired p := by
  cases p with
  | none => rfl
  | some a =>
    have hgone : a ∈ e.gone := by
      by_contra hnot
      simp [Surroundings.expired, lock, hnot] at hp
    simp [Surroundings.expired, lock, h.gone hgone]

theorem Later.alive (h : e.Later e') {b : TextureBinding} (hb : e'.alive b) : e.alive b := by
  rw [Surroundings.alive, Bool.and_eq_true, Bool.not_eq_true', Bool.not_eq_true'] at hb ⊢
  refine ⟨Bool.eq_false_iff.mpr fun hexpired => ?_, Bool.eq_false_iff.mpr fun hexpired => ?_⟩
  · exact Bool.eq_false_iff.mp hb.1 (h.expired hexpired)
  · exact Bool.eq_false_iff.mp hb.2 (h.expired hexpired)

end Surroundings

-- ---------------------------------------------------------------------------
-- Uniform variables
-- ---------------------------------------------------------------------------

/-- What `GlUniform` checks. -/
def Accepted (u : UniformVariable) : Prop := 0 < u.col ∧ u.col ≤ 4 ∧ 0 < u.row ∧ u.row ≤ 4

instance (u : UniformVariable) : Decidable (Accepted u) := inferInstanceAs (Decidable (_ ∧ _))

theorem mem_sizes {n : UInt32} (hpos : 0 < n) (hle : n ≤ 4) : n ∈ [(1 : UInt32), 2, 3, 4] := by
  have hpos' : 0 < n.toNat := hpos
  have hle' : n.toNat ≤ 4 := hle
  have hcases : n.toNat = (1 : UInt32).toNat ∨ n.toNat = (2 : UInt32).toNat ∨
      n.toNat = (3 : UInt32).toNat ∨ n.toNat = (4 : UInt32).toNat := by
    change n.toNat = 1 ∨ n.toNat = 2 ∨ n.toNat = 3 ∨ n.toNat = 4
    omega
  simpa only [UInt32.toNat_inj, List.mem_cons, List.not_mem_nil, or_false] using hcases

/-- Of all updates, only `GlUniform` adds to the pending uniform variables. -/
theorem uniformVariables_update {e e' : Surroundings} {technique technique' : GlBaseTechnique}
    {o : Update} (hupdate : update e technique o = some (e', technique')) :
    technique'.uniformVariables = technique.uniformVariables ∨ ∃ u, o = .glUniform u ∧ Accepted u ∧
      technique'.uniformVariables = technique.uniformVariables ++ [u] := by
  cases o with
  | bindProgram program =>
    cases hupdate
    exact .inl rfl
  | bindVertexArray vertexArray =>
    cases hupdate
    exact .inl rfl
  | bindTexture binding name texture target sampler =>
    cases hupdate
    exact .inl rfl
  | glDrawArrays mode first count =>
    cases hupdate
    exact .inl rfl
  | glDrawElements mode count type offset elementArrayBuffer =>
    cases hupdate
    exact .inl rfl
  | destroy a =>
    cases hupdate
    exact .inl rfl
  | create a name =>
    rw [update] at hupdate
    split at hupdate
    · cases hupdate
      exact .inl rfl
    · contradiction
  | glUniform u =>
    cases hupdate
    unfold glUniform
    split
    · rename_i haccepted
      exact .inr ⟨u, rfl, haccepted, rfl⟩
    · exact .inl rfl

/-- The variables in a closure meet a condition. -/
def Command.All (P : UniformVariable → Prop) : Command → Prop
  | .uniforms us => ∀ u ∈ us, P u
  | .drawMethod _ _ _ => True
  | .program _ => True
  | .vertexArray _ => True
  | .textures _ => True
  | .delete => True

/-- The variables on their way to the rendering state meet a condition. -/
structure Carries (P : UniformVariable → Prop) (s : State) : Prop where
  pending : ∀ u ∈ s.pending.uniformVariables, P u
  queue : ∀ c ∈ s.queue, c.All P

/-- A variable that is accepted meets a condition. -/
def Requests (P : UniformVariable → Prop) : Label → Prop
  | .update (.glUniform u) => Accepted u → P u
  | .update _ => True
  | .commit => True
  | .execute => True
  | .render _ => True

instance (P : UniformVariable → Prop) [DecidablePred P] (l : Label) : Decidable (Requests P l) := by
  cases l with
  | update o =>
    cases o with
    | glUniform u => exact inferInstanceAs (Decidable (Accepted u → P u))
    | _ => exact isTrue trivial
  | _ => exact isTrue trivial

theorem all_commitCommands {P : UniformVariable → Prop} {t : GlBaseTechnique} (expired : WeakPtr → Bool)
    (h : ∀ u ∈ t.uniformVariables, P u) : ∀ c ∈ t.commitCommands expired, c.All P := by
  intro c hc
  have hpart : ∀ {damaged : Bool} {c' : Command}, c ∈ (if damaged then [c'] else []) → c'.All P →
      c.All P := by
    intro damaged c' hmem hc'
    split at hmem
    · exact List.mem_singleton.mp hmem ▸ hc'
    · cases hmem
  rw [commitCommands] at hc
  simp only [List.mem_append] at hc
  rcases hc with (((hmethod | hprogram) | hvertexArray) | htextures) | huniforms
  · exact hpart hmethod trivial
  · exact hpart hprogram trivial
  · exact hpart hvertexArray trivial
  · exact hpart htextures trivial
  · exact hpart huniforms h

theorem Carries.step {P : UniformVariable → Prop} {gl : Driver} {s s' : State} {l : Label} (id : UInt64)
    (h : Carries P s) (hl : Requests P l) (hstep : (pipeline gl id).step s l = some s') :
    Carries P s' := by
  cases Pipeline.step_cases hstep with
  | update hupdate =>
    refine ⟨?_, h.queue⟩
    rcases uniformVariables_update hupdate with hsame | ⟨u, rfl, haccepted, hvariables⟩
    · exact fun u hu => h.pending u (hsame ▸ hu)
    · intro u' hu'
      rcases List.mem_append.mp (hvariables ▸ hu') with hold | hnew
      · exact h.pending u' hold
      · exact List.mem_singleton.mp hnew ▸ hl haccepted
  | commit =>
    refine ⟨?_, ?_⟩
    · intro u hu
      have hcommitted : u ∈ if s.env.expired s.pending.program then s.pending.uniformVariables
          else [] := hu
      split at hcommitted
      · exact h.pending u hcommitted
      · cases hcommitted
    · intro c hc
      rcases List.mem_append.mp hc with hold | hnew
      · exact h.queue c hold
      · exact all_commitCommands _ h.pending c hnew
  | execute hqueue => exact ⟨h.pending, fun c hc => h.queue c (hqueue ▸ List.mem_cons_of_mem _ hc)⟩
  | render m => exact ⟨h.pending, h.queue⟩

/-- The location that is found for a variable. -/
def resolved (gl : Driver) (programId : GLuint) (calls : List GlCall) (u : UniformVariable) : Int32 :=
  if u.name = [] then u.location.toInt32 else gl.value calls (.getUniformLocation programId u.name)

/-- The variables in the rendering state after one has been assigned. -/
def assign (stored : AList fun _ : UInt32 => UniformVariable) (location : Int32)
    (u : UniformVariable) : AList fun _ : UInt32 => UniformVariable :=
  if location < 0 then stored
  else stored.insert location.toUInt32
    { (stored.lookup location.toUInt32).getD { location := location.toUInt32 } with
      type := u.type, col := u.col, row := u.row, count := u.count, transpose := u.transpose
      value := u.value }

variable {gl : Driver} {t : Thread RenderingState}

theorem rendering_setUniform (programId : GLuint) (u : UniformVariable) :
    (Command.setUniform gl programId t u).rendering = { t.rendering with
      uniformVariables := assign t.rendering.uniformVariables (resolved gl programId t.calls u) u } := by
  unfold Command.setUniform assign
  rw [← resolved]
  dsimp only
  split
  · split
    · rfl
    · rfl
  · split
    · rfl
    · rfl

@[simp] theorem uploads_setUniform (programId : GLuint) (u : UniformVariable) :
    uploads (Command.setUniform gl programId t u) = uploads t := by
  have hissue : uploads (t.issue (.getUniformLocation programId u.name)) = uploads t :=
    (uploads_issue _).trans (List.append_nil _)
  unfold Command.setUniform
  cases Decidable.em (u.name = []) with
  | inl hname =>
    simp only [if_pos hname]
    split
    · rfl
    · rfl
  | inr hname =>
    simp only [if_neg hname]
    split
    · exact hissue
    · exact hissue

@[simp] theorem uploads_execute (c : Command) (lockProgram : WeakPtr → Option GLuint) :
    uploads (c.execute gl lockProgram t) = uploads t := by
  cases c with
  | drawMethod args method buffer => rfl
  | program p => rfl
  | vertexArray v => rfl
  | textures bindings => rfl
  | delete => rfl
  | uniforms us =>
    rw [Command.execute]
    split
    · rfl
    · rename_i programId hprogram
      clear hprogram
      split
      · rfl
      · induction us generalizing t with
        | nil => rfl
        | cons u us ih => exact ih.trans (uploads_setUniform programId u)

end ZenRemote.Client.GlBaseTechnique
