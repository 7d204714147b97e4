-- SUMMARY: What reaches GL of a uniform variable: a function inside the table, and a payload that is long enough.
import ZenRemote.Client.TechniqueRun
import ZenRemote.Server.GlBaseTechnique

/-!
# The uploads of uniform variables

A request is only checked for sizes between one and four. What GL reads when the
variable is uploaded depends on these sizes and on the count, and the function that
uploads a matrix is looked up in a table with a row and a column for each of two,
three and four.
-/

namespace ZenRemote.Client.GlBaseTechnique

/-- What GL reads for an upload is there, and the table has an entry for it. The
indices are unsigned. -/
def SafeUpload : GlCall → Prop
  | .uniformVector _ row _ count data => 4 * row.toNat * count.toNat ≤ data.length
  | .uniformMatrix col row _ count _ data => col - 2 < 3 ∧ row - 2 < 3 ∧
    4 * col.toNat * row.toNat * count.toNat ≤ data.length
  | _ => True

/-- All uploads so far have been safe. -/
def SafeUploads (t : Thread RenderingState) : Prop := ∀ c ∈ uploads t, SafeUpload c

/-- A vector of a type that is none of the enumeration's is never uploaded. -/
def UnknownType (u : UniformVariable) : Prop := u.col = 1 ∧ u.type ∉ [(0 : Int32), 1, 2]

/-- A matrix has two rows or more, and the payload has the size that the request says. -/
def Covered (u : UniformVariable) : Prop :=
  (u.col = 1 ∨ u.row ≠ 1) ∧ 4 * u.col.toNat * u.row.toNat * u.count.toNat ≤ u.value.length

/-- Location -1, given by its number. -/
def NoLocation (u : UniformVariable) : Prop := u.name = [] ∧ u.location.toInt32 < 0

instance (u : UniformVariable) : Decidable (UnknownType u) := inferInstanceAs (Decidable (_ ∧ _))

instance (u : UniformVariable) : Decidable (Covered u) := inferInstanceAs (Decidable (_ ∧ _))

instance (u : UniformVariable) : Decidable (NoLocation u) := inferInstanceAs (Decidable (_ ∧ _))

/-- A variable in the rendering state can be uploaded. -/
def Uploadable (u : UniformVariable) : Prop := Accepted u ∧ (UnknownType u ∨ Covered u)

/-- A variable that waits can be uploaded if it gets into the rendering state. -/
def Assignable (u : UniformVariable) : Prop := Accepted u ∧ (NoLocation u ∨ UnknownType u ∨ Covered u)

variable {gl : Driver} {t : Thread RenderingState}

theorem table_of_size {n : UInt32} (hpos : 0 < n) (hle : n ≤ 4) (hne : n ≠ 1) : n - 2 < 3 := by
  obtain rfl | rfl | rfl | rfl : n = 1 ∨ n = 2 ∨ n = 3 ∨ n = 4 := by simpa using mem_sizes hpos hle
  · exact absurd rfl hne
  · decide
  · decide
  · decide

theorem Uploadable.safeUpload {u : UniformVariable} (hu : Uploadable u) {location : UInt32}
    {c : GlCall} (hc : c ∈ uniformCalls location u) : SafeUpload c := by
  obtain ⟨haccepted, hcovered⟩ := hu
  unfold uniformCalls at hc
  split at hc
  · rename_i hcol
    split at hc
    · rename_i hknown
      obtain rfl := List.mem_singleton.mp hc
      rcases hcovered with hunknown | hcovered
      · exact absurd hknown.1 hunknown.2
      · have hsize := hcovered.2
        rw [hcol] at hsize
        exact hsize
    · cases hc
  · rename_i hcol
    obtain rfl := List.mem_singleton.mp hc
    rcases hcovered with hunknown | hcovered
    · exact absurd hunknown.1 hcol
    · have hrow := hcovered.1.resolve_left hcol
      exact ⟨table_of_size haccepted.1 haccepted.2.1 hcol,
        table_of_size haccepted.2.2.1 haccepted.2.2.2 hrow, hcovered.2⟩

/-- Conversely, only what the table and the payload allow is uploaded safely. -/
theorem unknownType_or_covered {u : UniformVariable} (haccepted : Accepted u) {location : UInt32}
    (hsafe : ∀ c ∈ uniformCalls location u, SafeUpload c) : UnknownType u ∨ Covered u := by
  unfold uniformCalls at hsafe
  split at hsafe
  · rename_i hcol
    split at hsafe
    · have hsize : 4 * u.row.toNat * u.count.toNat ≤ u.value.length :=
        hsafe _ (List.mem_singleton_self _)
      refine .inr ⟨.inl hcol, ?_⟩
      rw [hcol]
      exact hsize
    · rename_i hunknown
      refine .inl ⟨hcol, fun htype => hunknown ⟨htype, ?_⟩⟩
      exact mem_sizes haccepted.2.2.1 haccepted.2.2.2
  · obtain ⟨-, hrow, hsize⟩ := hsafe _ (List.mem_singleton_self _)
    refine .inr ⟨.inr ?_, hsize⟩
    intro hone
    rw [hone] at hrow
    exact absurd hrow (by decide)

-- ---------------------------------------------------------------------------
-- Runs
-- ---------------------------------------------------------------------------

/-- What is in the rendering state can be uploaded. -/
def SafeStored (stored : AList fun _ : UInt32 => UniformVariable) : Prop :=
  ∀ location u, stored.lookup location = some u → Uploadable u

theorem SafeStored.assign {stored : AList fun _ : UInt32 => UniformVariable} (h : SafeStored stored)
    {location : Int32} {u : UniformVariable} (hu : Assignable u)
    (hlocation : u.name = [] → location = u.location.toInt32) : SafeStored (assign stored location u) := by
  unfold GlBaseTechnique.assign
  split
  · exact h
  · rename_i hnonneg
    obtain ⟨haccepted, hcovered⟩ := hu
    have hupload : UnknownType u ∨ Covered u := by
      rcases hcovered with hnone | hcovered
      · exact absurd (hlocation hnone.1 ▸ hnone.2) hnonneg
      · exact hcovered
    intro location' u' hlookup
    cases Decidable.em (location' = location.toUInt32) with
    | inl heq =>
      rw [heq, AList.lookup_insert] at hlookup
      cases hlookup
      exact ⟨haccepted, hupload⟩
    | inr hne =>
      rw [AList.lookup_insert_ne hne] at hlookup
      exact h _ _ hlookup

theorem SafeStored.execute (h : SafeStored t.rendering.uniformVariables) {c : Command}
    (hc : c.All Assignable) (lockProgram : WeakPtr → Option GLuint) :
    SafeStored (c.execute gl lockProgram t).rendering.uniformVariables := by
  cases c with
  | drawMethod args method buffer => exact h
  | program p => exact h
  | vertexArray v => exact h
  | textures bindings => exact h
  | delete => exact h
  | uniforms us =>
    rw [Command.execute]
    split
    · exact h
    · rename_i programId hprogram
      clear hprogram
      split
      · exact h
      · induction us generalizing t with
        | nil => exact h
        | cons u us ih =>
          refine ih ?_ fun u hu => hc u (List.mem_cons_of_mem _ hu)
          rw [rendering_setUniform]
          exact h.assign (hc u List.mem_cons_self) fun hname => if_pos hname

theorem SafeStored.safeUploads_render (h : SafeStored t.rendering.uniformVariables)
    (huploads : SafeUploads t) (locks : Locks) (m : Matrices) : SafeUploads (render gl locks m t) := by
  rcases render_cases gl locks m t with ⟨-, heq⟩ | ⟨programId, -, hdraws, -⟩
  · rw [heq]
    exact huploads
  · intro c hc
    rw [uploads_render hdraws] at hc
    rcases List.mem_append.mp hc with hold | hnew
    · exact huploads c hold
    · obtain ⟨e, he, hc⟩ := List.mem_flatMap.mp hnew
      exact (h e.1 e.2 (AList.mem_lookup_iff.mpr he)).safeUpload hc

structure SafeRun (s : State) : Prop where
  carries : Carries Assignable s
  stored : SafeStored s.rendering.rendering.uniformVariables
  uploads : SafeUploads s.rendering.thread

/-- A request for a uniform variable that is refused, never uploaded, or right. -/
abbrev RightSize : Label → Prop := Requests Assignable

theorem SafeRun.step {s s' : State} {l : Label} (id : UInt64) (h : SafeRun s) (hl : RightSize l)
    (hstep : (pipeline gl id).step s l = some s') : SafeRun s' := by
  have hcarries := h.carries.step id hl hstep
  cases Pipeline.step_cases hstep with
  | update hupdate => exact ⟨hcarries, h.stored, h.uploads⟩
  | commit => exact ⟨hcarries, h.stored, h.uploads⟩
  | @execute c queue hqueue =>
    have hc := h.carries.queue c (hqueue ▸ List.mem_cons_self)
    refine ⟨hcarries, h.stored.execute hc _, ?_⟩
    show SafeUploads (c.execute gl s.env.lock s.rendering.thread)
    rw [SafeUploads, uploads_execute]
    exact h.uploads
  | render m =>
    refine ⟨hcarries, ?_, h.stored.safeUploads_render h.uploads _ m⟩
    show SafeStored (render gl s.env.locks m s.rendering.thread).rendering.uniformVariables
    rw [uniformVariables_render]
    exact h.stored

/-- A run of requests of the right size hands GL what it reads. -/
theorem safeRun_run {gl : Driver} {id : UInt64} {ls : List Label} {s : State}
    (hls : ∀ l ∈ ls, RightSize l) (hrun : (pipeline gl id).machine.run ls = some s) : SafeRun s := by
  have halong : (pipeline gl id).machine.Along (fun _ l => RightSize l) ls :=
    Machine.alongFrom_of_mem fun l hl _ => hls l hl
  apply halong.invariant _ (fun _ _ _ hsafe hl hstep => hsafe.step id hl hstep) hrun
  exact ⟨⟨nofun, nofun⟩, nofun, nofun⟩

/-- A program and a vertex array are there, and a uniform variable is drawn with. -/
def drawnWith (u : UniformVariable) : List Label :=
  [.update (.create 1 1), .update (.create 2 1), .update (.bindProgram (some 1)),
    .update (.bindVertexArray (some 2)), .update (.glDrawArrays 4 0 3), .update (.glUniform u), .commit,
    .execute, .execute, .execute, .execute, .render ⟨[], [], [], [], []⟩]

/-- What rendering uploads of a variable that has got into the rendering state. -/
theorem flatMap_assign (location : Int32) (u : UniformVariable) :
    ((assign ∅ location u).entries.flatMap fun e => uniformCalls e.1 e.2) =
      if location < 0 then [] else
        uniformCalls location.toUInt32 { u with name := [], location := location.toUInt32 } := by
  unfold assign
  split
  · rfl
  · exact List.append_nil _

theorem uploads_drawnWith {u : UniformVariable} (hu : Accepted u) : ∃ s,
    (pipeline constantDriver 1).machine.run (drawnWith u) = some s ∧
      uploads s.rendering.thread = if resolved constantDriver 1 [] u < 0 then [] else
        uniformCalls (resolved constantDriver 1 [] u).toUInt32
          { u with name := [], location := (resolved constantDriver 1 [] u).toUInt32 } := by
  let t : GlBaseTechnique :=
    { id := 1, drawMethod := .arrays, drawArgs := .arrays 4 3 0, drawMethodDamaged := true
      program := some 1, programDamaged := true, vertexArray := some 2, vertexArrayDamaged := true }
  let e : Surroundings :=
    { names := Function.update (Function.update (fun _ => 0) 1 1) 2 1 }
  -- the thread before the closure that assigns the variable
  let r : Thread RenderingState :=
    [Command.drawMethod (.arrays 4 3 0) .arrays none, .program (some 1), .vertexArray (some 2)].foldl
      (fun t c => c.execute constantDriver e.lock t) { calls := [], rendering := {} }
  have hpending : t.glUniform u = { t with uniformVariables := [u] } := if_pos hu
  have hrun : (pipeline constantDriver 1).machine.run (drawnWith u) =
      (pipeline constantDriver 1).machine.runFrom
        { env := e, pending := t.glUniform u, rendering := { thread := { calls := [], rendering := {} } } }
        [.commit, .execute, .execute, .execute, .execute, .render ⟨[], [], [], [], []⟩] := rfl
  rw [hrun, hpending]
  refine ⟨_, rfl, ?_⟩
  have hdraws : Draws e.locks (Command.setUniform constantDriver 1 r u).rendering 1 := by
    rw [rendering_setUniform]
    exact ⟨nofun, ⟨1, rfl, by decide⟩, rfl, by decide, nofun⟩
  have huploads : uploads (render constantDriver e.locks ⟨[], [], [], [], []⟩
      (Command.setUniform constantDriver 1 r u)) = _ := uploads_render hdraws
  rw [uploads_setUniform, rendering_setUniform] at huploads
  exact huploads.trans (flatMap_assign _ u)

theorem rightSize_iff (u : UniformVariable) : RightSize (.update (.glUniform u)) ↔
    ∀ (gl : Driver) (id : UInt64) (ls : List Label) (s : State),
      (∀ u', .update (.glUniform u') ∈ ls → u' = u) →
      (pipeline gl id).machine.run ls = some s → SafeUploads s.rendering.thread := by
  constructor
  · intro hu gl id ls s hls hrun
    refine (safeRun_run (fun l hl => ?_) hrun).uploads
    cases l with
    | update o =>
      cases o with
      | glUniform u' => exact hls u' hl ▸ hu
      | _ => trivial
    | _ => trivial
  · intro h haccepted
    obtain ⟨s, hrun, huploads⟩ := uploads_drawnWith haccepted
    have honly : ∀ u', .update (.glUniform u') ∈ drawnWith u → u' = u := by
      simp [drawnWith]
    have hsafe := h constantDriver 1 _ s honly hrun
    rw [SafeUploads, huploads] at hsafe
    refine ⟨haccepted, or_iff_not_imp_left.mpr fun hlocation => ?_⟩
    have hnonneg : ¬ resolved constantDriver 1 [] u < 0 := by
      unfold resolved
      split
      · rename_i hname
        exact fun hneg => hlocation ⟨hname, hneg⟩
      · exact show ¬ (1 : Int32) < 0 by decide
    rw [if_neg hnonneg] at hsafe
    exact unknownType_or_covered (u := { u with name := [], location := _ }) haccepted hsafe

-- ---------------------------------------------------------------------------
-- Both ends
-- ---------------------------------------------------------------------------

/-- The uploads are safe in every run in which each request has the right size, is
refused or is never uploaded, and a request that is none of this spoils a run even
alone. The server sends whole arrays exactly if their sizes fit 32 bits. -/
theorem uniformsSafe_run (u : UniformVariable) (location count : UInt32) (name value : Bytes) :
    (∀ (gl : Driver) (id : UInt64) (ls : List Label) (s : State), (∀ l ∈ ls, RightSize l) →
      (pipeline gl id).machine.run ls = some s → SafeUploads s.rendering.thread) ∧
    (RightSize (.update (.glUniform u)) ↔
      ∀ (gl : Driver) (id : UInt64) (ls : List Label) (s : State),
        (∀ u', .update (.glUniform u') ∈ ls → u' = u) →
        (pipeline gl id).machine.run ls = some s → SafeUploads s.rendering.thread) ∧
    (∀ (type : Int32) (size : UInt32),
      Server.GlBaseTechnique.arraySize 1 size count ≤ value.length →
      ((Server.GlBaseTechnique.glUniformVector type location name size count value).value.length =
          Server.GlBaseTechnique.arraySize 1 size count ↔
        Server.GlBaseTechnique.arraySize 1 size count < 2 ^ 32)) ∧
    ∀ (col row : UInt32) (transpose : Bool),
      Server.GlBaseTechnique.arraySize col row count ≤ value.length →
      ((Server.GlBaseTechnique.glUniformMatrix location name col row count transpose
          value).value.length = Server.GlBaseTechnique.arraySize col row count ↔
        Server.GlBaseTechnique.arraySize col row count < 2 ^ 32) :=
  ⟨fun _ _ _ _ hls hrun => (safeRun_run hls hrun).uploads, rightSize_iff u,
    fun type _ hvalue => Server.GlBaseTechnique.length_value_glUniform hvalue location name type false,
    fun _ _ transpose hvalue =>
      Server.GlBaseTechnique.length_value_glUniform hvalue location name 2 transpose⟩

/-- A matrix of two columns and one row, with its eight bytes. -/
def columnPair : UniformVariable := { name := [109], col := 2, row := 1, count := 1, value := List.replicate 8 0 }

/-- The table has no column for matrices of one row. -/
theorem not_safeUploads_columnPair : ¬ ∀ (gl : Driver) (id : UInt64) (ls : List Label) (s : State),
    (pipeline gl id).machine.run ls = some s → SafeUploads s.rendering.thread := by
  intro h
  obtain ⟨s, hrun, huploads⟩ := uploads_drawnWith (u := columnPair) (by decide)
  have hsafe := h constantDriver 1 _ s hrun
  rw [SafeUploads, huploads] at hsafe
  have htable : (2 : UInt32) - 2 < 3 ∧ (1 : UInt32) - 2 < 3 ∧ _ := hsafe _ (List.mem_singleton_self _)
  exact absurd htable.2.1 (by decide)

end ZenRemote.Client.GlBaseTechnique
